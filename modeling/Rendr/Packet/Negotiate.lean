import Mathlib.Logic.Function.Basic
import Rendr.Lib.Run
import Rendr.Packet.Values

/-!
# The negotiation of a packet session's values

One packet session between a dialer and a passive, over any number of carriers. A carrier is new,
or a started trunk on which the session opens views; its first frames, and the answers, travel in
order. The send budget of a started datagram carrier is lowered by size refusals at either end,
down to the control floor, at any time (`DgHalf.shrink`).

The dialer writes what it offers into each first frame, the passive accepts or refuses it, and the
dialer checks the answer. What either side rejects is recorded in `Net.faults`.

* `pkt_values_agree` — as long as a view is offered and admitted while the trunk's send budget at
  that end is at least the smallest frame budget, nothing is rejected, and both ends hold the same
  MaxPayload and the same budget per carrier;
* `pkt_values_shrunk_trunk` — a trunk whose budget shrank below that is still alive, but the OPEN
  of a view on it is a bad request; with the passive's budget shrunk the dialer rejects the
  passive's own answer.
-/

open Rendr.Octets Rendr.Wire

namespace Rendr.Packet

open List

open UInt64

/-! ### Carriers -/

/-- One end's half of a datagram carrier: what its transport receives at most, the negotiated
budget its reader accepts, and its current send frame budget. -/
structure DgHalf where
  limit : Nat
  recvLimit : Nat
  budget : Nat

/-- `SetBudget` on an unstarted carrier. -/
def DgHalf.setBudget (h : DgHalf) (cmtu : Nat) : DgHalf :=
  { h with recvLimit := cmtu, budget := cmtu }

/-- `dgShrink`: a size refusal that reports `max` lowers the budget, never raises it; `none` when
it is below the control floor and the carrier dies. -/
def DgHalf.shrink (h : DgHalf) (max : Int) : Option DgHalf :=
  if max ≤ 0 then some h
  else
    let m := max.bmod (2 ^ 32)
    let budget : Int := if (h.budget : Int) ≤ m then h.budget else m
    if budget < controlFloor then none else some { h with budget := budget.toNat }

/-- How far a carrier is, at the dialer. -/
inductive Phase
  /-- Not yet used. -/
  | fresh
  /-- Its first frame was written. -/
  | sent
  /-- Started: a trunk, whose further first frames open views. -/
  | up
  | dead
  deriving DecidableEq, Repr

/-- A first frame on its way to the passive. -/
structure FirstFrame where
  /-- The handle is that of a view of a started trunk. -/
  view : Bool
  type : First
  payload : Bytes

/-- The field of a positive answer the negotiation reads. -/
inductive Answer
  | openAck (window : UInt32)
  | joinAck (rxNext : UInt64)

/-- An answer on its way to the dialer. -/
structure Resp where
  view : Bool
  answer : Answer

/-- A carrier at both ends, with what is in transit on it. -/
structure Path where
  kind : CarrierKind
  phase : Phase
  /-- The dialing factory's MTU, 0 when it has none. -/
  mtu : Nat
  dial : DgHalf
  pass : DgHalf
  up : List FirstFrame
  down : List Resp

open Path

/-- The budget offer of a new datagram carrier. -/
def Path.offer (p : Path) : Nat := if 0 < p.mtu then min p.dial.limit p.mtu else p.dial.limit

/-- `RecvLimit` of one half: 0 on a stream carrier. -/
def Path.recvLimit (p : Path) (h : DgHalf) : Nat :=
  match p.kind with
  | .stream => 0
  | .datagram => h.recvLimit

/-- A carrier that died: nothing on it arrives. -/
def Path.kill (p : Path) : Path := { p with phase := .dead, up := [], down := [] }

/-! ### The two ends -/

/-- The parameters of both ends. -/
structure Cfg where
  spec : OpenSpec
  /-- The passive's own `Packet.MaxPayload`. -/
  ownMax : Int
  /-- The passive's `Handshake.MaxMetadata`. -/
  maxMeta : Int

/-- The passive session: its MaxPayload, fixed by the OPEN that created it. The carrier and the
OPEN are recorded for the statements. -/
structure Made where
  maxPayload : Int
  carrier : Nat
  first : Open

/-- What either end rejects. -/
inductive Fault
  /-- The admission answers an OPEN BAD_REQUEST with this code. -/
  | badRequest (code : UInt32)
  /-- The admission answers a JOIN BAD_REQUEST. -/
  | joinBadRequest
  /-- The dialer kills the carrier for a violation in the answer. -/
  | answer (e : PktErr)
  deriving DecidableEq, Repr

/-- The session at both ends, and its carriers. -/
structure Net where
  paths : Nat → Path
  /-- The dialer's MaxPayload, once the first OPEN_ACK fixed it. -/
  dialMax : Option Nat
  made : Option Made
  faults : List Fault

def Net.setPath (n : Net) (i : Nat) (p : Path) : Net :=
  { n with paths := Function.update n.paths i p }

def Net.fault (n : Net) (f : Fault) : Net := { n with faults := n.faults ++ [f] }

/-- The conversion `uint16(x)` of an `int`. -/
def uint16 (x : Int) : UInt16 := UInt16.ofNat (x % 65536).toNat

/-- The payload of a first frame before the carrier's offer. -/
def firstPayload (k : Cfg) : First → Option Bytes
  | .openFrame => openPayload k.spec
  | .joinFrame => some (putJoin k.spec.toJoin)

/-- The dialer starts an attempt on a carrier: the first frame of a new one (`Establish`), or of a
view on a started trunk (`openViewMux`). A first frame that does not fit fails the attempt. -/
def Path.place (k : Cfg) (p : Path) (t : First) (fromBudgets : Bool) : Path :=
  match firstPayload k t with
  | none => p
  | some b =>
    match p.phase, p.kind with
    | .fresh, .stream => { p with phase := .sent, up := p.up ++ [⟨false, t, b⟩] }
    | .fresh, .datagram =>
      let h1 := buildH1 t b p.offer fromBudgets
      if p.offer < prefaceLen + frameOverhead + relHeadLen + h1.length then p.kill
      else { p with phase := .sent, up := p.up ++ [⟨false, t, h1⟩] }
    | .up, .stream => { p with up := p.up ++ [⟨true, t, b⟩] }
    | .up, .datagram =>
      if relMaxPayload < relHeadLen + b.length then p
      else { p with up := p.up ++ [⟨true, t, patchViewOffer t b p.dial.budget fromBudgets⟩] }
    | .sent, _ | .dead, _ => p

/-- An OPEN is sent until the session is open, JOINs from then on. -/
def Net.place (k : Cfg) (n : Net) (i : Nat) (t : First) (fromBudgets : Bool) : Net :=
  if (t = .joinFrame) = (n.dialMax.isSome = true) then
    n.setPath i ((n.paths i).place k t fromBudgets)
  else n

/-- The limit the admission is given: a new datagram carrier's transport limit, a trunk's current
send budget for a view, 0 on a stream carrier. -/
def Path.admitLimit (p : Path) (view : Bool) : Nat :=
  match p.kind with
  | .stream => 0
  | .datagram => if view then p.pass.budget else p.pass.limit

/-- `MetaTooLarge`: a well-formed OPEN with more metadata than this passive takes. -/
def metaTooLarge (k : Cfg) (payload : Bytes) : Bool :=
  match parseOpen maxMetadata payload with
  | .ok o => k.maxMeta < o.metadata.length
  | .error _ => false

/-- `SetBudget` of the admission: a view keeps the trunk's budget. -/
def Path.setPass (p : Path) (view : Bool) (cmtu : Nat) : Path :=
  if view then p else { p with pass := p.pass.setBudget cmtu }

/-- `admitOpen`, and the OPEN_ACK of `laneWindowLocked`. `take` is false when the admission refuses
the carrier for a reason that is not in the packet values. -/
def Net.admitOpen (k : Cfg) (n : Net) (i : Nat) (f : FirstFrame) (take : Bool) : Net :=
  let p := n.paths i
  if metaTooLarge k f.payload then n
  else
    let r := parseOpen k.maxMeta f.payload
    match openBadRequest f.payload r p.kind, r with
    | some code, _ => n.fault (.badRequest code)
    | none, .error _ => n
    | none, .ok o =>
      -- Every OPEN of this dialer is a packet OPEN.
      if o.kind ≠ kindDatagram then n
      else
        let acc := packetAccept o (p.admitLimit f.view) k.ownMax
        let p := p.setPass f.view acc.1.toNat
        if take then
          let made : Made := n.made.getD ⟨acc.2, i, o⟩
          let window := packetWindow (uint16 made.maxPayload) (uint16 (p.recvLimit p.pass))
          Net.setPath { n with made := some made } i
            { p with down := p.down ++ [⟨f.view, .openAck window⟩] }
        else n.setPath i p

/-- `admitJoin` and `Join`, with the JOIN_ACK of `joinAckRxLocked`. -/
def Net.admitJoin (n : Net) (i : Nat) (f : FirstFrame) (take : Bool) : Net :=
  let p := n.paths i
  match parseJoin f.payload with
  | .error _ => n.fault .joinBadRequest
  | .ok j =>
    match n.made with
    | none => n
    | some m =>
      let limit := p.admitLimit f.view
      let tlimit := match p.kind with
        | .stream => 0
        | .datagram => p.pass.limit
      match pktJoinBudget true p.kind (joinOffer j.rxNext p.kind limit) (transportLimit tlimit) with
      | none => n.fault .joinBadRequest
      | some cmtu =>
        if j.mode ≠ m.first.mode then n.fault .joinBadRequest
        else if take then
          let p := p.setPass f.view cmtu
          n.setPath i { p with
            down := p.down ++ [⟨f.view, .joinAck (ofNat (p.recvLimit p.pass))⟩] }
        else n

/-- The passive takes the oldest first frame of a carrier. -/
def Net.admitFirst (k : Cfg) (n : Net) (i : Nat) (take : Bool) : Net :=
  match (n.paths i).up with
  | [] => n
  | f :: rest =>
    let n := n.setPath i { n.paths i with up := rest }
    match f.type with
    | .openFrame => n.admitOpen k i f take
    | .joinFrame => n.admitJoin i f take

/-- The carrier of an answer: a new one is established with its offer as its budget. -/
def Path.answered (p : Path) (view : Bool) : Path :=
  if view then p else { p with dial := p.dial.setBudget p.offer }

/-- The carrier after a good answer (`viewBudget`: a view keeps the trunk's budget). -/
def Path.started (p : Path) (view : Bool) (cmtu : Nat) : Path :=
  if view then p else { p with phase := .up, dial := p.dial.setBudget cmtu }

/-- The carrier after a bad answer: a view's end leaves the trunk alone. -/
def Path.failed (p : Path) (view : Bool) : Path := if view then p else p.kill

/-- The dialer takes the oldest answer of a carrier. -/
def Net.accept (k : Cfg) (n : Net) (i : Nat) : Net :=
  match (n.paths i).down with
  | [] => n
  | r :: rest =>
    let p := { n.paths i with down := rest }.answered r.view
    match r.answer with
    | .openAck window =>
      match pktOpenAck p.kind (p.recvLimit p.dial) (pktOffer k.spec.maxPayload) n.dialMax window with
      | .error e => (n.fault (.answer e)).setPath i (p.failed r.view)
      | .ok (m, cmtu) => { n with dialMax := some m }.setPath i (p.started r.view cmtu)
    | .joinAck rxNext =>
      match pktJoinAck p.kind (p.recvLimit p.dial) rxNext with
      | .error e => (n.fault (.answer e)).setPath i (p.failed r.view)
      | .ok cmtu => n.setPath i (p.started r.view cmtu)

/-- What can happen. -/
inductive Ev
  | place (i : Nat) (t : First) (fromBudgets : Bool)
  | admitFirst (i : Nat) (take : Bool)
  | accept (i : Nat)
  /-- The attempt a first frame belongs to was abandoned. -/
  | dropUp (i : Nat)
  /-- The attempt an answer belongs to was abandoned. -/
  | dropDown (i : Nat)
  /-- A size refusal at the dialer. -/
  | shrinkDial (i : Nat) (max : Int)
  /-- A size refusal at the passive. -/
  | shrinkPass (i : Nat) (max : Int)
  | kill (i : Nat)

/-- The carrier after a size refusal at the dialer. -/
def Path.shrinkDial (p : Path) (max : Int) : Path :=
  match p.kind, p.phase, p.dial.shrink max with
  | .datagram, .up, some h => { p with dial := h }
  | .datagram, .up, none => p.kill
  | _, _, _ => p

/-- The carrier after a size refusal at the passive, which starts before the dialer does. -/
def Path.shrinkPass (p : Path) (max : Int) : Path :=
  match p.kind, p.phase, p.pass.shrink max with
  | .datagram, .up, some h | .datagram, .sent, some h => { p with pass := h }
  | .datagram, .up, none | .datagram, .sent, none => p.kill
  | _, _, _ => p

/-- One event. -/
def step (k : Cfg) (n : Net) : Ev → Net
  | .place i t fromBudgets => n.place k i t fromBudgets
  | .admitFirst i take => n.admitFirst k i take
  | .accept i => n.accept k i
  | .dropUp i => n.setPath i { n.paths i with up := (n.paths i).up.tail }
  | .dropDown i => n.setPath i { n.paths i with down := (n.paths i).down.tail }
  | .shrinkDial i max => n.setPath i ((n.paths i).shrinkDial max)
  | .shrinkPass i max => n.setPath i ((n.paths i).shrinkPass max)
  | .kill i => n.setPath i (n.paths i).kill

/-! ### What is offered, answered and agreed -/

/-- The offer in a first frame: none on a stream carrier, a frame budget on a datagram carrier, and
on a new one the carrier's own. -/
structure FirstFrame.Offer (k : Cfg) (p : Path) (f : FirstFrame) (w : Nat) : Prop where
  stream : p.kind = .stream → w = 0
  datagram : p.kind = .datagram → minFrameBudget ≤ w ∧ w ≤ maxDatagram
  new : p.kind = .datagram → f.view = false → w = p.offer
  isOpen : f.type = .openFrame → ∃ o, putOpen o = some f.payload ∧
    o = { k.spec.toOpen with window := UInt32.ofNat w, pmtu := o.pmtu } ∧
    minPacketPayload ≤ o.pmtu.toNat ∧ o.pmtu.toNat ≤ pktOffer k.spec.maxPayload
  isJoin : f.type = .joinFrame →
    f.payload = putJoin { k.spec.toJoin with rxNext := ofNat w }

/-- The passive's answer repeats its MaxPayload and the carrier's negotiated budget. -/
def Resp.Ok (made : Option Made) (p : Path) (r : Resp) : Prop :=
  match r.answer with
  | .openAck w => ∃ m, made = some m ∧
      w = packetWindow (uint16 m.maxPayload) (uint16 (p.recvLimit p.pass))
  | .joinAck rx => rx = ofNat (p.recvLimit p.pass)

/-- The budget the passive fixed for a new carrier whose first frame it answered. -/
structure Path.Answered (p : Path) : Prop where
  low : minFrameBudget ≤ p.pass.recvLimit
  offer : p.pass.recvLimit ≤ p.offer
  limit : p.pass.recvLimit ≤ p.pass.limit
  budget : p.pass.budget ≤ p.pass.recvLimit

/-- Both ends of a started carrier hold one budget, and send within it. -/
structure Path.Agreed (p : Path) : Prop where
  same : p.dial.recvLimit = p.pass.recvLimit
  low : minFrameBudget ≤ p.pass.recvLimit
  high : p.pass.recvLimit ≤ maxDatagram
  limit : p.pass.recvLimit ≤ p.pass.limit
  dial : p.dial.budget ≤ p.dial.recvLimit
  pass : p.pass.budget ≤ p.pass.recvLimit

/-- **The invariant of one carrier.** -/
structure Path.Ok (k : Cfg) (made : Option Made) (p : Path) : Prop where
  limits : p.kind = .datagram → (minFrameBudget ≤ p.offer ∧ p.offer ≤ maxDatagram) ∧
    (minFrameBudget ≤ p.pass.limit ∧ p.pass.limit ≤ maxDatagram)
  offers : ∀ f ∈ p.up, ∃ w, f.Offer k p w
  answers : ∀ r ∈ p.down, r.Ok made p
  idle : p.phase = .fresh ∨ p.phase = .dead → p.up = [] ∧ p.down = []
  /-- A new carrier has one first frame or its answer in transit. -/
  first : p.phase = .sent → p.up.length + p.down.length ≤ 1
  new : p.phase = .sent → (∀ f ∈ p.up, f.view = false) ∧ ∀ r ∈ p.down, r.view = false
  answered : p.phase = .sent → p.down ≠ [] → p.kind = .datagram → p.Answered
  views : p.phase = .up → (∀ f ∈ p.up, f.view = true) ∧ ∀ r ∈ p.down, r.view = true
  agreed : p.phase = .up → p.kind = .datagram → p.Agreed

/-- The passive session, against the carrier whose OPEN created it. -/
structure Made.Ok (k : Cfg) (m : Made) (p : Path) : Prop where
  low : (minPacketPayload : Int) ≤ m.maxPayload
  high : m.maxPayload ≤ pktOffer k.spec.maxPayload
  mode : m.first.mode = k.spec.mode
  fits : m.first.pmtu.toNat + dgramOverhead ≤ m.first.window.toNat →
    m.maxPayload + dgramOverhead ≤ p.recvLimit p.pass
  /-- The carrier's negotiated budget is fixed: no first frame of a new carrier is on its way. -/
  used : p.phase ≠ .fresh
  views : ∀ f ∈ p.up, f.view = true

/-- **The invariant of the negotiation.** -/
structure Net.Inv (k : Cfg) (n : Net) : Prop where
  paths : ∀ i, (n.paths i).Ok k n.made
  made : ∀ m, n.made = some m → m.Ok k (n.paths m.carrier)
  dialMax : ∀ d, n.dialMax = some d → ∃ m, n.made = some m ∧ m.maxPayload = d
  faults : n.faults = []

/-! ### Carriers, event by event -/

variable {f : FirstFrame} {rest : List FirstFrame} {w : Nat}

section PathSteps

variable {k : Cfg} {made : Option Made} {p : Path}

/-- An invariant of a carrier without a session is one with a session: no answer is in transit. -/
lemma Path.Ok.create (h : p.Ok k none) (m : Made) : p.Ok k (some m) :=
  { h with
    answers := by
      intro r hr
      have hok := h.answers r hr
      unfold Resp.Ok at hok ⊢
      cases hans : r.answer with
      | openAck w =>
        rw [hans] at hok
        obtain ⟨m', hm', -⟩ := hok
        cases hm'
      | joinAck rx =>
        rw [hans] at hok
        exact hok }

lemma Path.Ok.kill (h : p.Ok k made) : p.kill.Ok k made where
  limits := h.limits
  offers := by simp [Path.kill]
  answers := by simp [Path.kill]
  idle := by simp [Path.kill]
  first := by simp [Path.kill]
  new := by simp [Path.kill]
  answered := by simp [Path.kill]
  views := by simp [Path.kill]
  agreed := by simp [Path.kill]

/-- Frames and answers leave a carrier. -/
lemma Path.Ok.shorter (h : p.Ok k made) {u : List FirstFrame} {d : List Resp}
    (hu : u <:+ p.up) (hd : d <:+ p.down) : { p with up := u, down := d }.Ok k made where
  limits := h.limits
  offers f hf := by
    obtain ⟨w, hw⟩ := h.offers f (hu.subset hf)
    exact ⟨w, { hw with }⟩
  answers r hr := h.answers r (hd.subset hr)
  idle hp := by
    obtain ⟨h1, h2⟩ := h.idle hp
    rw [h1] at hu
    rw [h2] at hd
    exact ⟨suffix_nil.mp hu, suffix_nil.mp hd⟩
  first hp := by
    have h1 := h.first hp
    have h2 := hu.length_le
    have h3 := hd.length_le
    simp only
    omega
  new hp := ⟨fun f hf => (h.new hp).1 f (hu.subset hf), fun r hr => (h.new hp).2 r (hd.subset hr)⟩
  answered hp hne hk := by
    have hne' : p.down ≠ [] := by
      rintro h0
      rw [h0] at hd
      exact hne (suffix_nil.mp hd)
    exact { h.answered hp hne' hk with }
  views hp :=
    ⟨fun f hf => (h.views hp).1 f (hu.subset hf), fun r hr => (h.views hp).2 r (hd.subset hr)⟩
  agreed hp hk := { h.agreed hp hk with }

/-- The offer patched into a first frame. -/
lemma offer_written (hs : k.spec.Valid) {t : First} {b : Bytes} (hb : firstPayload k t = some b)
    (fromBudgets : Bool) (view : Bool) (hk : p.kind = .datagram)
    (hw : minFrameBudget ≤ w ∧ w ≤ maxDatagram) (hnew : view = false → w = p.offer) :
    FirstFrame.Offer k p ⟨view, t, writeOffer t b w fromBudgets⟩ w where
  stream h := by rw [hk] at h; cases h
  datagram _ := hw
  new _ := hnew
  isOpen ht := by
    simp only at ht
    subst ht
    have hpm : k.spec.toOpen.pmtu.toNat = pktOffer k.spec.maxPayload := hs.pmtu
    have hr := offeredPmtu_range w fromBudgets
      (show minPacketPayload ≤ k.spec.toOpen.pmtu.toNat by rw [hpm]; exact hs.offer.1)
    rw [hpm] at hr
    exact ⟨_, writeOffer_open hb w fromBudgets, rfl, hr⟩
  isJoin ht := by
    simp only at ht
    subst ht
    cases hb
    exact writeOffer_join k.spec.toJoin w fromBudgets

/-- A first frame without an offer, as a stream carrier has it. -/
lemma offer_plain (hs : k.spec.Valid) {t : First} {b : Bytes} (hb : firstPayload k t = some b)
    (view : Bool) (hk : p.kind = .stream) : FirstFrame.Offer k p ⟨view, t, b⟩ 0 where
  stream _ := rfl
  datagram h := by rw [hk] at h; cases h
  new h := by rw [hk] at h; cases h
  isOpen ht := by
    simp only at ht
    subst ht
    have hpm : k.spec.toOpen.pmtu.toNat = pktOffer k.spec.maxPayload := hs.pmtu
    exact ⟨k.spec.toOpen, hb, rfl, by rw [hpm]; exact hs.offer.1, by rw [hpm]⟩
  isJoin ht := by
    simp only at ht
    subst ht
    cases hb
    rfl

/-- The offer in a frame does not depend on the phase or the queues. -/
lemma FirstFrame.Offer.of_eq {p' : Path} (h : f.Offer k p w) (hk : p'.kind = p.kind)
    (ho : p'.offer = p.offer) : f.Offer k p' w :=
  ⟨fun h' => h.stream (hk ▸ h'), fun h' => h.datagram (hk ▸ h'),
    fun h' hv => (h.new (hk ▸ h') hv).trans ho.symm, h.isOpen, h.isJoin⟩

/-- The first frame of a new carrier. -/
lemma Path.Ok.placeNew (h : p.Ok k made) (hp : p.phase = .fresh) (hf : f.Offer k p w)
    (hv : f.view = false) : { p with phase := .sent, up := p.up ++ [f] }.Ok k made := by
  obtain ⟨hu, hd⟩ := h.idle (Or.inl hp)
  rw [hu, nil_append]
  exact
    { limits := h.limits
      offers := by
        intro g hg
        rw [mem_singleton.mp hg]
        exact ⟨w, hf.of_eq rfl rfl⟩
      answers := by simp [hd]
      idle := by simp
      first := by simp [hd]
      new := by simp [hd, hv]
      answered := by simp [hd]
      views := by simp
      agreed := by simp }

/-- The first frame of a view. -/
lemma Path.Ok.placeView (h : p.Ok k made) (hp : p.phase = .up) (hf : f.Offer k p w)
    (hv : f.view = true) : { p with up := p.up ++ [f] }.Ok k made where
  limits := h.limits
  offers g hg := by
    rcases mem_append.mp hg with hg | hg
    · obtain ⟨w', hw'⟩ := h.offers g hg
      exact ⟨w', hw'.of_eq rfl rfl⟩
    · rw [mem_singleton.mp hg]
      exact ⟨w, hf.of_eq rfl rfl⟩
  answers := h.answers
  idle := by simp [hp]
  first := by simp [hp]
  new := by simp [hp]
  answered := by simp [hp]
  views _ := by
    refine ⟨fun g hg => ?_, (h.views hp).2⟩
    rcases mem_append.mp hg with hg | hg
    · exact (h.views hp).1 g hg
    · rw [mem_singleton.mp hg]
      exact hv
  agreed _ hk := { h.agreed hp hk with }

/-- **Placing keeps the invariant**, if the trunk of a view has the smallest budget left. -/
lemma Path.Ok.place (hs : k.spec.Valid) (h : p.Ok k made) (t : First) (fromBudgets : Bool)
    (hroom : p.phase = .up → p.kind = .datagram → minFrameBudget ≤ p.dial.budget) :
    (p.place k t fromBudgets).Ok k made := by
  unfold Path.place
  split
  · exact h
  rename_i b hb
  split
  next hp hk => exact h.placeNew hp (offer_plain hs hb false hk) rfl
  next hp hk =>
    dsimp only [buildH1]
    split
    · exact h.kill
    · exact h.placeNew hp
        (offer_written hs hb fromBudgets false hk (h.limits hk).1 fun _ => rfl) rfl
  next hp hk => exact h.placeView hp (offer_plain hs hb true hk) rfl
  next hp hk =>
    split_ifs with hbig
    · exact h
    have ha := h.agreed hp hk
    have hw : minFrameBudget ≤ p.dial.budget ∧ p.dial.budget ≤ maxDatagram :=
      ⟨hroom hp hk, ha.dial.trans (ha.same ▸ ha.high)⟩
    exact h.placeView hp (offer_written hs hb fromBudgets true hk hw (by simp)) rfl
  · exact h
  · exact h

/-- A path with something on its way has sent its first frame. -/
lemma Path.Ok.busy (h : p.Ok k made) (hne : p.up ≠ [] ∨ p.down ≠ []) :
    p.phase = .sent ∨ p.phase = .up := by
  have hidle : ¬ (p.phase = .fresh ∨ p.phase = .dead) := by
    intro hp
    rw [(h.idle hp).1, (h.idle hp).2] at hne
    simp at hne
  cases hp : p.phase with
  | fresh => exact absurd (Or.inl hp) hidle
  | dead => exact absurd (Or.inr hp) hidle
  | up => exact .inr rfl
  | sent => exact .inl rfl

/-- The carrier of the frame the passive takes is new exactly when the frame is not a view's. -/
lemma Path.Ok.taken (h : p.Ok k made) (hup : p.up = f :: rest) :
    (f.view = false ∧ p.phase = .sent ∧ rest = [] ∧ p.down = []) ∨
      (f.view = true ∧ p.phase = .up) := by
  have hmem : f ∈ p.up := by rw [hup]; exact mem_cons_self ..
  rcases h.busy (.inl (ne_nil_of_mem hmem)) with hp | hp
  · have hlen := h.first hp
    rw [hup, length_cons] at hlen
    refine Or.inl ⟨(h.new hp).1 f hmem, hp, ?_, ?_⟩
    · exact length_eq_zero_iff.mp (by omega)
    · exact length_eq_zero_iff.mp (by omega)
  · exact Or.inr ⟨(h.views hp).1 f hmem, hp⟩

lemma Path.Ok.view_up (h : p.Ok k made) (hup : p.up = f :: rest) (hv : f.view = true) :
    p.phase = .up := by
  rcases h.taken hup with ⟨hv', -⟩ | ⟨-, hp⟩
  · rw [hv] at hv'; cases hv'
  · exact hp

/-- **The admission keeps the invariant of the carrier**: a new carrier gets a budget within its
offer and its transport, a view none; the answer repeats what the carrier then has. -/
lemma Path.Ok.admitted (h : p.Ok k made) (hup : p.up = f :: rest) {cmtu : Nat}
    (hc : p.kind = .datagram → f.view = false →
      minFrameBudget ≤ cmtu ∧ cmtu ≤ p.offer ∧ cmtu ≤ p.pass.limit) :
    ({ p with up := rest }.setPass f.view cmtu).Ok k made ∧
      ∀ r : Resp, r.view = f.view → r.Ok made ({ p with up := rest }.setPass f.view cmtu) →
        { { p with up := rest }.setPass f.view cmtu with
          down := ({ p with up := rest }.setPass f.view cmtu).down ++ [r] }.Ok k made := by
  rcases h.taken hup with ⟨hv, hp, hrest, hd⟩ | ⟨hv, hp⟩
  · -- A new carrier: its one first frame is gone, its answer is the only thing in transit.
    have hset : { p with up := rest }.setPass f.view cmtu =
        { p with up := [], pass := p.pass.setBudget cmtu } := by
      rw [setPass, if_neg (by simp [hv]), hrest]
    rw [hset]
    refine ⟨?_, fun r hr hok => ?_⟩
    · exact
        { limits := h.limits, offers := by simp, answers := by simp [hd], idle := by simp [hp],
          first := by simp [hd], new := by simp [hd], answered := by simp [hd],
          views := by simp [hp], agreed := by simp [hp] }
    exact
      { limits := h.limits
        offers := by simp
        answers := by
          intro g hg
          simp only [hd, nil_append, mem_singleton] at hg
          subst hg
          exact hok
        idle := by simp [hp]
        first := by simp [hd]
        new := by simp [hd, hr, hv]
        answered := fun _ _ hk => ⟨(hc hk hv).1, (hc hk hv).2.1, (hc hk hv).2.2, le_rfl⟩
        views := by simp [hp]
        agreed := by simp [hp] }
  -- A view: the trunk keeps its budget.
  have hset : { p with up := rest }.setPass f.view cmtu = { p with up := rest } := by
    rw [setPass, if_pos hv]
  have hq : { p with up := rest }.Ok k made :=
    h.shorter (u := rest) (d := p.down) (by rw [hup]; exact suffix_cons ..)
      (suffix_refl _)
  rw [hset]
  refine ⟨hq, fun r hr hok => ?_⟩
  exact
    { limits := hq.limits
      offers := fun g hg => by
        obtain ⟨w, hw⟩ := hq.offers g hg
        exact ⟨w, hw.of_eq rfl rfl⟩
      answers := by
        intro g hg
        rcases mem_append.mp hg with hg | hg
        · exact hq.answers g hg
        · rw [mem_singleton.mp hg]
          exact hok
      idle := by simp [hp]
      first := by simp [hp]
      new := by simp [hp]
      answered := by simp [hp]
      views := by
        refine fun _ => ⟨(hq.views hp).1, fun g hg => ?_⟩
        rcases mem_append.mp hg with hg | hg
        · exact (hq.views hp).2 g hg
        · rw [mem_singleton.mp hg, hr, hv]
      agreed := fun _ hk => { h.agreed hp hk with } }

/-- A size refusal that leaves a half alive lowers its budget, at most. -/
lemma DgHalf.shrink_some {h h' : DgHalf} {max : Int} (hs : h.shrink max = some h') :
    h'.limit = h.limit ∧ h'.recvLimit = h.recvLimit ∧ h'.budget ≤ h.budget := by
  unfold DgHalf.shrink at hs
  dsimp only at hs
  split_ifs at hs with h0 h1 h2 h2
  · cases hs
    exact ⟨rfl, rfl, le_rfl⟩
  · cases hs
    exact ⟨rfl, rfl, by simp only; omega⟩
  · cases hs
    exact ⟨rfl, rfl, by simp only; omega⟩

section

variable (h : p.Ok k made)
include h

lemma Path.Ok.shrinkDial (max : Int) : (p.shrinkDial max).Ok k made := by
  unfold Path.shrinkDial
  split
  next d hk hp hs =>
    obtain ⟨hl, hr, hb⟩ := DgHalf.shrink_some hs
    have ho : { p with dial := d }.offer = p.offer := by simp only [offer, hl]
    exact
      { limits := by rw [ho]; exact h.limits
        offers := fun f hf => by
          obtain ⟨w, hw⟩ := h.offers f hf
          exact ⟨w, hw.of_eq rfl ho⟩
        answers := h.answers, idle := h.idle, first := h.first, new := h.new,
        answered := by simp [hp]
        views := h.views
        agreed := fun _ _ => ⟨hr.trans (h.agreed hp hk).same, (h.agreed hp hk).low,
          (h.agreed hp hk).high, (h.agreed hp hk).limit, by
            have := (h.agreed hp hk).dial
            simp only [hr]
            omega, (h.agreed hp hk).pass⟩ }
  · exact h.kill
  · exact h

/-- The passive's budget is lowered. -/
lemma Path.Ok.lowerPass {max : Int} {d : DgHalf} (hs : p.pass.shrink max = some d) :
    { p with pass := d }.Ok k made := by
  obtain ⟨hl, hr, hb⟩ := DgHalf.shrink_some hs
  have hrecv : { p with pass := d }.recvLimit d = p.recvLimit p.pass := by
    simp only [recvLimit, hr]
  exact
    { limits := fun hk => by simp only [hl]; exact h.limits hk
      offers := fun f hf => by
        obtain ⟨w, hw⟩ := h.offers f hf
        exact ⟨w, hw.of_eq rfl rfl⟩
      answers := fun r hr' => by
        have := h.answers r hr'
        unfold Resp.Ok at this ⊢
        simp only [hrecv]
        exact this
      idle := h.idle, first := h.first, new := h.new
      answered := fun hp hne hk => by
        have ha := h.answered hp hne hk
        exact ⟨hr ▸ ha.low, hr ▸ ha.offer, by simp only [hl, hr]; exact ha.limit,
          by simp only [hr]; exact hb.trans ha.budget⟩
      views := h.views
      agreed := fun hp hk => by
        have ha := h.agreed hp hk
        exact ⟨ha.same.trans hr.symm, hr ▸ ha.low, hr ▸ ha.high,
          by simp only [hl, hr]; exact ha.limit, ha.dial,
          by simp only [hr]; exact hb.trans ha.pass⟩ }

lemma Path.Ok.shrinkPass (max : Int) : (p.shrinkPass max).Ok k made := by
  unfold Path.shrinkPass
  split
  · exact h.lowerPass (by assumption)
  · exact h.lowerPass (by assumption)
  · exact h.kill
  · exact h.kill
  · exact h

variable {rest : List Resp} {r : Resp}

/-- The carrier of the answer the dialer takes is new exactly when the answer is not a view's. -/
lemma Path.Ok.takenDown (hdown : p.down = r :: rest) :
    (r.view = false ∧ p.phase = .sent ∧ rest = [] ∧ p.up = []) ∨
      (r.view = true ∧ p.phase = .up) := by
  have hmem : r ∈ p.down := by rw [hdown]; exact mem_cons_self ..
  rcases h.busy (.inr (ne_nil_of_mem hmem)) with hp | hp
  · have hlen := h.first hp
    rw [hdown, length_cons] at hlen
    refine Or.inl ⟨(h.new hp).2 r hmem, hp, ?_, ?_⟩
    · exact length_eq_zero_iff.mp (by omega)
    · exact length_eq_zero_iff.mp (by omega)
  · exact Or.inr ⟨(h.views hp).2 r hmem, hp⟩

/-- The budget in an answer passes the dialer's check. -/
lemma Path.Ok.cmtuOK (hdown : p.down = r :: rest) :
    pktCmtuOK p.kind (({ p with down := rest }.answered r.view).recvLimit
      ({ p with down := rest }.answered r.view).dial) (p.recvLimit p.pass) = true ∧
      p.recvLimit p.pass < 65536 := by
  cases hk : p.kind with
  | stream => simp [pktCmtuOK, recvLimit, hk]
  | datagram =>
    have hrecv : p.recvLimit p.pass = p.pass.recvLimit := by simp only [recvLimit, hk]
    rw [hrecv]
    have hmax : maxDatagram < 65536 := by decide
    rcases h.takenDown hdown with ⟨hv, hp, -, -⟩ | ⟨hv, hp⟩
    · have ha := h.answered hp (by simp [hdown]) hk
      have ho := (h.limits hk).1.2
      simp only [answered, hv, recvLimit, DgHalf.setBudget, pktCmtuOK]
      refine ⟨?_, by have := ha.offer; omega⟩
      simp only [Bool.and_eq_true, decide_eq_true_eq]
      exact ⟨ha.low, ha.offer⟩
    have ha := h.agreed hp hk
    simp only [answered, hv, recvLimit, pktCmtuOK, if_true]
    refine ⟨?_, by have := ha.high; omega⟩
    simp only [Bool.and_eq_true, decide_eq_true_eq]
    exact ⟨ha.low, ha.same.ge⟩

/-- **A good answer starts the carrier** with the budget the passive has. -/
lemma Path.Ok.started (hdown : p.down = r :: rest) :
    (({ p with down := rest }.answered r.view).started r.view (p.recvLimit p.pass)).Ok k made := by
  rcases h.takenDown hdown with ⟨hv, hp, hrest, hup⟩ | ⟨hv, hp⟩
  · have hset : ({ p with down := rest }.answered r.view).started r.view (p.recvLimit p.pass) =
        { p with phase := .up, dial := p.dial.setBudget (p.recvLimit p.pass), up := [],
                 down := [] } := by
      simp only [answered, started, hv, hrest, DgHalf.setBudget, hup]
      rfl
    rw [hset]
    exact
      { limits := h.limits, offers := by simp, answers := by simp, idle := by simp,
        first := by simp, new := by simp, answered := by simp, views := by simp
        agreed := fun _ hk => by
          have ha := h.answered hp (by simp [hdown]) hk
          have hrecv : p.recvLimit p.pass = p.pass.recvLimit := by
            simp only [recvLimit, show p.kind = .datagram from hk]
          exact ⟨hrecv, ha.low, ha.offer.trans (h.limits hk).1.2, ha.limit, le_rfl, ha.budget⟩ }
  have hset : ({ p with down := rest }.answered r.view).started r.view (p.recvLimit p.pass) =
      { p with down := rest } := by
    rw [Path.answered, if_pos hv, Path.started, if_pos hv]
  rw [hset]
  exact h.shorter (u := p.up) (d := rest) (suffix_refl _)
    (by rw [hdown]; exact suffix_cons ..)

end

end PathSteps

/-! ### The admission of an honest first frame -/

lemma toNat_uint16 {x : Int} (h0 : 0 ≤ x) (h1 : x < 65536) : (uint16 x).toNat = x.toNat := by
  rw [uint16, UInt16.toNat_ofNat']
  omega

variable {p : Path} {k : Cfg}

/-- An honest OPEN is admitted, unless it has more metadata than this passive takes. -/
lemma FirstFrame.Offer.parsed (hs : k.spec.Valid) (h : f.Offer k p w)
    (ht : f.type = .openFrame) (hmeta : metaTooLarge k f.payload = false) :
    ∃ o, parseOpen k.maxMeta f.payload = .ok o ∧ openBadRequest f.payload (.ok o) p.kind = none ∧
      o.kind = kindDatagram ∧ o.mode = k.spec.mode ∧ o.window.toNat = w ∧
      minPacketPayload ≤ o.pmtu.toNat ∧ o.pmtu.toNat ≤ pktOffer k.spec.maxPayload := by
  obtain ⟨o, hput, heq, hlow, hhigh⟩ := h.isOpen ht
  have hpm := And.intro hlow (hhigh.trans hs.offer.2)
  have hw : if p.kind = .datagram then minFrameBudget ≤ w ∧ w ≤ maxDatagram else w = 0 := by
    cases hk : p.kind with
    | stream => exact h.stream hk
    | datagram => exact h.datagram hk
  have hw32 : (UInt32.ofNat w).toNat = w := by
    rw [UInt32.toNat_ofNat']
    unfold maxDatagram at hw
    split_ifs at hw <;> omega
  have hlen : (k.spec.metadata.length : Int) ≤ k.maxMeta := by
    have hparse := (offered_accepted hs hput heq hpm hw (Int.ofNat_le.mpr hs.metadata)).1
    have hmd : o.metadata = k.spec.metadata := by rw [heq]; rfl
    rw [metaTooLarge, hparse] at hmeta
    simpa [hmd] using hmeta
  obtain ⟨hparse, hbad⟩ := offered_accepted hs hput heq hpm hw hlen
  exact ⟨o, hparse, hbad, by rw [heq]; rfl, by rw [heq]; rfl, by rw [heq]; exact hw32, hlow, hhigh⟩

/-- An honest JOIN is parsed. -/
lemma FirstFrame.Offer.parsedJoin (hs : k.spec.Valid) (h : f.Offer k p w)
    (ht : f.type = .joinFrame) :
    parseJoin f.payload = .ok { k.spec.toJoin with rxNext := ofNat w } := by
  have hmode : ¬ (k.spec.mode < 1 ∨ maxMode < k.spec.mode) := by
    rintro (hm | hm)
    · exact absurd hs.mode.1 (UInt8.not_le.mpr hm)
    · exact absurd hs.mode.2 (UInt8.not_le.mpr hm)
  obtain ⟨b, hb, hparse⟩ := join_codec.parse_put
    { k.spec.toJoin with rxNext := ofNat w } ⟨hs.sid, hmode⟩
  cases hb
  rw [h.isJoin ht]
  exact hparse

/-- The limit the admission bounds a datagram carrier's budget by. -/
lemma Path.Ok.admitLimit {made : Option Made} (h : p.Ok k made)
    (hk : p.kind = .datagram) (hview : f.view = true → p.phase = .up)
    (hroom : f.view = true → minFrameBudget ≤ p.pass.budget) :
    minFrameBudget ≤ p.admitLimit f.view ∧ p.admitLimit f.view ≤ p.pass.limit ∧
      (f.view = true → p.admitLimit f.view ≤ p.pass.recvLimit) := by
  simp only [Path.admitLimit, hk]
  split_ifs with hv
  · have ha := h.agreed (hview hv) hk
    exact ⟨hroom hv, ha.pass.trans ha.limit, fun _ => ha.pass⟩
  · exact ⟨(h.limits hk).2.1, le_rfl, fun hv' => absurd hv' hv⟩

/-! ### The negotiation, event by event -/

variable {m : Made}

/-- The passive session's facts depend on its carrier's negotiated budget only. -/
lemma Made.Ok.of_path {p p' : Path} (h : m.Ok k p)
    (hr : p'.recvLimit p'.pass = p.recvLimit p.pass) (hph : p'.phase ≠ .fresh)
    (hup : ∀ f ∈ p'.up, f ∈ p.up ∨ f.view = true) : m.Ok k p' where
  low := h.low
  high := h.high
  mode := h.mode
  fits := by rw [hr]; exact h.fits
  used := hph
  views f hf := (hup f hf).elim (h.views f) id

/-- A view is placed on the carrier that created the session. -/
lemma Made.Ok.placed (h : m.Ok k p) (hp : p.phase ≠ .fresh)
    (hv : f.view = true) : m.Ok k { p with up := p.up ++ [f] } := by
  refine h.of_path rfl hp fun g hg => ?_
  rcases mem_append.mp hg with hg | hg
  · exact Or.inl hg
  · rw [mem_singleton.mp hg]
    exact Or.inr hv

variable {i : Nat} {n : Net}

/-- One carrier changes. -/
lemma Net.Inv.setPath (h : n.Inv k) (hp : p.Ok k n.made)
    (hm : ∀ m, n.made = some m → m.Ok k (n.paths i) → m.Ok k p) :
    (n.setPath i p).Inv k where
  paths j := by
    by_cases hj : j = i
    · subst hj
      simpa [Net.setPath] using hp
    · simpa [Net.setPath, Function.update_of_ne hj] using h.paths j
  made m hmade := by
    have hok := h.made m hmade
    by_cases hj : m.carrier = i
    · subst hj
      simpa [Net.setPath] using hm m hmade hok
    · simpa [Net.setPath, Function.update_of_ne hj] using hok
  dialMax := h.dialMax
  faults := h.faults

/-- The session is created on carrier `i`. -/
lemma Net.Inv.create (h : n.Inv k) (hnone : n.made = none)
    (hp : p.Ok k (some m)) (hm : m.Ok k p) :
    (Net.setPath { n with made := some m } m.carrier p).Inv k where
  paths j := by
    by_cases hj : j = m.carrier
    · subst hj
      simpa [Net.setPath] using hp
    · have hok := h.paths j
      rw [hnone] at hok
      simpa [Net.setPath, Function.update_of_ne hj] using hok.create m
  made m' hm' := by
    cases hm'
    simpa [Net.setPath] using hm
  dialMax d hd := by
    obtain ⟨m', hm', -⟩ := h.dialMax d hd
    rw [hnone] at hm'
    cases hm'
  faults := h.faults

/-- **The condition on a step**: a view is offered, and admitted, while the trunk's send budget at
that end is at least the smallest frame budget. -/
def Roomy (n : Net) : Ev → Prop
  | .place i _ _ => (n.paths i).phase = .up → (n.paths i).kind = .datagram →
      minFrameBudget ≤ (n.paths i).dial.budget
  | .admitFirst i _ => ∀ f ∈ (n.paths i).up.head?, f.view = true → (n.paths i).kind = .datagram →
      minFrameBudget ≤ (n.paths i).pass.budget
  | _ => True

section Steps

variable {k : Cfg} {n : Net}

lemma Net.Inv.place (hs : k.spec.Valid) (h : n.Inv k) (i : Nat) (t : First) (fromBudgets : Bool)
    (hroom : Roomy n (.place i t fromBudgets)) : (n.place k i t fromBudgets).Inv k := by
  unfold Net.place
  split_ifs with hg
  · refine h.setPath ((h.paths i).place hs t fromBudgets hroom) fun m hm hok => ?_
    -- The creating carrier is in use: only views are placed on it.
    have hnf := hok.used
    unfold Path.place
    split
    · exact hok
    split
    · exact absurd (by assumption) hnf
    · exact absurd (by assumption) hnf
    · exact hok.placed hnf rfl
    · split_ifs
      · exact hok
      · exact hok.placed hnf rfl
    · exact hok
    · exact hok
  · exact h

/-- The admission takes a frame of the carrier that created the session: it is a view's. -/
lemma Made.Ok.admitted (hok : m.Ok k p) (hup : p.up = f :: rest) (cmtu : Nat)
    (d : List Resp) : m.Ok k { { p with up := rest }.setPass f.view cmtu with down := d } := by
  have hv : f.view = true := hok.views f (by rw [hup]; exact mem_cons_self ..)
  rw [setPass, if_pos hv]
  refine hok.of_path rfl hok.used fun g hg => Or.inl ?_
  rw [hup]
  exact mem_cons_of_mem _ hg

/-- What the admission accepts of an honest OPEN. -/
lemma accepted_spec (h : p.Ok k n.made) (hown : (minPacketPayload : Int) ≤ k.ownMax)
    (hup : p.up = f :: rest) {o : Open} (hoff : f.Offer k p o.window.toNat)
    (hlow : minPacketPayload ≤ o.pmtu.toNat)
    (hroom : f.view = true → p.kind = .datagram → minFrameBudget ≤ p.pass.budget) :
    let acc := packetAccept o (p.admitLimit f.view) k.ownMax
    ((minPacketPayload : Int) ≤ acc.2 ∧ acc.2 ≤ o.pmtu.toNat) ∧
      (p.kind = .datagram → f.view = false →
        minFrameBudget ≤ acc.1.toNat ∧ acc.1.toNat ≤ p.offer ∧ acc.1.toNat ≤ p.pass.limit) ∧
      (o.pmtu.toNat + dgramOverhead ≤ o.window.toNat → acc.2 + dgramOverhead ≤
        ({ p with up := rest }.setPass f.view acc.1.toNat).recvLimit
          ({ p with up := rest }.setPass f.view acc.1.toNat).pass) := by
  intro acc
  have hphase := h.view_up hup
  have hpos : 0 < dgramOverhead := by decide
  cases hk : p.kind with
  | stream =>
    have hw := hoff.stream hk
    have hlim : p.admitLimit f.view = 0 := by simp only [admitLimit, hk]
    obtain ⟨h1, h2, -⟩ := packetAccept_spec (o := o) (p.admitLimit f.view) hlow hown
      (Or.inl (by rw [hlim]; rfl))
    exact ⟨⟨h1, h2⟩, by simp, fun hf => by omega⟩
  | datagram =>
    have hw := hoff.datagram hk
    obtain ⟨hl1, hl2, hl3⟩ := h.admitLimit hk hphase fun hv => hroom hv hk
    have hmin : 0 < minFrameBudget := by decide
    obtain ⟨h1, h2, h3⟩ := packetAccept_spec (o := o) (p.admitLimit f.view) hlow hown
      (Or.inr ⟨by exact_mod_cast hl1, hw.1⟩)
    obtain ⟨hcm, hfit⟩ := h3 (by omega)
    refine ⟨⟨h1, h2⟩, fun _ hv => ?_, fun hf => ?_⟩
    · have ho := hoff.new hk hv
      simp only [acc]
      omega
    have hle := hfit hf
    cases hv : f.view with
    | false =>
      simp only [setPass, recvLimit, DgHalf.setBudget, acc]
      rw [hv] at hle hcm
      simp only [Bool.false_eq_true, if_false]
      omega
    | true =>
      have := hl3 hv
      simp only [setPass, recvLimit, acc, if_true]
      omega

variable {take : Bool}

/-- An honest first frame of a carrier, and what is known where the passive takes it. -/
lemma Net.Inv.head (h : n.Inv k) (hup : (n.paths i).up = f :: rest)
    (hroom : Roomy n (.admitFirst i take)) :
    (∃ w, f.Offer k (n.paths i) w) ∧ (f.view = true → (n.paths i).kind = .datagram →
      minFrameBudget ≤ (n.paths i).pass.budget) := by
  refine ⟨(h.paths i).offers f (by rw [hup]; exact mem_cons_self ..), ?_⟩
  exact hroom f (by rw [hup]; rfl)

/-- The frame is taken and nothing else happens. -/
lemma Net.Inv.popped (h : n.Inv k) (i : Nat) {u : List FirstFrame} {d : List Resp}
    (hu : u <:+ (n.paths i).up) (hd : d <:+ (n.paths i).down) :
    (n.setPath i { n.paths i with up := u, down := d }).Inv k :=
  h.setPath ((h.paths i).shorter hu hd) fun _ _ hok =>
    hok.of_path rfl hok.used fun _ hf => Or.inl (hu.subset hf)

lemma Net.setPath_setPath (n : Net) (i : Nat) (p q : Path) :
    (n.setPath i p).setPath i q = n.setPath i q := by
  simp [Net.setPath]

/-- **The admission of an OPEN** rejects nothing and keeps the invariant. -/
lemma Net.Inv.admitOpen (hs : k.spec.Valid) (hown : (minPacketPayload : Int) ≤ k.ownMax)
    (h : n.Inv k) (hup : (n.paths i).up = f :: rest) (ht : f.type = .openFrame)
    (hroom : Roomy n (.admitFirst i take)) :
    ((n.setPath i { n.paths i with up := rest }).admitOpen k i f take).Inv k := by
  obtain ⟨⟨w, hoff⟩, hbud⟩ := h.head hup hroom
  have hrest : rest <:+ (n.paths i).up := by rw [hup]; exact suffix_cons ..
  have hpath : (n.setPath i { n.paths i with up := rest }).paths i =
      { n.paths i with up := rest } := by simp [Net.setPath]
  unfold Net.admitOpen
  dsimp only
  rw [hpath]
  by_cases hmeta : metaTooLarge k f.payload = true
  · rw [if_pos hmeta]
    exact h.popped i hrest (suffix_refl _)
  rw [if_neg hmeta]
  obtain ⟨o, hparse, hbad, hkind, hmode, hwin, hlow, hhigh⟩ :=
    hoff.parsed hs ht (Bool.eq_false_iff.mpr hmeta)
  rw [← hwin] at hoff
  obtain ⟨⟨hacc1, hacc2⟩, hc, hfit⟩ := accepted_spec (h.paths i) hown hup hoff hlow hbud
  have hadm : ({ n.paths i with up := rest } : Path).admitLimit f.view =
      (n.paths i).admitLimit f.view := rfl
  rw [hparse, hbad, hadm]
  dsimp only
  rw [if_neg (not_not.mpr hkind)]
  obtain ⟨hok, hans⟩ := (h.paths i).admitted hup hc
  by_cases htake : take = true
  · rw [if_pos htake]
    cases hmade : n.made with
    | none =>
      -- This OPEN creates the session.
      obtain ⟨-, hans'⟩ := ((hmade ▸ h.paths i).create ⟨_, i, o⟩).admitted hup hc
      have hgoal := h.create hmade (m := ⟨_, i, o⟩) (hans' ⟨f.view, .openAck _⟩ rfl
        ⟨_, rfl, rfl⟩)
        ⟨hacc1, hacc2.trans (by exact_mod_cast hhigh), hmode, hfit, ?_, ?_⟩
      · simpa [Net.setPath, hmade] using hgoal
      · rcases (h.paths i).taken hup with ⟨hv, hp, -⟩ | ⟨hv, hp⟩ <;>
          simp [setPass, hv, hp]
      intro g hg
      rcases (h.paths i).taken hup with ⟨hv, -, hr, -⟩ | ⟨hv, hp⟩
      · simp [setPass, hv, hr] at hg
      · refine ((h.paths i).views hp).1 g (hrest.subset ?_)
        simpa [setPass, hv] using hg
    | some m =>
      have hgoal := h.setPath (i := i) (hans ⟨f.view, .openAck _⟩ rfl ⟨m, hmade, rfl⟩)
        fun m' _ hm' => hm'.admitted hup _ _
      have hsame : ({ n with made := some m } : Net) = n := by rw [← hmade]
      simpa [Net.setPath, hmade, hsame] using hgoal
  · rw [if_neg htake, Net.setPath_setPath]
    exact h.setPath hok fun m _ hm => hm.admitted hup _ _

/-- The budget of an honest JOIN is accepted, within the carrier's offer and its transport. -/
lemma joinBudget_spec {made : Option Made} (h : p.Ok k made) (hup : p.up = f :: rest)
    (hoff : f.Offer k p w)
    (hroom : f.view = true → p.kind = .datagram → minFrameBudget ≤ p.pass.budget) :
    ∃ cmtu, pktJoinBudget true p.kind (joinOffer (ofNat w) p.kind (p.admitLimit f.view))
        (transportLimit (match p.kind with
          | .stream => 0
          | .datagram => p.pass.limit)) = some cmtu ∧
      (p.kind = .datagram → f.view = false →
        minFrameBudget ≤ cmtu ∧ cmtu ≤ p.offer ∧ cmtu ≤ p.pass.limit) := by
  have hphase := h.view_up hup
  cases hk : p.kind with
  | stream =>
    have hw := hoff.stream hk
    subst hw
    exact ⟨0, by simp [pktJoinBudget, joinOffer], by simp⟩
  | datagram =>
    have hw := hoff.datagram hk
    obtain ⟨hl1, hl2, -⟩ := h.admitLimit hk hphase fun hv => hroom hv hk
    have hw64 : (ofNat w).toNat = w := by
      rw [toNat_ofNat']
      unfold maxDatagram at hw
      omega
    have hb := pktJoinBudget_datagram (ofNat w) (by rw [hw64]; exact hw) ⟨hl1, hl2⟩
    rw [hw64] at hb
    refine ⟨_, hb, fun _ hv => ?_⟩
    have := hoff.new hk hv
    omega

/-- **The admission of a JOIN** rejects nothing and keeps the invariant. -/
lemma Net.Inv.admitJoin (hs : k.spec.Valid) (h : n.Inv k) (hup : (n.paths i).up = f :: rest)
    (ht : f.type = .joinFrame) (hroom : Roomy n (.admitFirst i take)) :
    ((n.setPath i { n.paths i with up := rest }).admitJoin i f take).Inv k := by
  obtain ⟨⟨w, hoff⟩, hbud⟩ := h.head hup hroom
  have hrest : rest <:+ (n.paths i).up := by rw [hup]; exact suffix_cons ..
  have hpop := h.popped i hrest (suffix_refl _)
  have hpath : (n.setPath i { n.paths i with up := rest }).paths i =
      { n.paths i with up := rest } := by simp [Net.setPath]
  have hmade : (n.setPath i { n.paths i with up := rest }).made = n.made := rfl
  have hadm : ({ n.paths i with up := rest } : Path).admitLimit f.view =
      (n.paths i).admitLimit f.view := rfl
  obtain ⟨cmtu, hb, hc⟩ := joinBudget_spec (h.paths i) hup hoff hbud
  obtain ⟨-, hans⟩ := (h.paths i).admitted hup hc
  unfold Net.admitJoin
  dsimp only
  rw [hoff.parsedJoin hs ht, hpath, hmade, hadm]
  cases hm : n.made with
  | none => exact hpop
  | some m =>
    dsimp only
    rw [hb]
    have hmode : m.first.mode = k.spec.mode := (h.made m hm).mode
    dsimp only
    rw [if_neg (by rw [hmode]; exact not_not.mpr rfl)]
    split_ifs with htake
    · rw [Net.setPath_setPath]
      exact h.setPath (hans ⟨f.view, .joinAck _⟩ rfl rfl) fun m' _ hm' => hm'.admitted hup _ _
    · exact hpop

lemma Net.Inv.admitFirst (hs : k.spec.Valid) (hown : (minPacketPayload : Int) ≤ k.ownMax)
    (h : n.Inv k) (i : Nat) (take : Bool) (hroom : Roomy n (.admitFirst i take)) :
    (n.admitFirst k i take).Inv k := by
  unfold Net.admitFirst
  split
  · exact h
  rename_i f rest hup
  split
  · exact h.admitOpen hs hown hup (by assumption) hroom
  · exact h.admitJoin hs hup (by assumption) hroom

/-! ### The dialer's side -/

/-- **The passive's OPEN_ACK passes the dialer's check.** -/
lemma pktOpenAck_ok {kd : CarrierKind} {lim offer : Nat} {m : Int} {c : Nat} {cur : Option Nat}
    (hc : pktCmtuOK kd lim c = true) (hc16 : c < 65536)
    (hm : (minPacketPayload : Int) ≤ m ∧ m ≤ offer) (hoff : offer ≤ maxPacketPayload)
    (hcur : ∀ d, cur = some d → m = d) :
    pktOpenAck kd lim offer cur (packetWindow (uint16 m) (uint16 c)) = .ok (m.toNat, c) := by
  have hmax : maxPacketPayload < 65536 := by decide
  have hm16 : (uint16 m).toNat = m.toNat := toNat_uint16 (by omega) (by omega)
  have hcc : (uint16 c).toNat = c := by
    rw [toNat_uint16 (by omega) (by omega), Int.toNat_natCast]
  unfold pktOpenAck
  simp only [splitPacketWindow_packetWindow, hm16, hcc, hc]
  rw [if_neg (by decide), if_neg (by omega)]
  cases hcurd : cur with
  | none => rfl
  | some d =>
    have hd := hcur d hcurd
    simp only
    rw [if_neg (by omega)]
    congr 2
    omega

lemma Net.Inv.accept (hs : k.spec.Valid) (h : n.Inv k) (i : Nat) : (n.accept k i).Inv k := by
  unfold Net.accept
  split
  · exact h
  rename_i r rest hdown
  dsimp only
  obtain ⟨hcok, hc16⟩ := (h.paths i).cmtuOK hdown
  have hrok := (h.paths i).answers r (by rw [hdown]; exact mem_cons_self ..)
  have hkind : ({ n.paths i with down := rest }.answered r.view).kind = (n.paths i).kind := by
    unfold answered
    split_ifs <;> rfl
  have hst := (h.paths i).started hdown
  -- What the dialer does to the carrier leaves the passive's half alone.
  have hkeep : ∀ m : Made, m.Ok k (n.paths i) →
      m.Ok k (({ n.paths i with down := rest }.answered r.view).started r.view
        ((n.paths i).recvLimit (n.paths i).pass)) := by
    intro m hm
    unfold answered started
    cases hv : r.view
    · exact hm.of_path rfl (by simp) fun f hf => Or.inl hf
    · exact hm.of_path rfl hm.used fun f hf => Or.inl hf
  unfold Resp.Ok at hrok
  cases hans : r.answer with
  | openAck w =>
    rw [hans] at hrok
    obtain ⟨m, hm, hw⟩ := hrok
    have hmok := h.made m hm
    have hcur : ∀ d, n.dialMax = some d → m.maxPayload = d := by
      intro d hd
      obtain ⟨m', hm', heq⟩ := h.dialMax d hd
      rw [hm] at hm'
      cases hm'
      exact heq
    rw [hkind]
    dsimp only
    rw [hw, pktOpenAck_ok hcok hc16 ⟨hmok.low, hmok.high⟩ hs.offer.2 hcur]
    have hset := h.setPath hst fun m' _ hm' => hkeep m' hm'
    exact { hset with
      dialMax := fun d hd => by
        cases hd
        have hlow := hmok.low
        exact ⟨m, hm, by omega⟩ }
  | joinAck rx =>
    rw [hans] at hrok
    have hrx : rx.toNat = (n.paths i).recvLimit (n.paths i).pass := by
      rw [hrok, toNat_ofNat']
      omega
    dsimp only
    rw [hkind, pktJoinAck, hrx, hcok, if_neg (by decide)]
    exact h.setPath hst fun m' _ hm' => hkeep m' hm'

/-- **One event keeps the invariant.** -/
lemma Net.Inv.step (hs : k.spec.Valid) (hown : (minPacketPayload : Int) ≤ k.ownMax)
    (ev : Ev) (hroom : Roomy n ev) (h : n.Inv k) : (step k n ev).Inv k := by
  cases ev with
  | place i t fromBudgets => exact h.place hs i t fromBudgets hroom
  | admitFirst i take => exact h.admitFirst hs hown i take hroom
  | accept i => exact h.accept hs i
  | dropUp i => exact h.popped i (tail_suffix _) (suffix_refl _)
  | dropDown i => exact h.popped i (suffix_refl _) (tail_suffix _)
  | shrinkDial i max =>
    refine h.setPath ((h.paths i).shrinkDial max) fun m _ hm => ?_
    unfold shrinkDial
    split
    · exact hm.of_path rfl hm.used fun f hf => Or.inl hf
    · exact hm.of_path rfl (by simp [kill]) (by simp [kill])
    · exact hm
  | shrinkPass i max =>
    refine h.setPath ((h.paths i).shrinkPass max) fun m _ hm => ?_
    have hlow : ∀ d, (n.paths i).pass.shrink max = some d →
        m.Ok k { n.paths i with pass := d } := fun d hd => by
      obtain ⟨-, hr, -⟩ := DgHalf.shrink_some hd
      exact hm.of_path (by simp only [recvLimit, hr]) hm.used fun f hf => Or.inl hf
    have hkill : m.Ok k (n.paths i).kill :=
      hm.of_path rfl (by simp [kill]) (by simp [kill])
    unfold shrinkPass
    split
    · exact hlow _ (by assumption)
    · exact hlow _ (by assumption)
    · exact hkill
    · exact hkill
    · exact hm
  | kill i =>
    exact h.setPath (h.paths i).kill fun m _ hm =>
      hm.of_path rfl (by simp [kill]) (by simp [kill])

end Steps

/-! ### Runs -/

/-- A carrier before the session uses it: new, or the started trunk another session's handshake
left, with one budget at both ends. -/
structure Path.Start (p : Path) : Prop where
  limits : p.kind = .datagram → (minFrameBudget ≤ p.offer ∧ p.offer ≤ maxDatagram) ∧
    (minFrameBudget ≤ p.pass.limit ∧ p.pass.limit ≤ maxDatagram)
  phase : p.phase = .fresh ∨ p.phase = .up
  empty : p.up = [] ∧ p.down = []
  trunk : p.phase = .up → p.kind = .datagram → ∃ cmtu, minFrameBudget ≤ cmtu ∧
    cmtu ≤ p.offer ∧ cmtu ≤ p.pass.limit ∧
    p.dial = p.dial.setBudget cmtu ∧ p.pass = p.pass.setBudget cmtu

/-- Nothing of the session has happened. -/
structure Net.Start (n : Net) : Prop where
  paths : ∀ i, (n.paths i).Start
  dialMax : n.dialMax = none
  made : n.made = none
  faults : n.faults = []

/-- **What both ends agree on.** -/
structure Net.Agrees (k : Cfg) (n : Net) : Prop where
  /-- Neither end ever rejected a value of the other. -/
  faults : n.faults = []
  /-- Every OPEN in transit is parsed and not a bad request (one with too much metadata is
  answered before that). -/
  opens : ∀ i, ∀ f ∈ (n.paths i).up, f.type = .openFrame → metaTooLarge k f.payload = false →
    ∃ o, parseOpen k.maxMeta f.payload = .ok o ∧
      openBadRequest f.payload (.ok o) (n.paths i).kind = none
  /-- One MaxPayload at both ends. -/
  maxPayload : ∀ d, n.dialMax = some d → ∃ m, n.made = some m ∧ m.maxPayload = d
  /-- One negotiated budget at both ends of every carrier in use. -/
  cmtu : ∀ i, (n.paths i).phase = .up →
    (n.paths i).recvLimit (n.paths i).dial = (n.paths i).recvLimit (n.paths i).pass
  /-- The MaxPayload fits the carrier whose OPEN created the session, if that OPEN's did. -/
  fits : ∀ m, n.made = some m → m.first.pmtu.toNat + dgramOverhead ≤ m.first.window.toNat →
    m.maxPayload + dgramOverhead ≤
      (n.paths m.carrier).recvLimit (n.paths m.carrier).pass

lemma Net.Start.inv (h : n.Start) : n.Inv k where
  paths i := by
    have hp := h.paths i
    refine
      { limits := hp.limits
        offers := by simp [hp.empty.1]
        answers := by simp [hp.empty.2]
        idle := fun _ => hp.empty
        first := by simp [hp.empty]
        new := by simp [hp.empty]
        answered := by simp [hp.empty]
        views := by simp [hp.empty]
        agreed := fun hph hk => ?_ }
    obtain ⟨cmtu, h1, h2, h3, hd, hpa⟩ := hp.trunk hph hk
    have hhigh := (hp.limits hk).1.2
    have e1 : (n.paths i).dial.recvLimit = cmtu := by rw [hd]; rfl
    have e2 : (n.paths i).pass.recvLimit = cmtu := by rw [hpa]; rfl
    have e3 : (n.paths i).dial.budget = cmtu := by rw [hd]; rfl
    have e4 : (n.paths i).pass.budget = cmtu := by rw [hpa]; rfl
    exact ⟨by omega, by omega, by omega, by omega, by omega, by omega⟩
  made m hm := by rw [h.made] at hm; cases hm
  dialMax d hd := by rw [h.dialMax] at hd; cases hd
  faults := h.faults

lemma Net.Inv.agrees (hs : k.spec.Valid) (h : n.Inv k) : n.Agrees k where
  faults := h.faults
  opens i f hf ht hmeta := by
    obtain ⟨w, hoff⟩ := (h.paths i).offers f hf
    obtain ⟨o, hparse, hbad, -⟩ := hoff.parsed hs ht hmeta
    exact ⟨o, hparse, hbad⟩
  maxPayload := h.dialMax
  cmtu i hph := by
    cases hk : (n.paths i).kind with
    | stream => simp only [recvLimit, hk]
    | datagram =>
      simp only [recvLimit, hk]
      exact ((h.paths i).agreed hph hk).same
  fits m hm := (h.made m hm).fits

/-- **The packet values agree** in every run in which views are offered and admitted on trunks
whose budget did not shrink below the smallest frame budget. -/
theorem pkt_values_agree (k : Cfg) (hs : k.spec.Valid) (hown : (minPacketPayload : Int) ≤ k.ownMax)
    {n : Net} (hn : n.Start) {evs : List Ev} (hroom : Along (step k) Roomy n evs) :
    (runFrom (step k) n evs).Agrees k := by
  have hinv : (runFrom (step k) n evs).Inv k :=
    runFrom_along (Net.Inv k) hn.inv (fun _ ev hok h => h.step hs hown ev hok) hroom
  exact hinv.agrees hs

/-! ### A trunk whose budget shrank -/

/-- A session that offers a MaxPayload of 1000 to a passive without a bound of its own. -/
def demoCfg : Cfg := ⟨⟨fun _ => 7, 1, 30000, 1000, []⟩, 65507, 1024⟩

/-- A started datagram trunk with a negotiated budget of 1200. -/
def demoTrunk : Path :=
  ⟨.datagram, .up, 1200, ⟨1200, 1200, 1200⟩, ⟨1200, 1200, 1200⟩, [], []⟩

/-- Every carrier is such a trunk. -/
def demoNet : Net where
  paths _ := demoTrunk
  dialMax := none
  made := none
  faults := []

lemma demoCfg_valid : demoCfg.spec.Valid where
  sid h := absurd (congrFun h 0) (by decide)
  mode := by decide
  offer := by decide
  metadata := by decide

lemma demoNet_start : demoNet.Start where
  paths _ := show demoTrunk.Start from ⟨fun _ => by decide, Or.inr rfl, ⟨rfl, rfl⟩,
    fun _ _ => ⟨1200, by decide, by decide, by decide, rfl, rfl⟩⟩
  dialMax := rfl
  made := rfl
  faults := rfl

/-- The session opens on a trunk whose budgets shrank to 900 and 700. -/
theorem pkt_values_agree_demo :
    (runFrom (step demoCfg) demoNet [.shrinkDial 0 900, .shrinkPass 0 700,
      .place 0 .openFrame false, .admitFirst 0 true, .accept 0]).Agrees demoCfg :=
  pkt_values_agree demoCfg demoCfg_valid (by decide) demoNet_start (by
    refine ⟨trivial, trivial, fun _ _ => ?_, fun f hf _ _ => ?_, trivial, trivial⟩
    · decide
    · show minFrameBudget ≤ 700
      decide)

/-- **A trunk survives a budget of 500, its views do not**: a size refusal leaves the trunk alive,
and the OPEN of the next view is a bad request if the dialer's budget shrank, or is accepted with
a MaxPayload the dialer rejects if the passive's did. -/
theorem pkt_values_shrunk_trunk :
    demoCfg.spec.Valid ∧ (minPacketPayload : Int) ≤ demoCfg.ownMax ∧ demoNet.Start ∧
    ((step demoCfg demoNet (.shrinkDial 0 500)).paths 0).phase = .up ∧
    (runFrom (step demoCfg) demoNet
      [.shrinkDial 0 500, .place 0 .openFrame false, .admitFirst 0 true]).faults =
        [.badRequest codeBadValue] ∧
    (runFrom (step demoCfg) demoNet
      [.shrinkPass 0 500, .place 0 .openFrame false, .admitFirst 0 true, .accept 0]).faults =
        [.answer .pmtu] :=
  ⟨demoCfg_valid, by decide, demoNet_start, by decide, by decide +kernel, by decide +kernel⟩

end Rendr.Packet

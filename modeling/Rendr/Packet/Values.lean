import Rendr.Wire.Payload

/-!
# The packet values of a handshake

A packet session agrees on one number, its MaxPayload, and on one number per datagram carrier,
the carrier's frame budget (cmtu). The dialer writes its offers into fields of the first frame
(`buildH1` on a new carrier, `patchViewOffer` on a view of a started trunk), the admission
computes what it accepts (`packetAccept`, `pktJoinBudget`), and the dialer checks the answer
(`pktOpenAck`, `pktJoinAck`). These are the three computations, each as its package has it, and
what one of them needs to know about the one before:

* `writeOffer_open`, `writeOffer_join` — the octets patched into an encoded first frame are those
  of the frame with the offer in its fields;
* `offered_accepted` — an offer within the frame budget range is parsed and not a bad request;
* `packetAccept_spec` — what the admission accepts lies in the ranges the dialer checks;
* `splitPacketWindow_packetWindow` — the two halves of an OPEN_ACK window come back.
-/

open Rendr.Octets Rendr.Wire

namespace Rendr.Packet

open List

open UInt32

/-- What a carrier transports. -/
inductive CarrierKind
  | stream
  | datagram
  deriving DecidableEq, Repr

/-- The type of a first frame. -/
inductive First
  | openFrame
  | joinFrame
  deriving DecidableEq, Repr

/-- `pktOffer`: the configured MaxPayload, or the largest one the format has. -/
def pktOffer (maxPayload : Int) : Nat :=
  if 0 < maxPayload then maxPayload.toNat else maxPacketPayload

/-- What the first frames of a packet session are built from. -/
structure OpenSpec where
  sid : Fin 16 → UInt8
  mode : UInt8
  retainMs : UInt32
  /-- `Params.Packet.MaxPayload` -/
  maxPayload : Int
  metadata : Bytes

/-- The OPEN of a packet session before a carrier's offer is written into it. -/
def OpenSpec.toOpen (s : OpenSpec) : Open where
  sid := s.sid
  kind := kindDatagram
  mode := s.mode
  flags := 0
  retainMs := s.retainMs
  window := 0
  pmtu := UInt16.ofNat (pktOffer s.maxPayload)
  metadata := s.metadata

/-- `openPayload` of a packet session. -/
def openPayload (s : OpenSpec) : Option Bytes := putOpen s.toOpen

/-- The JOIN of a packet session before a carrier's offer is written into it. -/
def OpenSpec.toJoin (s : OpenSpec) : Join := ⟨s.sid, s.mode, 0⟩

/-! ### The dialer's offer -/

/-- `openPmtu`: the MaxPayload offer on a carrier whose budget offer is `offer`; −1 keeps it. -/
def openPmtu (pmtu offer : Int) : Int :=
  let lowered := offer - dgramOverhead
  if pmtu ≤ lowered ∨ lowered < minPacketPayload then -1 else lowered

/-- The octets `f` written over those of `p` at `i`. -/
def splice (p : Bytes) (i : Nat) (f : Bytes) : Bytes := p.take i ++ f ++ p.drop (i + f.length)

/-- The carrier's offer, written into a copy of its first frame's payload. -/
def writeOffer (t : First) (p : Bytes) (offer : Nat) (fromBudgets : Bool) : Bytes :=
  match t with
  | .openFrame =>
    if openFixedLen ≤ p.length then
      let p := splice p 24 (put32 (ofNat offer))
      if fromBudgets then
        let m := openPmtu (get16 p 28).toNat offer
        if 0 ≤ m then splice p 28 (put16 (UInt16.ofNat m.toNat)) else p
      else p
    else p
  | .joinFrame =>
    if 25 ≤ p.length then splice p 17 (put64 (UInt64.ofNat offer)) else p

/-- The inner payload of `buildH1`: the offer of a new carrier. -/
def buildH1 (t : First) (p : Bytes) (offer : Nat) (fromBudgets : Bool) : Bytes :=
  writeOffer t p offer fromBudgets

/-- `patchViewOffer`: a started trunk's current send budget. -/
def patchViewOffer (t : First) (p : Bytes) (budget : Nat) (fromBudgets : Bool) : Bytes :=
  writeOffer t p budget fromBudgets

/-- Overwriting a field with one as long replaces it. -/
lemma splice_append {a f g r : Bytes} {i : Nat} (ha : a.length = i) (hf : f.length = g.length) :
    splice (a ++ g ++ r) i f = a ++ f ++ r := by
  subst ha
  have hdrop : (a ++ g ++ r).drop (a.length + f.length) = r := by
    rw [hf, ← length_append, drop_left]
  rw [splice, hdrop, append_assoc a g r, take_left]

/-- The MaxPayload offer an OPEN carries on a carrier whose budget offer is `offer`. -/
def offeredPmtu (pmtu : UInt16) (offer : Nat) (fromBudgets : Bool) : UInt16 :=
  if fromBudgets ∧ 0 ≤ openPmtu pmtu.toNat offer then
    UInt16.ofNat (openPmtu pmtu.toNat offer).toNat
  else pmtu

/-- The OPEN with a carrier's offer in its fields. -/
def offered (o : Open) (offer : Nat) (fromBudgets : Bool) : Open :=
  { o with window := ofNat offer, pmtu := offeredPmtu o.pmtu offer fromBudgets }

/-- The octets of an OPEN before its window field. -/
def openHead (o : Open) : Bytes :=
  putBlock o.sid ++ [o.kind] ++ [o.mode] ++ put16 o.flags ++ put32 o.retainMs

/-- The octets of an OPEN behind its MaxPayload field. -/
def openTail (o : Open) : Bytes := put16 (UInt16.ofNat o.metadata.length) ++ o.metadata

variable {o : Open}

lemma putOpen_eq (hm : o.metadata.length ≤ maxMetadata) :
    putOpen o = some (openHead o ++ put32 o.window ++ (put16 o.pmtu ++ openTail o)) := by
  rw [putOpen, if_neg (by omega)]
  simp [openHead, openTail]

/-- Patching an encoded OPEN is encoding the patched OPEN. -/
lemma writeOffer_open {p : Bytes} (hp : putOpen o = some p) (offer : Nat) (fromBudgets : Bool) :
    putOpen (offered o offer fromBudgets) = some (writeOffer .openFrame p offer fromBudgets) := by
  have hm : o.metadata.length ≤ maxMetadata := by
    by_contra hm
    rw [putOpen, if_pos (by omega)] at hp
    cases hp
  rw [putOpen_eq hm] at hp
  cases hp
  have hlen : (openHead o).length = 24 := by simp [openHead]
  rw [putOpen_eq (show (offered o offer fromBudgets).metadata.length ≤ maxMetadata from hm)]
  simp only [writeOffer]
  -- The window field stands behind 24 octets, the MaxPayload field behind four more.
  rw [if_pos (by simp [openFixedLen, openTail, hlen]; omega), splice_append hlen (by simp)]
  have hget : get16 (openHead o ++ put32 (ofNat offer) ++ (put16 o.pmtu ++ openTail o)) 28 =
      o.pmtu := by
    rw [get16_append (by simp [hlen])]
    simp [hlen]
  rw [hget]
  have hhead : openHead (offered o offer fromBudgets) = openHead o := rfl
  have htail : openTail (offered o offer fromBudgets) = openTail o := rfl
  rw [hhead, htail]
  by_cases hpos : fromBudgets ∧ 0 ≤ openPmtu o.pmtu.toNat offer
  · rw [if_pos hpos.1, if_pos hpos.2, ← append_assoc _ (put16 o.pmtu) (openTail o),
      splice_append (by simp [hlen]) (by simp)]
    simp [offered, offeredPmtu, if_pos hpos]
  simp only [offered, offeredPmtu, if_neg hpos]
  split_ifs with h1 h2
  · exact absurd ⟨h1, h2⟩ hpos
  · rfl
  · rfl

/-- Patching an encoded JOIN is encoding the patched JOIN. -/
lemma writeOffer_join (j : Join) (offer : Nat) (fromBudgets : Bool) :
    writeOffer .joinFrame (putJoin j) offer fromBudgets =
      putJoin { j with rxNext := UInt64.ofNat offer } := by
  have hs := splice_append (a := putBlock j.sid ++ [j.mode]) (f := put64 (UInt64.ofNat offer))
    (g := put64 j.rxNext) (r := []) (i := 17) (by simp) (by simp)
  rw [append_nil, append_nil] at hs
  have hlen : 25 ≤ (putJoin j).length := by simp [putJoin]
  rw [writeOffer, if_pos hlen]
  exact hs

/-! ### The admission -/

def codeBadMode : UInt32 := 1
def codeBadKind : UInt32 := 2
def codeBadValue : UInt32 := 4

/-- `openBadRequest`: the reason code of an OPEN answered BAD_REQUEST. -/
def openBadRequest (payload : Bytes) (r : Except WireErr Open) (k : CarrierKind) : Option UInt32 :=
  match r with
  | .error e =>
    if e = .value ∧ openFixedLen ≤ payload.length then
      if get8 payload 16 ≠ kindStream ∧ get8 payload 16 ≠ kindDatagram then some codeBadKind
      else if get8 payload 17 < 1 ∨ 3 < get8 payload 17 then some codeBadMode
      else some codeBadValue
    else some codeBadValue
  | .ok o =>
    if o.kind = kindStream ∧ k = .datagram then some codeBadKind
    else if o.kind = kindDatagram ∧ (o.window = 0 ↔ k = .datagram) then some codeBadValue
    else if o.mode < 1 ∨ 3 < o.mode then some codeBadMode
    else none

/-- `packetAccept`: the frame budget and the MaxPayload a packet OPEN is accepted with. `limit` is
0 on a stream carrier. -/
def packetAccept (o : Open) (limit ownMax : Int) : Int × Int :=
  let maxPayload := min (o.pmtu.toNat : Int) ownMax
  if limit = 0 then (0, maxPayload)
  else
    let cmtu := min (o.window.toNat : Int) limit
    if (o.pmtu.toNat : Int) ≤ o.window.toNat - dgramOverhead then
      (cmtu, min maxPayload (cmtu - dgramOverhead))
    else (cmtu, maxPayload)

/-- `joinOffer`: a JOIN's offer, bounded by the transport limit of its datagram carrier. -/
def joinOffer (rxNext : UInt64) (k : CarrierKind) (limit : Int) : UInt64 :=
  if k ≠ .datagram ∨ limit ≤ 0 ∨ rxNext.toNat < minFrameBudget ∨ maxDatagram < rxNext.toNat then
    rxNext
  else if rxNext.toNat ≤ limit then rxNext else UInt64.ofNat limit.toNat

/-- `pktJoinBudget`: the budget a JOIN is accepted with, `none` when it is a bad request. -/
def pktJoinBudget (packet : Bool) (k : CarrierKind) (rxNext : UInt64) (limit : Nat) : Option Nat :=
  if !packet then (if k ≠ .datagram then some 0 else none)
  else if k ≠ .datagram then (if rxNext = 0 then some 0 else none)
  else if rxNext.toNat < minFrameBudget ∨ maxDatagram < rxNext.toNat then none
  else if minFrameBudget ≤ min rxNext.toNat limit then some (min rxNext.toNat limit) else none

/-- `transportLimit`: an unknown limit accepts any offer. -/
def transportLimit (limit : Nat) : Nat := if 0 < limit then limit else maxDatagram

/-- `PacketWindow`. -/
def packetWindow (pmtu cmtu : UInt16) : UInt32 := pmtu.toUInt32 <<< 16 ||| cmtu.toUInt32

/-- `SplitPacketWindow`. -/
def splitPacketWindow (w : UInt32) : UInt16 × UInt16 := ((w >>> 16).toUInt16, w.toUInt16)

lemma toNat_packetWindow (pmtu cmtu : UInt16) :
    (packetWindow pmtu cmtu).toNat = pmtu.toNat * 65536 + cmtu.toNat := by
  have hp := pmtu.toNat_lt
  have hc := cmtu.toNat_lt
  have hmod : pmtu.toNat * 2 ^ 16 % 2 ^ 32 = pmtu.toNat * 2 ^ 16 := Nat.mod_eq_of_lt (by omega)
  have hor := Nat.shiftLeft_add_eq_or_of_lt hc pmtu.toNat
  rw [Nat.shiftLeft_eq] at hor
  simp only [packetWindow, UInt32.toNat_or, UInt32.toNat_shiftLeft, UInt16.toNat_toUInt32]
  rw [show (16 : UInt32).toNat % 32 = 16 from rfl, Nat.shiftLeft_eq, hmod, ← hor]

lemma splitPacketWindow_packetWindow (pmtu cmtu : UInt16) :
    splitPacketWindow (packetWindow pmtu cmtu) = (pmtu, cmtu) := by
  have hp := pmtu.toNat_lt
  have hc := cmtu.toNat_lt
  have hw := toNat_packetWindow pmtu cmtu
  unfold splitPacketWindow
  ext
  · simp only [UInt32.toNat_toUInt16, UInt32.toNat_shiftRight, hw, Nat.shiftRight_eq_div_pow]
    rw [show (16 : UInt32).toNat % 32 = 16 from rfl]
    omega
  · simp only [UInt32.toNat_toUInt16, hw]
    omega

/-! ### The dialer's checks -/

/-- A violation of a carrier's packet handshake values. -/
inductive PktErr
  | cmtu
  | pmtu
  | pmtuChanged
  deriving DecidableEq, Repr

/-- `pktCmtuOK`: a valid answered budget on a carrier that offered `offer`. -/
def pktCmtuOK (k : CarrierKind) (offer cmtu : Nat) : Bool :=
  match k with
  | .stream => cmtu == 0
  | .datagram => minFrameBudget ≤ cmtu && cmtu ≤ offer

/-- `pktOpenAckLocked`: the session's MaxPayload and the carrier's budget after an OPEN_ACK(OK).
`cur` is the MaxPayload an earlier OPEN_ACK fixed. -/
def pktOpenAck (k : CarrierKind) (recvLimit offer : Nat) (cur : Option Nat) (window : UInt32) :
    Except PktErr (Nat × Nat) :=
  let pmtu := (splitPacketWindow window).1.toNat
  let cmtu := (splitPacketWindow window).2.toNat
  if !pktCmtuOK k recvLimit cmtu then .error .cmtu
  else if pmtu < minPacketPayload ∨ offer < pmtu then .error .pmtu
  else
    match cur with
    | some m => if pmtu ≠ m then .error .pmtuChanged else .ok (m, cmtu)
    | none => .ok (pmtu, cmtu)

/-- `pktJoinAckLocked`: the carrier's budget after a JOIN_ACK(OK). -/
def pktJoinAck (k : CarrierKind) (recvLimit : Nat) (rxNext : UInt64) : Except PktErr Nat :=
  if !pktCmtuOK k recvLimit rxNext.toNat then .error .cmtu else .ok rxNext.toNat

/-! ### What each side's computation gives the next -/

/-- The values of a session the claims of the handshake are about. -/
structure OpenSpec.Valid (s : OpenSpec) : Prop where
  sid : s.sid ≠ fun _ => 0
  mode : 1 ≤ s.mode ∧ s.mode ≤ maxMode
  /-- The MaxPayload offer lies in the format's range. -/
  offer : minPacketPayload ≤ pktOffer s.maxPayload ∧ pktOffer s.maxPayload ≤ maxPacketPayload
  metadata : s.metadata.length ≤ maxMetadata

/-- A lowered offer is still one, and fits the budget it was lowered for. -/
lemma openPmtu_spec {pmtu offer : Int} (h : 0 ≤ openPmtu pmtu offer) :
    openPmtu pmtu offer = offer - dgramOverhead ∧ (minPacketPayload : Int) ≤ offer - dgramOverhead ∧
      offer - dgramOverhead < pmtu := by
  unfold openPmtu at h ⊢
  simp only at h ⊢
  split_ifs at h ⊢ with hc
  · omega
  · push Not at hc
    exact ⟨rfl, hc.2, hc.1⟩

/-- The offered MaxPayload stays in range and never exceeds the session's. -/
lemma offeredPmtu_range {pmtu : UInt16} (offer : Nat) (fromBudgets : Bool)
    (hp : minPacketPayload ≤ pmtu.toNat) :
    minPacketPayload ≤ (offeredPmtu pmtu offer fromBudgets).toNat ∧
      (offeredPmtu pmtu offer fromBudgets).toNat ≤ pmtu.toNat := by
  unfold offeredPmtu
  split_ifs with h
  · obtain ⟨heq, hlow, hlt⟩ := openPmtu_spec h.2
    have hlt16 := pmtu.toNat_lt
    rw [heq, UInt16.toNat_ofNat', Nat.mod_eq_of_lt (by omega)]
    omega
  · exact ⟨hp, le_rfl⟩

variable {s : OpenSpec}

lemma OpenSpec.Valid.pmtu (hs : s.Valid) : s.toOpen.pmtu.toNat = pktOffer s.maxPayload := by
  have h := hs.offer.2
  unfold maxPacketPayload at h
  simp only [OpenSpec.toOpen, UInt16.toNat_ofNat']
  omega

/-- An OPEN with an offer in the frame budget range (or none, on a stream carrier) is canonical. -/
lemma checkOpen_offered (hs : s.Valid) {w : Nat}
    (hkind : o = { s.toOpen with window := ofNat w, pmtu := o.pmtu })
    (hp : minPacketPayload ≤ o.pmtu.toNat ∧ o.pmtu.toNat ≤ maxPacketPayload)
    (hw : w = 0 ∨ minFrameBudget ≤ w ∧ w ≤ maxDatagram) : checkOpen o = none := by
  have hw32 : (ofNat w).toNat = w := by
    rw [toNat_ofNat']
    unfold maxDatagram at hw
    omega
  have hwin : o.window = ofNat w := by rw [hkind]
  have hk : o.kind = kindDatagram := by rw [hkind]; rfl
  have hm : o.mode = s.mode := by rw [hkind]; rfl
  have hf : o.flags = 0 := by rw [hkind]; rfl
  have hsid : o.sid = s.sid := by rw [hkind]; rfl
  have hmode : ¬ (s.mode < 1 ∨ maxMode < s.mode) := by
    rintro (h | h)
    · exact absurd hs.mode.1 (UInt8.not_le.mpr h)
    · exact absurd hs.mode.2 (UInt8.not_le.mpr h)
  unfold checkOpen
  rw [hk, hm, hf, hsid, if_neg hs.sid, if_neg (by decide), if_neg hmode, if_neg (by decide),
    if_neg (by decide), if_neg (fun h => absurd h.1 (by decide)), if_neg (by omega), if_neg]
  rintro ⟨-, hne, hout⟩
  rw [hwin, hw32] at hout
  rcases hw with h0 | hw
  · subst h0
    exact hne (by rw [hwin]; rfl)
  · omega

/-- **An offer within the frame budget range is accepted**: it is parsed, and not a bad request
on a carrier of the kind it was made for. -/
lemma offered_accepted (hs : s.Valid) {w : Nat} {p : Bytes} {k : CarrierKind} {maxMeta : Int}
    (hp : putOpen o = some p)
    (hkind : o = { s.toOpen with window := ofNat w, pmtu := o.pmtu })
    (hpm : minPacketPayload ≤ o.pmtu.toNat ∧ o.pmtu.toNat ≤ maxPacketPayload)
    (hw : if k = .datagram then minFrameBudget ≤ w ∧ w ≤ maxDatagram else w = 0)
    (hmeta : (s.metadata.length : Int) ≤ maxMeta) :
    parseOpen maxMeta p = .ok o ∧ openBadRequest p (.ok o) k = none := by
  have hw' : w = 0 ∨ minFrameBudget ≤ w ∧ w ≤ maxDatagram := by
    split_ifs at hw
    · exact Or.inr hw
    · exact Or.inl hw
  have hmd : o.metadata = s.metadata := by rw [hkind]; rfl
  have hcan : o.Canonical maxMeta := by
    refine ⟨?_, checkOpen_offered hs hkind hpm hw'⟩
    have := hs.metadata
    rw [hmd]
    omega
  obtain ⟨p', hp', hparse⟩ := (open_codec maxMeta).parse_put o hcan
  rw [hp] at hp'
  cases hp'
  refine ⟨hparse, ?_⟩
  have hk : o.kind = kindDatagram := by rw [hkind]; rfl
  have hm : o.mode = s.mode := by rw [hkind]; rfl
  have hwin : o.window = ofNat w := by rw [hkind]
  have hmode : ¬ (s.mode < 1 ∨ 3 < s.mode) := by
    rintro (h | h)
    · exact absurd hs.mode.1 (UInt8.not_le.mpr h)
    · exact absurd hs.mode.2 (UInt8.not_le.mpr h)
  simp only [openBadRequest]
  rw [hk, hm, if_neg (by rintro ⟨h, -⟩; exact absurd h (by decide)), if_neg, if_neg hmode]
  rintro ⟨-, hiff⟩
  rw [hwin] at hiff
  cases k with
  | stream =>
    rw [if_neg (by decide)] at hw
    subst hw
    exact absurd (hiff.mp rfl) (by decide)
  | datagram =>
    rw [if_pos rfl] at hw
    have h0 := congrArg toNat (hiff.mpr rfl)
    rw [toNat_ofNat'] at h0
    have hpos : 0 < minFrameBudget := by decide
    unfold maxDatagram at hw
    simp at h0
    omega

/-- **What the admission accepts** of a valid OPEN: a MaxPayload within the dialer's range that
fits the accepted budget when the dialer's offer fit its own, and the smaller of the two
budgets. -/
lemma packetAccept_spec (limit : Int) {ownMax : Int} (hp : minPacketPayload ≤ o.pmtu.toNat)
    (hown : (minPacketPayload : Int) ≤ ownMax)
    (hlim : limit = 0 ∨ (minFrameBudget : Int) ≤ limit ∧ minFrameBudget ≤ o.window.toNat) :
    (minPacketPayload : Int) ≤ (packetAccept o limit ownMax).2 ∧
      (packetAccept o limit ownMax).2 ≤ o.pmtu.toNat ∧
      (limit ≠ 0 → (packetAccept o limit ownMax).1 = min (o.window.toNat : Int) limit ∧
        (o.pmtu.toNat + dgramOverhead ≤ o.window.toNat →
          (packetAccept o limit ownMax).2 + dgramOverhead ≤
            (packetAccept o limit ownMax).1)) := by
  have hd : minFrameBudget = minPacketPayload + dgramOverhead := rfl
  simp only [packetAccept]
  split_ifs with h0 hfit
  · exact ⟨by simp only; omega, by simp only; omega, fun h => absurd h0 h⟩
  · refine ⟨by simp only; omega, by simp only; omega, fun _ => ⟨rfl, fun _ => ?_⟩⟩
    omega
  · exact ⟨by simp only; omega, by simp only; omega, fun _ => ⟨rfl, fun h => by omega⟩⟩

/-- A JOIN's offer in range is accepted, with the smaller of the two budgets. -/
lemma pktJoinBudget_datagram (rx : UInt64) {lim tlim : Nat}
    (hrx : minFrameBudget ≤ rx.toNat ∧ rx.toNat ≤ maxDatagram)
    (hlim : minFrameBudget ≤ lim ∧ lim ≤ tlim) :
    pktJoinBudget true .datagram (joinOffer rx .datagram lim) (transportLimit tlim) =
      some (min rx.toNat lim) := by
  have hlow : (0 : Nat) < minFrameBudget := by decide
  have ht : transportLimit tlim = tlim := if_pos (by omega)
  have hj : (joinOffer rx .datagram lim).toNat = min rx.toNat lim := by
    unfold joinOffer
    rw [if_neg (by simp; omega)]
    split_ifs with h
    · omega
    · rw [Int.toNat_natCast, UInt64.toNat_ofNat']
      have := rx.toNat_lt
      omega
  have hmin : min (min rx.toNat lim) tlim = min rx.toNat lim := by omega
  unfold pktJoinBudget
  rw [if_neg (by decide), if_neg (by decide), hj, ht, hmin, if_neg (by omega), if_pos (by omega)]

end Rendr.Packet

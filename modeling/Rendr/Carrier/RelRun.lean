import Rendr.Lib.Run
import Rendr.Carrier.RelRecv

/-!
# Sender, receiver and a channel that keeps no promise

The two halves of the reliable sublayer joined by a channel that may lose, duplicate and reorder:
every copy of a REL or RACK ever put on it stays there, and a delivery takes any of them, any
number of times, as long as it is less than `2 ^ 31` cseqs old.

The counters wrap; each copy carries the unbounded index it stands for as a ghost. `NetInv` ties
both ends to the sequence of sealed RELs, and `rel_exactly_once` reads off it what the sublayer
promises.
-/

open Rendr.Octets Rendr.Wire

namespace Rendr.Carrier

open List

variable {σ : Type}

/-- A frame a batch can reserve: `addReliable` panics on any other, and only a handshake or a view
of a trunk places the handshake types. -/
structure Reservable (mux : Bool) (f : RelFrame) : Prop where
  canonical : (f.stamp 0).Canonical
  size : relHeadLen + f.inner.length ≤ relMaxPayload
  handshake : handshakeType f.type = true → mux = true
  close : f.type = typeClose → (parseClose f.inner).isOk
  goAway : f.type = typeGoAway → (parseGoAway f.inner).isOk

instance (mux : Bool) (f : RelFrame) : Decidable (Reservable mux f) :=
  decidable_of_iff ((f.stamp 0).Canonical ∧ relHeadLen + f.inner.length ≤ relMaxPayload ∧
      (handshakeType f.type = true → mux = true) ∧
      (f.type = typeClose → (parseClose f.inner).isOk) ∧
      (f.type = typeGoAway → (parseGoAway f.inner).isOk))
    ⟨fun ⟨a, b, c, d, e⟩ => ⟨a, b, c, d, e⟩, fun ⟨a, b, c, d, e⟩ => ⟨a, b, c, d, e⟩⟩

/-- Both ends, the channel, and the RELs sealed so far. -/
structure RelNet (σ : Type) where
  snd : RelSend
  rcv : RelRecv σ
  /-- Why the receiver's reader stopped. -/
  stopped : Option RelViolation
  /-- A RACK was a violation at the sender. -/
  rackBad : Bool
  sealed : List Rel
  /-- The REL copies ever sent, with the index of their cseq. -/
  rels : List (Nat × Bytes)
  /-- The RACK copies ever sent, with the index of their cumulative point. -/
  racks : List (Nat × Bytes)

/-- What happens: a new REL is sealed and sent, the oldest one is sent again, a RACK is sent, or a
copy arrives. A round that seals several frames is as many `relSeal`s in a row. -/
inductive RelEv
  | relSeal (f : RelFrame)
  | retx
  | rack
  | rel (i : Nat) (fseq : UInt32)
  | onRack (i : Nat)

/-- Both ends as the handshake leaves them: the receiver's cumulative point is the cseq before the
first one the sender will assign. -/
def RelNet.init (base : Nat) (ep : σ) : RelNet σ where
  snd := .init (wrap (base + 1))
  rcv := .init (wrap base) ep
  stopped := none
  rackBad := false
  sealed := []
  rels := []
  racks := []

/-- The index of the next cseq. -/
def RelNet.nextIdx (base : Nat) (n : RelNet σ) : Nat := base + 1 + n.sealed.length

/-- One step. A copy too old to deliver, and everything at a stopped reader, changes nothing. -/
def RelNet.step (mux : Bool) (E : Endpoint σ) (base : Nat) (n : RelNet σ) : RelEv → RelNet σ
  | .relSeal f =>
    if Reservable mux f ∧ 0 < n.snd.room then
      let r := f.stamp n.snd.next
      { n with
        snd := n.snd.sealOne f
        sealed := n.sealed ++ [r]
        rels := n.rels ++ [(n.nextIdx base, putRel r)] }
    else n
  | .retx =>
    if n.snd.outstanding then
      { n with
        rels := n.rels ++
          [(n.nextIdx base - (n.snd.next - n.snd.una).toNat, n.snd.slot (relIndex n.snd.una))] }
    else n
  | .rack =>
    if n.stopped.isSome then n
    else { n with racks := n.racks ++ [(base + n.rcv.log.length, putRack n.rcv.rack)] }
  | .rel i fseq =>
    match n.rels[i]? with
    | none => n
    | some (k, p) =>
      if n.stopped.isSome ∨ k + 2 ^ 31 ≤ n.nextIdx base then n
      else
        let (rcv, v) := relOnRel mux E n.rcv p fseq
        { n with rcv := rcv, stopped := v }
  | .onRack i =>
    match n.racks[i]? with
    | none => n
    | some (k, p) =>
      if n.rackBad ∨ k + 2 ^ 31 ≤ n.nextIdx base then n
      else
        match n.snd.onRack p with
        | none => { n with rackBad := true }
        | some snd => { n with snd := snd }

/-- **Both ends against the sealed sequence.** `u` is the index of the oldest unacknowledged cseq,
`m` of the receiver's cumulative point. -/
structure NetInv (mux : Bool) (E : Endpoint σ) (s₀ : σ) (base u m : Nat) (n : RelNet σ) : Prop where
  next : n.snd.next = wrap (base + 1 + n.sealed.length)
  una : n.snd.una = wrap u
  first : base + 1 ≤ u
  una_le : u ≤ base + 1 + n.sealed.length
  window : base + 1 + n.sealed.length ≤ u + 8
  /-- Only dispatched cseqs are acknowledged. -/
  acked : u ≤ m + 1
  cum_le : m ≤ base + n.sealed.length
  /-- The slot of every outstanding cseq holds its payload. -/
  slots : ∀ i r, n.sealed[i]? = some r → u ≤ base + 1 + i →
    n.snd.slot (relIndex (wrap (base + 1 + i))) = putRel r
  /-- Every sealed frame can be reserved. -/
  sealed : ∀ i r, n.sealed[i]? = some r → ∃ f, Reservable mux f ∧ r = f.stamp (wrap (base + 1 + i))
  recv : n.stopped = none → RecvInv mux E s₀ n.sealed base m n.rcv ∧ Drained m n.rcv
  log : n.rcv.log <+: upToClose n.sealed
  rels : ∀ x ∈ n.rels, ∃ i r, x = (base + 1 + i, putRel r) ∧ n.sealed[i]? = some r
  racks : ∀ x ∈ n.racks, ∃ held, x.2 = putRack ⟨wrap x.1, sackOf held⟩ ∧ base ≤ x.1 ∧ x.1 ≤ m ∧
    ∀ i : Fin 7, held i = true → x.1 + 2 + i ≤ base + n.sealed.length
  /-- The reader only stops because the endpoint refused a frame. -/
  stop : ∀ v, n.stopped = some v → v = .refused
  good : n.rackBad = false

section Steps

variable {mux : Bool} {E : Endpoint σ} {s₀ : σ} {base u m : Nat} {n : RelNet σ}

lemma Reservable.honest {f : RelFrame} (h : Reservable mux f) (cseq : UInt32) :
    Honest mux (f.stamp cseq) where
  canonical := h.canonical
  size := by
    have := h.size
    simp only [putRel, length_append, length_putRelHead, RelFrame.stamp]
    omega
  handshake := h.handshake

/-- The dispatch of a frame with a well-formed payload is refused by the endpoint only. -/
lemma relDispatch_refused {r : Rel} {fseq : UInt32} {c c' : RelRecv σ} {v : RelViolation}
    (hclose : r.head.type = typeClose → (parseClose r.inner).isOk)
    (hgo : r.head.type = typeGoAway → (parseGoAway r.inner).isOk)
    (hd : relDispatch E c r fseq = (c', some v)) : v = .refused := by
  have hv := congrArg Prod.snd hd
  unfold relDispatch at hv
  simp only at hv
  by_cases hc : r.head.type = typeClose
  · have hok := hclose hc
    rw [if_pos hc] at hv
    cases hp : parseClose r.inner with
    | error e => rw [hp] at hok; cases hok
    | ok x => rw [hp] at hv; cases hv
  rw [if_neg hc] at hv
  by_cases hg : r.head.type = typeGoAway
  · have hok := hgo hg
    rw [if_pos hg] at hv
    cases hp : parseGoAway r.inner with
    | error e => rw [hp] at hok; cases hok
    | ok x => rw [hp] at hv; cases hv
  rw [if_neg hg] at hv
  simp only at hv
  split_ifs at hv
  exact (Option.some.inj hv).symm

lemma NetInv.init : NetInv mux E s₀ base (base + 1) base (RelNet.init base s₀) where
  next := rfl
  una := rfl
  first := le_rfl
  una_le := le_rfl
  window := by simp [RelNet.init]
  acked := le_rfl
  cum_le := by simp [RelNet.init]
  slots i r hr := by simp [RelNet.init] at hr
  sealed i r hr := by simp [RelNet.init] at hr
  recv _ := ⟨⟨fun i r hr => by simp [RelNet.init] at hr, rfl, rfl, nil_prefix, rfl, .nil,
    fun j hj => by simp [RelNet.init, RelRecv.init] at hj⟩, fun _ => rfl⟩
  log := nil_prefix
  rels x hx := by simp [RelNet.init] at hx
  racks x hx := by simp [RelNet.init] at hx
  stop v hv := by simp [RelNet.init] at hv
  good := rfl

lemma NetInv.room (h : NetInv mux E s₀ base u m n) :
    n.snd.room = 8 - ((base + 1 + n.sealed.length : Nat) - u : Int) := by
  have h1 := h.una_le
  have h2 := h.window
  rw [RelSend.room, h.next, h.una, toNat_wrap_sub h1 (by omega)]
  simp only [relWindow]
  omega

/-- A new REL takes the slot of a cseq acknowledged eight before. -/
lemma NetInv.relSeal (h : NetInv mux E s₀ base u m n) {f : RelFrame} (hf : Reservable mux f)
    (hroom : 0 < n.snd.room) :
    NetInv mux E s₀ base u m { n with
      snd := n.snd.sealOne f
      sealed := n.sealed ++ [f.stamp n.snd.next]
      rels := n.rels ++ [(n.nextIdx base, putRel (f.stamp n.snd.next))] } := by
  rw [h.room] at hroom
  have h1 := h.una_le
  have hsize : ((putRel (f.stamp n.snd.next)).take relMaxPayload) = putRel (f.stamp n.snd.next) :=
    take_of_length_le (hf.honest _).size
  have hget : ∀ i r, (n.sealed ++ [f.stamp n.snd.next])[i]? = some r →
      (i < n.sealed.length ∧ n.sealed[i]? = some r) ∨
      (i = n.sealed.length ∧ r = f.stamp n.snd.next) := by
    intro i r hr
    rcases Nat.lt_trichotomy i n.sealed.length with hi | hi | hi
    · rw [getElem?_append_left hi] at hr
      exact Or.inl ⟨hi, hr⟩
    · rw [getElem?_append_right hi.ge, hi, Nat.sub_self] at hr
      exact Or.inr ⟨hi, (Option.some.inj hr).symm⟩
    · rw [getElem?_eq_none (by simp; omega)] at hr
      cases hr
  have hold : ∀ {i : Nat} {r : Rel}, n.sealed[i]? = some r →
      (n.sealed ++ [f.stamp n.snd.next])[i]? = some r := by
    intro i r hr
    rw [getElem?_append_left (List.getElem?_eq_some_iff.mp hr).1, hr]
  constructor
  · simp only [RelSend.sealOne, h.next, wrap_succ, length_append, length_singleton]
    rfl
  · exact h.una
  · exact h.first
  · simp only [length_append, length_singleton]
    omega
  · simp only [length_append, length_singleton]
    omega
  · exact h.acked
  · have := h.cum_le
    simp only [length_append, length_singleton]
    omega
  · intro i r hr hu
    simp only [RelSend.sealOne, h.next, hsize]
    rcases hget i r hr with ⟨hi, hr⟩ | ⟨rfl, rfl⟩
    · have hne : relIndex (wrap (base + 1 + i)) ≠ relIndex (wrap (base + 1 + n.sealed.length)) := by
        intro he
        have := (relIndex_wrap_inj (m := u) hu (by omega) (by omega) (by omega)).mp he
        omega
      rw [Function.update_of_ne hne]
      exact h.slots i r hr hu
    · rw [Function.update_self, ← h.next, hsize]
  · intro i r hr
    rcases hget i r hr with ⟨hi, hr⟩ | ⟨rfl, rfl⟩
    · exact h.sealed i r hr
    · exact ⟨f, hf, by rw [h.next]⟩
  · intro hs
    obtain ⟨hrecv, hdr⟩ := h.recv hs
    exact ⟨hrecv.extend (by rw [← h.next]; rfl) (hf.honest _), hdr⟩
  · exact prefix_upToClose_append h.log _
  · intro x hx
    rcases mem_append.mp hx with hx | hx
    · obtain ⟨i, r, rfl, hr⟩ := h.rels x hx
      exact ⟨i, r, rfl, hold hr⟩
    · rw [mem_singleton] at hx
      exact ⟨n.sealed.length, _, hx, by simp⟩
  · intro x hx
    obtain ⟨held, hp, hb, hm, hbits⟩ := h.racks x hx
    refine ⟨held, hp, hb, hm, fun i hi => ?_⟩
    have := hbits i hi
    simp only [length_append, length_singleton]
    omega
  · exact h.stop
  · exact h.good

/-- The oldest outstanding REL goes out again, octet for octet. -/
lemma NetInv.retx (h : NetInv mux E s₀ base u m n) (hout : n.snd.outstanding = true) :
    NetInv mux E s₀ base u m { n with
      rels := n.rels ++
        [(n.nextIdx base - (n.snd.next - n.snd.una).toNat, n.snd.slot (relIndex n.snd.una))] } := by
  have h1 := h.una_le
  have h2 := h.window
  have h3 := h.first
  have hlt : u < base + 1 + n.sealed.length := by
    by_contra hge
    have : u = base + 1 + n.sealed.length := by omega
    simp [RelSend.outstanding, h.una, h.next, this] at hout
  have hi : u - base - 1 < n.sealed.length := by omega
  have hidx : base + 1 + (u - base - 1) = u := by omega
  have hget : n.sealed[u - base - 1]? = some n.sealed[u - base - 1] := getElem?_eq_getElem hi
  refine { h with rels := fun x hx => ?_ }
  rcases mem_append.mp hx with hx | hx
  · exact h.rels x hx
  rw [mem_singleton] at hx
  refine ⟨u - base - 1, _, ?_, hget⟩
  have hslot := h.slots _ _ hget (by omega)
  rw [hidx] at hslot
  rw [hx, h.una, hslot, h.next, toNat_wrap_sub h1 (by omega), hidx, RelNet.nextIdx]
  congr 1
  omega

/-- The held marks a RACK reports, by their indices. -/
lemma RecvInv.rack_eq {sealed : List Rel} {c : RelRecv σ}
    (h : RecvInv mux E s₀ sealed base m c) :
    c.rack = ⟨wrap m, sackOf fun i => c.heldMask (relIndex (wrap (m + 2 + i)))⟩ := by
  have hidx : ∀ i : Fin 7, wrap m + 2 + UInt32.ofNat i = wrap (m + 2 + i) := by
    intro i
    rw [show (2 : UInt32) = UInt32.ofNat 2 from rfl, wrap_add, wrap_add]
  simp only [RelRecv.rack, h.cum, hidx]

section

variable (h : NetInv mux E s₀ base u m n)
include h

/-- A RACK names the cumulative point and cseqs that are held. -/
lemma NetInv.rack (hs : n.stopped = none) :
    NetInv mux E s₀ base u m { n with
      racks := n.racks ++ [(base + n.rcv.log.length, putRack n.rcv.rack)] } := by
  obtain ⟨hrecv, -⟩ := h.recv hs
  have hcount := hrecv.count
  refine { h with racks := fun x hx => ?_ }
  rcases mem_append.mp hx with hx | hx
  · exact h.racks x hx
  rw [mem_singleton] at hx
  subst hx
  refine ⟨_, by rw [hrecv.rack_eq, hcount], by simp, by simp only; omega, fun i hi => ?_⟩
  obtain ⟨r, hr, -⟩ := hrecv.held_at (by omega) (by omega) hi
  have := (List.getElem?_eq_some_iff.mp hr).1
  simp only
  omega

/-- The receiver takes a copy: it never finds it beyond its window, since the sender sends nothing
beyond eight unacknowledged cseqs and acknowledges only what was dispatched. -/
lemma NetInv.rel (hs : n.stopped = none) {k : Nat} {p : Bytes} (hx : (k, p) ∈ n.rels)
    (hage : n.nextIdx base < k + 2 ^ 31) (fseq : UInt32) :
    ∃ m', NetInv mux E s₀ base u m' { n with
      rcv := (relOnRel mux E n.rcv p fseq).1, stopped := (relOnRel mux E n.rcv p fseq).2 } := by
  obtain ⟨i, r, hkp, hr⟩ := h.rels _ hx
  obtain ⟨rfl, rfl⟩ := Prod.mk.inj hkp
  obtain ⟨hrecv, hdr⟩ := h.recv hs
  have hi := (List.getElem?_eq_some_iff.mp hr).1
  have h1 := h.window
  have h2 := h.acked
  have h3 := h.cum_le
  unfold RelNet.nextIdx at hage
  have hget : n.sealed[base + 1 + i - base - 1]? = some r := by
    rw [← hr]
    congr 1
    omega
  cases hd : relOnRel mux E n.rcv (putRel r) fseq with
  | mk c' out =>
    obtain ⟨hgo, hstop⟩ := relOnRel_spec E hrecv hdr (by omega) hget (by omega) (by omega) hd
    cases out with
    | some v =>
      obtain ⟨hlog, c0, r0, f0, hc0, -, hdis⟩ := hstop v rfl
      refine ⟨m, { h with recv := ?_, log := hlog, stop := ?_ }⟩
      · intro hn
        cases hn
      intro v' hv'
      obtain rfl := Option.some.inj hv'
      -- the refused frame is one of the sealed ones, so its payload parses
      have hmem : r0 ∈ n.sealed :=
        (hlog.trans (upToClose_initial _)).subset (by rw [hc0]; simp)
      obtain ⟨j, hj⟩ := getElem?_of_mem hmem
      obtain ⟨f, hf, rfl⟩ := h.sealed j r0 hj
      exact relDispatch_refused hf.close hf.goAway hdis
    | none =>
      obtain ⟨m', hm', hinv', hdr', -⟩ := hgo rfl
      refine ⟨m', { h with
        acked := by omega, cum_le := hinv'.length_le, recv := fun _ => ⟨hinv', hdr'⟩,
        log := hinv'.log, racks := ?_, stop := ?_ }⟩
      · intro x hx
        obtain ⟨held, hp, hb, hm, hbits⟩ := h.racks x hx
        exact ⟨held, hp, hb, by omega, hbits⟩
      · intro v hv
        cases hv

/-- The sender takes a RACK: it names nothing unsent, and a stale one moves nothing. -/
lemma NetInv.onRack {k : Nat} {p : Bytes} (hx : (k, p) ∈ n.racks)
    (hage : n.nextIdx base < k + 2 ^ 31) :
    ∃ snd u', n.snd.onRack p = some snd ∧ NetInv mux E s₀ base u' m { n with snd := snd } := by
  obtain ⟨held, hp, hb, hm, hbits⟩ := h.racks _ hx
  simp only at hp hb hm hbits
  subst hp
  have h1 := h.una_le
  have h2 := h.window
  have h3 := h.cum_le
  unfold RelNet.nextIdx at hage
  have hparse : parseRack (putRack ⟨wrap k, sackOf held⟩) = .ok ⟨wrap k, sackOf held⟩ := by
    obtain ⟨b, hb, hok⟩ := rack_codec.parse_put _ (sackOf_canonical held (wrap k))
    obtain rfl := Option.some.inj hb
    exact hok
  have hcum : seqLess (n.snd.next - 1) (wrap k) = false := by
    rw [h.next, wrap_pred (by omega), seqLess_wrap (by omega) (by omega)]
    simp only [decide_eq_false_iff_not]
    omega
  have hsack : ((List.range (relWindow - 1)).any fun i =>
      sackOf held &&& (1 <<< UInt32.ofNat i) ≠ 0 ∧
        !seqLess (wrap k + 2 + UInt32.ofNat i) n.snd.next) = false := by
    rw [any_eq_false]
    intro i hi
    have hi7 : i < 7 := mem_range.mp hi
    simp only [decide_eq_true_eq, not_and, Bool.not_eq_true, Bool.not_eq_false']
    intro hbit
    have hheld := hbits ⟨i, hi7⟩ ((sackOf_bit held ⟨i, hi7⟩).mp hbit)
    simp only at hheld
    rw [show (2 : UInt32) = UInt32.ofNat 2 from rfl, wrap_add, wrap_add, h.next,
      seqLess_wrap (by omega) (by omega)]
    simp only [decide_eq_true_eq]
    omega
  have huna : seqLess (wrap k) n.snd.una = decide (k < u) := by
    rw [h.una, seqLess_wrap (by omega) (by omega)]
  by_cases hk : k < u
  · refine ⟨n.snd, u, ?_, h⟩
    rw [RelSend.onRack, hparse]
    simp only [hcum, hsack, huna, hk, decide_true, Bool.not_true, Bool.false_eq_true, if_false]
  refine ⟨{ n.snd with una := wrap k + 1 }, k + 1, ?_, ?_⟩
  · rw [RelSend.onRack, hparse]
    simp only [hcum, hsack, huna, hk, decide_false, Bool.not_false, Bool.false_eq_true, if_false,
      if_true]
  refine { h with
    una := wrap_succ k, first := by omega, una_le := by simp only; omega,
    window := by simp only; omega, acked := by omega, slots := ?_ }
  intro i r hr hu
  exact h.slots i r hr (by omega)

/-- **One step.** -/
lemma NetInv.step (ev : RelEv) : ∃ u' m', NetInv mux E s₀ base u' m' (n.step mux E base ev) := by
  cases ev with
  | relSeal f =>
    simp only [RelNet.step]
    split_ifs with hc
    · exact ⟨u, m, h.relSeal hc.1 hc.2⟩
    · exact ⟨u, m, h⟩
  | retx =>
    simp only [RelNet.step]
    split_ifs with hc
    · exact ⟨u, m, h.retx hc⟩
    · exact ⟨u, m, h⟩
  | rack =>
    simp only [RelNet.step]
    split_ifs with hc
    · exact ⟨u, m, h⟩
    · exact ⟨u, m, h.rack (by simpa using hc)⟩
  | rel i fseq =>
    simp only [RelNet.step]
    split
    · exact ⟨u, m, h⟩
    rename_i k p hx
    split_ifs with hc
    · exact ⟨u, m, h⟩
    rw [not_or] at hc
    obtain ⟨m', h'⟩ := h.rel (by simpa using hc.1) (mem_of_getElem? hx)
      (Nat.lt_of_not_le hc.2) fseq
    exact ⟨u, m', h'⟩
  | onRack i =>
    simp only [RelNet.step]
    split
    · exact ⟨u, m, h⟩
    rename_i k p hx
    split_ifs with hc
    · exact ⟨u, m, h⟩
    rw [not_or] at hc
    obtain ⟨snd, u', hsnd, h'⟩ := h.onRack (mem_of_getElem? hx) (Nat.lt_of_not_le hc.2)
    rw [hsnd]
    exact ⟨u', m, h'⟩

end

/-- **Every run.** -/
lemma NetInv.run (mux : Bool) (E : Endpoint σ) (s₀ : σ) (base : Nat) (evs : List RelEv) :
    ∃ u m, NetInv mux E s₀ base u m
      (runFrom (RelNet.step mux E base) (RelNet.init base s₀) evs) :=
  runFrom_inv (fun n => ∃ u m, NetInv mux E s₀ base u m n) ⟨base + 1, base, NetInv.init⟩
    fun _ ev _ ⟨_, _, h⟩ => h.step ev

end Steps

theorem rel_exactly_once (mux : Bool) (E : Endpoint σ) (s₀ : σ) (base : Nat) (evs : List RelEv) :
    let n := runFrom (RelNet.step mux E base) (RelNet.init base s₀) evs
    -- what was dispatched is an initial part of what was sealed, up to the first CLOSE
    n.rcv.log <+: upToClose n.sealed ∧
    (∀ i r, n.sealed[i]? = some r → r.head.cseq = wrap (base + 1 + i)) ∧
    -- at most eight outstanding, their slots intact
    (0 ≤ int32 (n.snd.next - n.snd.una) ∧ int32 (n.snd.next - n.snd.una) ≤ relWindow) ∧
    (∀ i r, n.sealed[i]? = some r → n.sealed.length ≤ i + (n.snd.next - n.snd.una).toNat →
      n.snd.slot (relIndex r.head.cseq) = putRel r) ∧
    -- a RACK of this state names the last cseq dispatched, and cseqs that are held
    (n.stopped = none → n.rcv.rack.cumAck = wrap (base + n.rcv.log.length) ∧
      ∀ i : Fin 7, n.rcv.rack.sack &&& (1 <<< UInt32.ofNat i) ≠ 0 →
        ∃ r ∈ n.sealed, r.head.cseq = n.rcv.rack.cumAck + 2 + UInt32.ofNat i ∧
          n.rcv.heldMask (relIndex r.head.cseq) = true ∧
          (n.rcv.held (relIndex r.head.cseq)).payload = putRel r) ∧
    -- no violation: the reader stops only when the endpoint refuses a frame
    n.rackBad = false ∧ ∀ v, n.stopped = some v → v = .refused := by
  intro n
  obtain ⟨u, m, h⟩ : ∃ u m, NetInv mux E s₀ base u m n := NetInv.run mux E s₀ base evs
  have h1 := h.una_le
  have h2 := h.window
  have hseq : ∀ i r, n.sealed[i]? = some r → r.head.cseq = wrap (base + 1 + i) := by
    intro i r hr
    obtain ⟨f, -, rfl⟩ := h.sealed i r hr
    rfl
  refine ⟨h.log, hseq, ?_, ?_, ?_, h.good, h.stop⟩
  · rw [h.next, h.una, int32_wrap_sub (by omega) (by omega)]
    simp only [relWindow]
    omega
  · intro i r hr hout
    rw [h.next, h.una, toNat_wrap_sub h1 (by omega)] at hout
    rw [hseq i r hr]
    exact h.slots i r hr (by omega)
  intro hs
  obtain ⟨hrecv, -⟩ := h.recv hs
  rw [hrecv.rack_eq, ← hrecv.count]
  refine ⟨rfl, fun i hi => ?_⟩
  have hheld := (sackOf_bit _ i).mp hi
  obtain ⟨r, hr, hp⟩ := hrecv.held_at (by omega) (by omega) hheld
  have hidx : base + 1 + (m + 2 + i - base - 1) = m + 2 + i := by
    have := hrecv.count
    omega
  have hr' := hseq _ r hr
  rw [hidx] at hr'
  refine ⟨r, mem_of_getElem? hr, ?_, by rw [hr']; exact hheld, by rw [hr']; exact hp⟩
  rw [hr', show (2 : UInt32) = UInt32.ofNat 2 from rfl, wrap_add, wrap_add]

end Rendr.Carrier

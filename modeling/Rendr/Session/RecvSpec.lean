import Rendr.Session.Place

/-!
# What one receive step does

The specification of the receive functions over `Rx`. `Rx.Wf` is what every receive state
satisfies, whatever the peer sends: the queues are well formed from some offset at or below
`rRead`, consumed segments are released unless a Read still copies, and a Read in progress views
bytes that are still there.

* `recvData_outcome`: the six ways a DATA frame can go, each with the condition that selects it;
* `accept_spec`: what an admitted frame does to the bytes held;
* `Rx.Wf.recvData`, `Rx.Wf.readView`, `Rx.Wf.readCommit`, …: every step keeps `Rx.Wf`.
-/

namespace Rendr

open List Queues Rx

namespace Rx

/-- What every receive state satisfies, whatever the peer sends. -/
structure Wf (rx : Rx) : Prop where
  /-- the queues are well formed, and nothing from `rRead` on was released -/
  queues : ∃ a, a ≤ rx.rRead ∧ rx.toQueues.Wf a
  read_le : rx.rRead ≤ rx.rTail
  /-- every consumed segment is released, unless a Read in progress is to do it -/
  released : rx.rfreePending = false → Queues.Behind rx.rRead rx.inq.toList
  free_copying : rx.rfreePending = true → rx.rcopying = true
  free_why : rx.rfreePending = true → rx.closed = true ∨ rx.ended = true
  discard_eq : rx.discard = rx.closed
  /-- a Read in progress viewed bytes that are still unread and in order -/
  view : rx.rcopying = true → rx.closed = false →
    ∀ {i v}, rx.rview[i]? = some v → rx.rRead + i < rx.rTail ∧ Holds rx.inq.toList (rx.rRead + i) v

/-- The state without its ACK bookkeeping and counters, which `Rx.Wf` does not look at. -/
def core (rx : Rx) : Rx :=
  { rx with
    dupBytes := 0, discardedAfterClose := false, peerFinDelivered := false, ackGen := 0
    ackBumped := 0, ackDelay := false, ackFinDelivered := false, ackDone := false
    ackOnData := false }

lemma bumpNow_core (rx : Rx) : rx.bumpNow.core = rx.core := rfl

variable (p : Params)

lemma ackCadence_core (rx : Rx) : (rx.ackCadence p).core = rx.core := by
  rw [ackCadence]
  split
  · rfl
  · split <;> rfl

lemma peerFinCheck_core (rx : Rx) : rx.peerFinCheck.core = rx.core := by
  rw [peerFinCheck]
  split <;> rfl

lemma raceDup_core (n : Nat) (whole : Bool) (rx : Rx) :
    (rx.raceDup p n whole).core = rx.core := by
  rw [raceDup]
  split <;> rfl

/-- States with one core agree on every field the core keeps. -/
lemma core_eq {rx rx' : Rx} (h : rx'.core = rx.core) :
    rx'.toQueues = rx.toQueues ∧ rx'.rRead = rx.rRead ∧ rx'.rightEdge = rx.rightEdge ∧
      rx'.peerFin = rx.peerFin ∧ rx'.pending = rx.pending ∧ rx'.closed = rx.closed ∧
      rx'.ended = rx.ended ∧ rx'.discard = rx.discard ∧ rx'.rcopying = rx.rcopying ∧
      rx'.rview = rx.rview ∧ rx'.rfreePending = rx.rfreePending := by
  have h1 := congrArg toQueues h
  have h2 := congrArg rRead h
  have h3 := congrArg rightEdge h
  have h4 := congrArg peerFin h
  have h5 := congrArg pending h
  have h6 := congrArg closed h
  have h7 := congrArg ended h
  have h8 := congrArg discard h
  have h9 := congrArg rcopying h
  have h10 := congrArg rview h
  have h11 := congrArg rfreePending h
  exact ⟨h1, h2, h3, h4, h5, h6, h7, h8, h9, h10, h11⟩

/-- The fields `Rx.Wf` looks at. -/
def wfPart (rx : Rx) : Queues × Nat × Bool × Bool × List Byte × Bool × Bool × Bool :=
  (rx.toQueues, rx.rRead, rx.rfreePending, rx.rcopying, rx.rview, rx.discard, rx.closed, rx.ended)

lemma Wf.congr {rx rx' : Rx} (hw : rx.Wf) (h : rx'.wfPart = rx.wfPart) : rx'.Wf := by
  simp only [wfPart, Prod.mk.injEq] at h
  obtain ⟨h1, h2, h3, h4, h5, h6, h7, h8⟩ := h
  constructor
  · rw [h1, h2]
    exact hw.queues
  · rw [h1, h2]
    exact hw.read_le
  · rw [h1, h2, h3]
    exact hw.released
  · rw [h3, h4]
    exact hw.free_copying
  · rw [h3, h7, h8]
    exact hw.free_why
  · rw [h6, h7]
    exact hw.discard_eq
  · rw [h1, h2, h4, h5, h7]
    exact fun hc hcl => hw.view hc hcl

lemma Wf.of_core {rx rx' : Rx} (hw : rx.Wf) (h : rx'.core = rx.core) : rx'.Wf := by
  obtain ⟨h1, h2, _, _, _, h3, h4, h5, h6, h7, h8⟩ := core_eq h
  exact hw.congr (by simp only [wfPart, h1, h2, h3, h4, h5, h6, h7, h8])

/-- The bytes a receive state holds from `rRead` on: what Read can still return, or what waits
out of order. -/
def Holding (rx : Rx) (x : Nat) (v : Byte) : Prop := rx.rRead ≤ x ∧ rx.toQueues.Held x v

lemma init_wf (pending : Bool) : (init p pending).Wf := by
  refine ⟨⟨p.firstOffset, le_rfl, rfl, trivial⟩, le_rfl, ?_, ?_, ?_, rfl, ?_⟩
  · intro _ sg hs
    simp [init] at hs
  · intro h
    simp [init] at h
  · intro h
    simp [init] at h
  · intro h
    simp [init] at h

/-! ### The outcome of a DATA frame -/

/-- The frame lies inside the offsets, the window and the peer's FIN. -/
structure InRange (rx : Rx) (f : DataFrame) : Prop where
  ne_nil : f.p ≠ []
  no_wrap : f.off + f.p.length < 2 ^ 64
  window : f.off + f.p.length ≤ rx.rightEdge
  fin : ∀ fin ∈ rx.peerFin, f.off + f.p.length ≤ fin

/-- The frame agrees with every byte of its range that is held and not yet read. -/
def AgreesWith (rx : Rx) (f : DataFrame) : Prop :=
  ∀ x v, f.off ≤ x → x < f.off + f.p.length → rx.Holding x v → f.p[x - f.off]? = some v

/-- **The six ways a DATA frame can go.** -/
inductive Outcome (p : Params) (f : DataFrame) (rx : Rx) : Rx × Option Violation → Prop
  | length (h : f.p = [] ∨ 2 ^ 64 ≤ f.off + f.p.length) : Outcome p f rx (rx, some .dataLength)
  | window (h : rx.rightEdge < f.off + f.p.length) : Outcome p f rx (rx, some .window)
  | beyondFin (fin : Nat) (hf : rx.peerFin = some fin) (h : fin < f.off + f.p.length) :
    Outcome p f rx (rx, some .dataBeyondFin)
  | conflict (hr : rx.InRange f) (h : ¬ rx.AgreesWith f) : Outcome p f rx (rx, some p.conflictErr)
  | duplicate (hr : rx.InRange f) (ha : rx.AgreesWith f) (h : f.off + f.p.length ≤ rx.rTail) :
    Outcome p f rx (rx.raceDup p f.p.length true, none)
  | admitted (hr : rx.InRange f) (ha : rx.AgreesWith f) (h : rx.rTail < f.off + f.p.length) :
    Outcome p f rx (rx.accept p f, none)

variable {rx : Rx}

/-- The in-order comparison of `recvData` decides agreement with the unread in-order bytes. -/
private lemma inq_compare {f : DataFrame} (hw : rx.Wf) :
    (f.off < rx.rTail ∧ max f.off rx.rRead < min (f.off + f.p.length) rx.rTail ∧
      ringEqual rx.inq.toList (max f.off rx.rRead)
        (slice f.p (max f.off rx.rRead - f.off) (min (f.off + f.p.length) rx.rTail - f.off)) =
          false) ↔
      ¬ ∀ x v, f.off ≤ x → x < f.off + f.p.length → rx.rRead ≤ x → Holds rx.inq.toList x v →
        f.p[x - f.off]? = some v := by
  obtain ⟨a, ha, hq⟩ := hw.queues
  rw [← not_iff_not, not_not]
  by_cases hlt : max f.off rx.rRead < min (f.off + f.p.length) rx.rTail
  · have hoff : f.off < rx.rTail := by omega
    simp only [hoff, hlt, true_and, Bool.not_eq_false]
    have hlen : (slice f.p (max f.off rx.rRead - f.off)
        (min (f.off + f.p.length) rx.rTail - f.off)).length =
          min (f.off + f.p.length) rx.rTail - max f.off rx.rRead := by
      rw [length_slice (by omega)]
      omega
    rw [ringEqual_iff hq.chain (by omega), hlen]
    constructor
    · intro h x v h1 h2 h3 h4
      have hb := hq.chain.holds_bounds h4
      exact slice_payload (Nat.le_max_left _ _) (by omega) (h x v (by omega) (by omega) h4)
    intro h x v h1 h2 h3
    have := h x v (by omega) (by omega) (by omega) h3
    rw [getElem?_slice, if_pos (by omega), ← this]
    congr 1
    omega
  -- no unread in-order byte lies in the frame's range
  constructor
  · intro _ x v h1 h2 h3 h4
    have hb := hq.chain.holds_bounds h4
    omega
  · intro _ h
    exact hlt h.2.1

lemma recvData_outcome (f : DataFrame) (hw : rx.Wf) : Outcome p f rx (recvData p f rx) := by
  have h64 := f.off_lt
  have h63 := f.len_lt
  rw [recvData]
  dsimp only
  split
  next h =>
    refine .length (h.imp (fun h => length_eq_zero_iff.mp h) fun h => ?_)
    by_contra hc
    rw [Nat.mod_eq_of_lt (by omega)] at h
    omega
  rename_i hlen
  rw [not_or] at hlen
  have hne : f.p ≠ [] := fun h => hlen.1 (by rw [h]; rfl)
  have hwrap : f.off + f.p.length < 2 ^ 64 := by
    by_contra hc
    rw [Nat.mod_eq_sub_mod (by omega), Nat.mod_eq_of_lt (by omega)] at hlen
    omega
  rw [Nat.mod_eq_of_lt hwrap]
  split
  next h => exact .window h
  rename_i hwin
  split
  next h =>
    obtain ⟨fin, hfin, hlt⟩ := (Option.any_eq_true _ _).mp h
    exact .beyondFin fin hfin (by simpa using hlt)
  rename_i hfin
  have hr : rx.InRange f := by
    refine ⟨hne, hwrap, by omega, fun fin hf => ?_⟩
    by_contra hc
    exact hfin ((Option.any_eq_true _ _).mpr ⟨fin, hf, by simpa using hc⟩)
  obtain ⟨a, ha, hq⟩ := hw.queues
  have hin := inq_compare (f := f) hw
  split
  next h =>
    refine .conflict hr fun hag => hin.mp h fun x v h1 h2 h3 h4 => ?_
    exact hag x v h1 h2 ⟨h3, .inl h4⟩
  rename_i hcmp
  have hcmp := not_not.mp fun hc => hcmp (hin.mpr hc)
  split
  next hdup =>
    rw [Nat.add_sub_cancel_left]
    refine .duplicate hr (fun x v h1 h2 h3 => ?_) hdup.2
    rcases h3.2 with h4 | h4
    · exact hcmp x v h1 h2 h3.1 h4
    · have := hq.asc.holds_bounds h4
      omega
  rename_i hnew
  have htail : rx.rTail < f.off + f.p.length := by
    have := length_pos_iff.mpr hne
    by_contra hc
    exact hnew ⟨by omega, by omega⟩
  have hout := @listEqual_iff _ _ f.off f.p hq.asc
  split
  next h =>
    refine .conflict hr fun hag => ?_
    rw [Bool.eq_false_iff] at h
    refine h (hout.mpr fun x v h1 h2 h3 => hag x v h1 h2 ⟨?_, .inr h3⟩)
    have := hq.asc.holds_bounds h3
    have := hw.read_le
    omega
  next h =>
  rw [Bool.not_eq_false] at h
  refine .admitted hr (fun x v h1 h2 h3 => ?_) htail
  rcases h3.2 with h4 | h4
  · exact hcmp x v h1 h2 h3.1 h4
  · exact hout.mp h x v h1 h2 h4

/-! ### Discarding and shedding -/

/-- The fields no DATA frame changes. -/
def ctl (rx : Rx) : Nat × Option Nat × Bool × Bool × Bool × Bool × Bool × List Byte :=
  (rx.rightEdge, rx.peerFin, rx.pending, rx.closed, rx.ended, rx.discard, rx.rcopying, rx.rview)

lemma ctl_of_core {rx rx' : Rx} (h : rx'.core = rx.core) : rx'.ctl = rx.ctl := by
  obtain ⟨_, _, h1, h2, h3, h4, h5, h6, h7, h8, _⟩ := core_eq h
  simp only [ctl, h1, h2, h3, h4, h5, h6, h7, h8]

lemma ctl_eq {rx rx' : Rx} (h : rx'.ctl = rx.ctl) :
    rx'.rightEdge = rx.rightEdge ∧ rx'.peerFin = rx.peerFin ∧ rx'.pending = rx.pending ∧
      rx'.closed = rx.closed ∧ rx'.ended = rx.ended ∧ rx'.discard = rx.discard ∧
      rx'.rcopying = rx.rcopying ∧ rx'.rview = rx.rview := by
  simpa only [ctl, Prod.mk.injEq] using h

/-- What `consumeAll` does to a closed session. -/
structure ConsumedAll (rx rx' : Rx) : Prop where
  wf : rx'.Wf
  ctl : rx'.ctl = rx.ctl
  read : rx'.rRead = rx.rTail
  queues : Queues.Released rx.rTail rx.toQueues rx'.toQueues

lemma consumeAll_spec (hw : rx.Wf) (hcl : rx.closed = true) :
    ConsumedAll rx (rx.consumeAll p).2 := by
  obtain ⟨a, ha, hq⟩ := hw.queues
  rw [consumeAll]
  have hle := hw.read_le
  split
  · -- nothing to consume
    have heq : rx.rRead = rx.rTail := by omega
    refine ⟨hw, rfl, heq, ⟨⟨a, by omega, hq⟩, rfl, rfl, rfl, id, fun _ => id⟩⟩
  -- the ACK bookkeeping at the end leaves the core alone
  have hcore : ∀ r : Rx, (r.ackCadence p).peerFinCheck.core = r.core := fun r =>
    (peerFinCheck_core _).trans (ackCadence_core p r)
  have finish : ∀ r : Rx, ConsumedAll rx r → ConsumedAll rx (r.ackCadence p).peerFinCheck := by
    intro r hr
    obtain ⟨h1, h2, _⟩ := core_eq (hcore r)
    exact ⟨hr.wf.of_core (hcore r), (ctl_of_core (hcore r)).trans hr.ctl, h2.trans hr.read,
      h1 ▸ hr.queues⟩
  apply finish
  split
  · -- a Read copies: it releases at its commit
    rename_i hcopy
    refine ⟨⟨⟨a, by dsimp only; omega, hq⟩, le_rfl, fun h => by simp at h,
      fun _ => hcopy, fun _ => .inl hcl, hw.discard_eq, fun _ h => ?_⟩, rfl, rfl,
      ⟨⟨a, by omega, hq⟩, rfl, rfl, rfl, id, fun _ => id⟩⟩
    rw [show _ = true from hcl] at h
    simp at h
  next hcopy =>
  have hc := releaseConsumed_spec rx.rTail hq (by omega)
  refine ⟨⟨hc.wf, le_of_eq hc.tail.symm, fun _ => hc.behind, fun h => hw.free_copying h,
    fun _ => .inl hcl, hw.discard_eq, fun _ h => ?_⟩, rfl, rfl, hc.toReleased⟩
  rw [show _ = true from hcl] at h
  simp at h

/-- A state whose queues shed stays well formed. -/
lemma Wf.shed (hw : rx.Wf) (lim : Int) : Wf { rx with toQueues := rx.toQueues.shed lim } := by
  obtain ⟨a, ha, hq⟩ := hw.queues
  have hinq := shed_inq rx.toQueues lim
  have htail := shed_tail rx.toQueues lim
  refine ⟨⟨a, ha, shed_wf lim hq⟩, ?_, ?_, hw.free_copying, hw.free_why, hw.discard_eq, ?_⟩
  · rw [htail]
    exact hw.read_le
  · rw [hinq]
    exact hw.released
  · rw [hinq, htail]
    exact fun h1 h2 => hw.view h1 h2

/-! ### Accepting a frame -/

/-- The out-of-order segments a DATA call sheds: what its placement left and the call ends
without. -/
def shedSegs (p : Params) (f : DataFrame) (rx : Rx) : List Seg :=
  (rx.toQueues.place (rx.recvLimit p) f).ooq.drop (rx.accept p f).ooq.length

/-- What accepting the frame `f` does to a receive state. -/
structure Accepted (p : Params) (f : DataFrame) (rx rx' : Rx) : Prop where
  wf : rx'.Wf
  ctl : rx'.ctl = rx.ctl
  tail_le : rx.rTail ≤ rx'.rTail
  /-- what became in order was held or is in the frame -/
  grown : ∀ x, rx.rTail ≤ x → x < rx'.rTail →
    (∃ v, rx.Held x v) ∨ (f.off ≤ x ∧ x < f.off + f.p.length)
  /-- in-order data inside the window is always taken -/
  taken : f.off ≤ rx.rTail → f.off + f.p.length ≤ rx'.rTail
  /-- nothing is held that was not held or sent -/
  only : ∀ {x v}, rx'.Held x v → rx.Held x v ∨ (f.off ≤ x ∧ f.p[x - f.off]? = some v)
  /-- a held byte stays, is shed, or is consumed by a closed session -/
  keeps : ∀ {x v}, rx.Held x v →
    rx'.Held x v ∨ Holds (shedSegs p f rx) x v ∨ (rx.discard = true ∧ x < rx'.rRead)
  read_le : rx.rRead ≤ rx'.rRead
  read_open : rx.discard = false → rx'.rRead = rx.rRead
  /-- with nothing held out of order, in-order data leaves nothing out of order and drops
  nothing -/
  inOrder : f.off ≤ rx.rTail → rx.ooq = [] →
    rx'.ooq = [] ∧ rx'.oooDropped = rx.oooDropped

/-- `accept` places the frame in a state with the same core; a moved end is dealt with by
`afterInOrder`. -/
lemma accept_eq (f : DataFrame) (rx : Rx) :
    ∃ rx1 : Rx, rx1.core = rx.core ∧
      rx.accept p f =
        if (rx.toQueues.place (rx.recvLimit p) f).rTail = rx.rTail then
          { rx1 with toQueues := rx.toQueues.place (rx.recvLimit p) f }
        else
          afterInOrder p { rx1 with toQueues := rx.toQueues.place (rx.recvLimit p) f } := by
  rw [accept]
  generalize hdup : max f.off rx.rTail - f.off + (f.off + f.p.length - max f.off rx.rTail -
    (heldIn rx.ooq (max f.off rx.rTail) (f.off + f.p.length)).newBytes) = dup
  have hcore : (if 0 < dup then rx.raceDup p dup false else rx).core = rx.core := by
    split
    · exact raceDup_core p dup false rx
    · rfl
  refine ⟨_, hcore, ?_⟩
  generalize (if 0 < dup then rx.raceDup p dup false else rx) = rx1 at hcore
  obtain ⟨h1, _, _, _, h5, _⟩ := core_eq hcore
  have hlim : rx1.recvLimit p = rx.recvLimit p := by rw [recvLimit, recvLimit, h5]
  rw [hlim, h1]

/-- A state whose queues grew by an agreeing frame stays well formed. -/
lemma Wf.grow (hw : rx.Wf) {q : Queues} {off : Nat} {bs : List Byte}
    (hq : ∀ a, rx.toQueues.Wf a → q.Wf a) (hg : Queues.Grows off bs rx.toQueues q) :
    Wf { rx with toQueues := q } := by
  obtain ⟨a, ha, hqa⟩ := hw.queues
  refine ⟨⟨a, ha, hq a hqa⟩, le_trans hw.read_le hg.tail_le,
    fun h => hg.behind hw.read_le (hw.released h), hw.free_copying, hw.free_why, hw.discard_eq, ?_⟩
  intro h1 h2 i v hv
  obtain ⟨h3, h4⟩ := hw.view h1 h2 hv
  refine ⟨lt_of_lt_of_le h3 hg.tail_le, ?_⟩
  -- a viewed byte lies below the old contiguous end, so it cannot be held out of order
  rcases hg.keeps (.inl h4) with h5 | h5
  · exact h5
  · have hb := (hq a hqa).asc.holds_bounds h5
    have := hg.tail_le
    omega

/-- What follows a placement that moved the contiguous end: a suffix `S` of the out-of-order list
is shed, and a closed session has consumed everything in order. -/
structure Settled (S : List Seg) (rx rx' : Rx) : Prop where
  wf : rx'.Wf
  ctl : rx'.ctl = rx.ctl
  tail : rx'.rTail = rx.rTail
  ooq : rx.ooq = rx'.ooq ++ S
  dropped : rx.ooq = [] → rx'.oooDropped = rx.oooDropped
  only : ∀ {x v}, rx'.Held x v → rx.Held x v
  keeps : ∀ {x v}, rx.Held x v →
    rx'.Held x v ∨ Holds S x v ∨ (rx.discard = true ∧ x < rx'.rRead)
  read_le : rx.rRead ≤ rx'.rRead
  read_open : rx.discard = false → rx'.rRead = rx.rRead

lemma Settled.of_core {S : List Seg} {rx r r' : Rx} (h : Settled S rx r)
    (hcore : r'.core = r.core) : Settled S rx r' := by
  obtain ⟨h1, h2, _⟩ := core_eq hcore
  refine ⟨h.wf.of_core hcore, (ctl_of_core hcore).trans h.ctl, ?_, ?_, ?_, ?_, ?_, ?_, ?_⟩
  · rw [h1]
    exact h.tail
  · rw [h1]
    exact h.ooq
  · rw [h1]
    exact h.dropped
  · rw [h1]
    exact h.only
  · rw [h1, h2]
    exact h.keeps
  · rw [h2]
    exact h.read_le
  · rw [h2]
    exact h.read_open

lemma Settled.shed (hw : rx.Wf) (lim : Int) :
    ∃ S, Settled S rx { rx with toQueues := rx.toQueues.shed lim } := by
  obtain ⟨⟨S, h1⟩, _, _, h4⟩ := shedLoop_spec lim rx.ooq.length rx.toQueues
  refine ⟨S, hw.shed lim, rfl, shed_tail _ _, h1, h4, shed_held lim, fun hx => ?_,
    le_rfl, fun _ => rfl⟩
  rcases hx with hx | hx
  · refine .inl (.inl ?_)
    rw [shed_inq]
    exact hx
  rw [h1, holds_append] at hx
  rcases hx with hx | hx
  · exact .inl (.inr hx)
  · exact .inr (.inl hx)

lemma afterInOrder_spec (hw : rx.Wf) : ∃ S, Settled S rx (rx.afterInOrder p) := by
  rw [afterInOrder]
  by_cases hd : rx.discard = true
  · -- a closed session consumes everything in order, then sheds
    rw [if_pos hd]
    have hcl : rx.closed = true := by rw [← hw.discard_eq]; exact hd
    have hc := consumeAll_spec p hw hcl
    generalize rx.consumeAll p = dr at hc
    obtain ⟨d, r⟩ := dr
    dsimp only at hc ⊢
    have hcore : (if 0 < d then { r with discardedAfterClose := true } else r).core = r.core := by
      split <;> rfl
    generalize (if 0 < d then { r with discardedAfterClose := true } else r) = r1 at hcore
    obtain ⟨S, hs⟩ := Settled.shed (hc.wf.of_core hcore) (r1.recvLimit p)
    obtain ⟨h1, h2, _⟩ := core_eq hcore
    have hctl1 : r1.ctl = rx.ctl := (ctl_of_core hcore).trans hc.ctl
    have hread1 : r1.rRead = rx.rTail := h2.trans hc.read
    have hrel := hc.queues
    rw [← h1] at hrel
    generalize ({ r1 with toQueues := r1.toQueues.shed (r1.recvLimit p) } : Rx) = r2 at hs
    refine ⟨S, hs.wf, hs.ctl.trans hctl1, hs.tail.trans hrel.tail, hrel.ooq ▸ hs.ooq, fun hnil => ?_,
      fun hx => hrel.only (hs.only hx), fun hx => ?_, ?_, fun hf => ?_⟩
    · exact (hs.dropped (hrel.ooq.trans hnil)).trans hrel.dropped
    next x v =>
      by_cases hge : rx.rTail ≤ x
      · exact (hs.keeps (hrel.keeps hge hx)).imp_right (Or.imp_right fun h => ⟨hd, h.2⟩)
      · have := hs.read_le
        exact .inr (.inr ⟨hd, by omega⟩)
    · have := hs.read_le
      have := hw.read_le
      omega
    · rw [hd] at hf
      cases hf
  -- an open session sheds and may ask for an ACK
  rw [if_neg hd]
  obtain ⟨S, hs⟩ := Settled.shed hw (rx.recvLimit p)
  refine ⟨S, hs.of_core ?_⟩
  dsimp only
  split <;> rfl

lemma accept_spec {f : DataFrame} (hw : rx.Wf) (ha : rx.AgreesWith f) :
    Accepted p f rx (rx.accept p f) := by
  obtain ⟨a, hle, hq⟩ := hw.queues
  have hag : Queues.Agrees f rx.ooq := by
    intro x v h1 h2 h3
    refine ha x v h1 h2 ⟨?_, .inr h3⟩
    have := hq.asc.holds_bounds h3
    have := hw.read_le
    omega
  have hplace := fun b hb => (place_spec (a := b) (rx.recvLimit p) hb hag).1
  have hg := (place_spec (rx.recvLimit p) hq hag).2
  have htaken := place_inOrder (rx.recvLimit p) hq hag
  obtain ⟨rx1, hcore, heq⟩ := accept_eq p f rx
  -- the placed state, before anything is consumed or shed
  have hw2 : Wf { rx1 with toQueues := rx.toQueues.place (rx.recvLimit p) f } := by
    have := hw.grow hplace hg
    refine this.of_core ?_
    have h := congrArg (fun r : Rx =>
      { r with toQueues := rx.toQueues.place (rx.recvLimit p) f }) hcore
    exact h
  have hctl2 : ctl { rx1 with toQueues := rx.toQueues.place (rx.recvLimit p) f } = rx.ctl := by
    have h : rx1.ctl = rx.ctl := ctl_of_core hcore
    exact h
  have hread : rx1.rRead = rx.rRead := (core_eq hcore).2.1
  have hdisc : rx1.discard = rx.discard := (core_eq hcore).2.2.2.2.2.2.2.1
  -- an in-order frame leaves every held byte below the contiguous end
  have hooq : f.off ≤ rx.rTail → rx.ooq = [] →
      (rx.toQueues.place (rx.recvLimit p) f).ooq = [] := by
    intro ho hnil
    have hwf := hplace a hq
    cases hcase : (rx.toQueues.place (rx.recvLimit p) f).ooq with
    | nil => rfl
    | cons sg t =>
      exfalso
      have hasc := hwf.asc
      rw [hcase] at hasc
      obtain ⟨v, hv⟩ := Seg.has_of_bounds (Nat.le_refl sg.off) (Seg.lt_endOff hasc.2.1)
      have hheld : (rx.toQueues.place (rx.recvLimit p) f).Held sg.off v :=
        .inr (by rw [hcase]; exact (holds_cons ..).mpr (.inl hv))
      have hend := (htaken ho).1
      have hgt := hasc.1
      rcases hg.only hheld with (h | h) | ⟨h1, h2⟩
      · have := hq.chain.holds_bounds h
        have := hg.tail_le
        omega
      · simp [hnil] at h
      · have := (List.getElem?_eq_some_iff.mp h2).1
        omega
  -- every offset below the new contiguous end is held in order
  have hgrown : ∀ x, rx.rTail ≤ x → x < (rx.toQueues.place (rx.recvLimit p) f).rTail →
      (∃ v, rx.Held x v) ∨ (f.off ≤ x ∧ x < f.off + f.p.length) := by
    intro x h1 h2
    have := hq.chain.le
    obtain ⟨v, hv⟩ := (hplace a hq).chain.covers (by omega) h2
    rcases hg.only (.inl hv) with h | ⟨h3, h4⟩
    · exact .inl ⟨v, h⟩
    · have := (List.getElem?_eq_some_iff.mp h4).1
      exact .inr ⟨h3, by omega⟩
  generalize hq' : rx.toQueues.place (rx.recvLimit p) f = q' at *
  rw [heq]
  split
  · -- nothing became in order: nothing is consumed or shed
    exact
      { wf := hw2
        ctl := hctl2
        tail_le := hg.tail_le
        grown := hgrown
        taken := fun ho => (htaken ho).1
        only := hg.only
        keeps := fun hx => .inl (hg.keeps hx)
        read_le := le_of_eq hread.symm
        read_open := fun _ => hread
        inOrder := fun ho hnil => ⟨hooq ho hnil, (htaken ho).2⟩ }
  rename_i hmoved
  obtain ⟨S, hs⟩ := afterInOrder_spec p hw2
  have hshed : shedSegs p f rx = S := by
    rw [shedSegs, heq, hq', if_neg hmoved]
    have := hs.ooq
    dsimp only at this
    rw [this, drop_left]
  generalize afterInOrder p { rx1 with toQueues := q' } = r at hs
  refine
    { wf := hs.wf
      ctl := hs.ctl.trans hctl2
      tail_le := hs.tail ▸ hg.tail_le
      grown := fun x h1 h2 => hgrown x h1 (hs.tail ▸ h2)
      taken := fun ho => hs.tail ▸ (htaken ho).1
      only := fun hx => hg.only (hs.only hx)
      keeps := fun hx => ?_
      read_le := hread ▸ hs.read_le
      read_open := fun hd => (hs.read_open (hdisc.trans hd)).trans hread
      inOrder := fun ho hnil => ?_ }
  · rw [hshed, ← hdisc]
    exact hs.keeps (hg.keeps hx)
  have hnil' : q'.ooq = [] := hooq ho hnil
  have h1 : q'.ooq = r.ooq ++ S := hs.ooq
  rw [hnil'] at h1
  exact ⟨(append_eq_nil_iff.mp h1.symm).1, (hs.dropped hnil').trans (htaken ho).2⟩

/-! ### Every step keeps a receive state well formed -/

lemma Wf.peerFinCheck (hw : rx.Wf) : rx.peerFinCheck.Wf :=
  hw.of_core (peerFinCheck_core rx)

lemma Wf.ackCadence (hw : rx.Wf) : (rx.ackCadence p).Wf :=
  hw.of_core (ackCadence_core p rx)

lemma Wf.recvData (f : DataFrame) (hw : rx.Wf) : (recvData p f rx).1.Wf := by
  have h := recvData_outcome p f hw
  generalize Rx.recvData p f rx = r at h
  cases h with
  | length h | window h | beyondFin fin hf h | conflict hr h => exact hw
  | duplicate hr ha h => exact hw.of_core (raceDup_core p _ true rx)
  | admitted hr ha h => exact (accept_spec p hw ha).wf

/-- The bytes a Read views are the in-order bytes from `x` on, at most `want` of them. -/
lemma viewLoop_spec {c b : Nat} {l : List Seg} {nv x want : Nat} (hc : Chain c l b) (hx : c ≤ x)
    {i : Nat} {v : Byte} (h : (viewLoop l nv x want)[i]? = some v) :
    i < want ∧ Holds l (x + i) v := by
  induction l generalizing c nv x want i with
  | nil => simp [viewLoop] at h
  | cons sg t ih =>
    obtain ⟨h1, h2, h3⟩ := hc
    rw [viewLoop] at h
    split at h
    · simp at h
    rename_i hcond
    rw [not_or] at hcond
    split at h
    · -- wholly read
      rename_i hle
      obtain ⟨h4, h5⟩ := ih h3 hle h
      exact ⟨h4, (holds_cons ..).mpr (.inr h5)⟩
    rename_i hgt
    dsimp only at h
    have hend : sg.endOff = sg.off + sg.b.length := rfl
    have hvl : ((sg.b.drop (x - sg.off)).take want).length =
        min want (sg.b.length - (x - sg.off)) := by
      rw [length_take, length_drop]
    generalize hv' : (sg.b.drop (x - sg.off)).take want = v' at h hvl
    by_cases hi : i < v'.length
    · -- a byte of this segment
      rw [getElem?_append_left hi, ← hv', getElem?_take, if_pos (by omega),
        getElem?_drop] at h
      refine ⟨by omega, (holds_cons ..).mpr (.inl ⟨by omega, ?_⟩)⟩
      rw [← h]
      congr 1
      omega
    rw [getElem?_append_right (by omega)] at h
    by_cases hfull : v'.length = want
    · -- nothing more is wanted
      rw [hfull, Nat.sub_self] at h
      cases t with
      | nil | cons s t => simp [viewLoop] at h
    obtain ⟨h4, h5⟩ := ih (c := sg.endOff) h3 (by omega) h
    refine ⟨by omega, (holds_cons ..).mpr (.inr ?_)⟩
    rw [show x + i = x + v'.length + (i - v'.length) by omega]
    exact h5

lemma Wf.readView (len : Nat) (deadline : Bool) (hw : rx.Wf) :
    (readView len deadline rx).1.Wf := by
  rw [Rx.readView]
  split
  · exact hw
  rename_i hcopy
  -- every branch but the view leaves the state alone
  repeat' split
  all_goals try exact hw
  rename_i hlt
  obtain ⟨a, ha, hq⟩ := hw.queues
  refine { hw with queues := ⟨a, ha, hq⟩, free_copying := fun _ => rfl, view := ?_ }
  intro _ _ i v hv
  obtain ⟨h1, h2⟩ := viewLoop_spec hq.chain ha hv
  dsimp only
  exact ⟨by omega, h2⟩

/-- A Read in progress viewed no more than is in order. -/
lemma Wf.view_le (hw : rx.Wf) (hc : rx.rcopying = true) (hcl : rx.closed = false) :
    rx.rRead + rx.rview.length ≤ rx.rTail := by
  by_cases hnil : rx.rview = []
  · rw [hnil]
    exact hw.read_le
  have hpos := length_pos_iff.mpr hnil
  have hlt : rx.rview.length - 1 < rx.rview.length := by omega
  have := (hw.view hc hcl (getElem?_eq_getElem hlt)).1
  omega

lemma Wf.readCommit (hw : rx.Wf) : (readCommit p rx).1.Wf := by
  rw [Rx.readCommit]
  split
  · exact hw
  rename_i hcopy
  rw [Bool.not_eq_false] at hcopy
  obtain ⟨a, ha, hq⟩ := hw.queues
  dsimp only
  split
  · -- Close won
    rename_i hcl
    split
    · have hc := releaseConsumed_spec rx.rRead hq ha
      exact ⟨hc.wf, hc.tail ▸ hw.read_le, fun _ => hc.behind, fun h => by simp at h,
        fun h => by simp at h, hw.discard_eq, fun h => by simp at h⟩
    rename_i hfree
    rw [Bool.not_eq_true] at hfree
    exact ⟨⟨a, ha, hq⟩, hw.read_le, fun _ => hw.released hfree,
      fun h => by simp [hfree] at h, fun h => by simp [hfree] at h, hw.discard_eq,
      fun h => by simp at h⟩
  rename_i hcl
  rw [Bool.not_eq_true] at hcl
  have hle := hw.view_le hcopy hcl
  have hc := releaseConsumed_spec (rx.rRead + rx.rview.length) hq (by omega)
  split
  · -- the ordinary case: only the ACK bookkeeping follows
    rename_i hend
    have hfree : rx.rfreePending = false := by
      by_contra hf
      rw [Bool.not_eq_false] at hf
      rcases hw.free_why hf with h | h
      · simp [hcl] at h
      · simp [show rx.ended = false from hend] at h
    refine Wf.peerFinCheck (Wf.ackCadence p ?_)
    exact ⟨hc.wf, by dsimp only; rw [hc.tail]; exact hle, fun _ => hc.behind,
      fun h => by simp [hfree] at h, fun h => by simp [hfree] at h, hw.discard_eq,
      fun h => by simp at h⟩
  split
  · -- the session ended during the copy
    obtain ⟨h1, h2, h3⟩ := releaseRecv_spec
      (rx.toQueues.releaseConsumed (rx.rRead + rx.rview.length)) (rx.rRead + rx.rview.length)
    refine ⟨⟨rx.rRead + rx.rview.length, le_rfl, ⟨?_, ?_⟩⟩, ?_, ?_,
      fun h => by simp at h, fun h => by simp at h, hw.discard_eq, fun h => by simp at h⟩
    · rw [h1, h3]
      rfl
    · rw [h2]
      trivial
    · rw [h3]
    · intro _ sg hs
      rw [h1] at hs
      simp at hs
  next hfree =>
  rw [Bool.not_eq_true] at hfree
  have hfree : rx.rfreePending = false := hfree
  exact ⟨hc.wf, by dsimp only; rw [hc.tail]; exact hle, fun _ => hc.behind,
    fun h => by simp [hfree] at h, fun h => by simp [hfree] at h, hw.discard_eq,
    fun h => by simp at h⟩

lemma Wf.close (hw : rx.Wf) : (close p rx).Wf := by
  rw [Rx.close]
  split
  · exact hw
  · have hset : Wf { rx with closed := true, discard := true } :=
      { hw with free_why := fun _ => .inl rfl, discard_eq := rfl, view := fun _ h => by cases h }
    exact (consumeAll_spec p hset rfl).wf

lemma Wf.finish (hw : rx.Wf) : (finish rx).Wf := by
  rw [Rx.finish]
  split
  · exact hw
  obtain ⟨a, ha, hq⟩ := hw.queues
  dsimp only
  split
  next hcopy =>
    refine ⟨⟨a, ha, ⟨hq.chain, ?_⟩⟩, hw.read_le, fun h => by simp at h, fun _ => hcopy,
      fun _ => .inr rfl, hw.discard_eq, fun h1 h2 => hw.view h1 h2⟩
    rw [releaseOOO_ooq]
    trivial
  rename_i hcopy
  obtain ⟨h1, h2, h3⟩ := releaseRecv_spec rx.toQueues rx.rRead
  refine ⟨⟨rx.rRead, le_rfl, ⟨?_, ?_⟩⟩, ?_, ?_, hw.free_copying, fun _ => .inr rfl,
    hw.discard_eq, fun h => absurd h hcopy⟩
  · rw [h1, h3]
    rfl
  · rw [h2]
    trivial
  · rw [h3]
  · intro _ sg hs
    rw [h1] at hs
    simp at hs

lemma Wf.fin (off : Nat) (hw : rx.Wf) : (fin off rx).1.Wf := by
  rw [Rx.fin]
  split
  · split
    · exact hw
    split
    · exact hw.of_core (bumpNow_core rx)
    · exact hw
  split
  · exact hw
  split
  · exact hw
  · have hset : Wf { rx with peerFin := some off } := hw.congr rfl
    exact hset.peerFinCheck

end Rx

end Rendr

import Mathlib
import Rendr.Lib.Run
import Rendr.Session.RecvSpec

/-!
# Runs of the receive side

The receive side as a state machine: DATA frames, FINs, Reads (each its two critical sections),
Close, right-edge raises, the verdict that opens a pending session and the session's end, in any
order. The ghost `got` collects the bytes Read has returned.

When every frame carries the bytes of one stream `B`, everything held is `B`'s and what Read has
returned is an initial piece of `B`: the invariant `RecvInv`. Until Close that piece ends at
`rRead`; Close consumes the buffered bytes without a reader, so from then on `rRead` runs ahead.

* `recv_stream_exact`: the invariant's reading over every run;
* `recvData_first_copy`: whatever the peer sends, a DATA frame that contradicts a held byte is
  refused and changes nothing, and an accepted one changes no held byte.
-/

namespace Rendr

open List

/-- The receive side with the bytes Read has returned so far. -/
structure RecvState where
  rx : Rx
  got : List Byte

open RecvState

/-- A step of the receive side. -/
inductive RecvEv
  /-- one DATA frame -/
  | recv (f : DataFrame)
  /-- a FIN -/
  | fin (off : Nat)
  /-- the first critical section of a Read -/
  | readView (len : Nat) (deadline : Bool)
  /-- the second critical section of a Read -/
  | readCommit
  | close
  /-- a right edge is advertised -/
  | edge (e : Nat)
  /-- the verdict: a pending session opens -/
  | confirm
  /-- the session's end -/
  | finish

namespace RecvState

/-- The state before the first event. -/
def init (p : Params) (pending : Bool) : RecvState := { rx := Rx.init p pending, got := [] }

def step (p : Params) (s : RecvState) : RecvEv → RecvState
  | .recv f => { s with rx := (s.rx.recvData p f).1 }
  | .fin off => { s with rx := (s.rx.fin off).1 }
  | .readView len deadline => { s with rx := (s.rx.readView len deadline).1 }
  | .readCommit =>
    { rx := (s.rx.readCommit p).1
      got := match (s.rx.readCommit p).2 with
        | some (.ok bs) => s.got ++ bs
        | _ => s.got }
  | .close => { s with rx := s.rx.close p }
  | .edge e => { s with rx := { s.rx with rightEdge := max s.rx.rightEdge e } }
  | .confirm => { s with rx := { s.rx with pending := false } }
  | .finish => { s with rx := s.rx.finish }

end RecvState

variable {rx : Rx} (p : Params)

namespace Rx

/-! ### What the other steps do to the bytes held -/

/-- What a Read's commit does: nothing, or Close won, or it delivers the bytes viewed. -/
inductive Commit (rx : Rx) : Rx × Option ReadResult → Prop
  | idle (h : rx.rcopying = false) : Commit rx (rx, none)
  | closed (rx' : Rx) (hcl : rx.closed = true) (hread : rx'.rRead = rx.rRead)
    (hq : Queues.Released rx.rRead rx.toQueues rx'.toQueues) (hcl' : rx'.closed = true)
    (hend : rx'.ended = rx.ended) : Commit rx (rx', some .closed)
  | delivered (rx' : Rx) (hc : rx.rcopying = true) (hcl : rx.closed = false)
    (hread : rx'.rRead = rx.rRead + rx.rview.length)
    (honly : ∀ {x v}, rx'.Held x v → rx.Held x v)
    (hq : rx.ended = false → Queues.Released rx'.rRead rx.toQueues rx'.toQueues)
    (hcl' : rx'.closed = false) (hend : rx'.ended = rx.ended) :
    Commit rx (rx', some (.ok rx.rview))

lemma readCommit_cases (hw : rx.Wf) : Commit rx (rx.readCommit p) := by
  obtain ⟨a, ha, hq⟩ := hw.queues
  rw [readCommit]
  split
  · exact .idle ‹_›
  rename_i hcopy
  rw [Bool.not_eq_false] at hcopy
  dsimp only
  split
  next hcl =>
    refine .closed _ hcl ?_ ?_ ?_ ?_
    · split <;> rfl
    · split
      · exact (Queues.releaseConsumed_spec rx.rRead hq ha).toReleased
      · exact ⟨⟨a, ha, hq⟩, rfl, rfl, rfl, id, fun _ => id⟩
    · split <;> exact hcl
    · split <;> rfl
  rename_i hcl
  rw [Bool.not_eq_true] at hcl
  have hc := Queues.releaseConsumed_spec (rx.rRead + rx.rview.length) hq (by omega)
  split
  · -- the ACK bookkeeping leaves the core alone
    obtain ⟨h1, h2, _, _, _, h3, h4, _⟩ := core_eq ((peerFinCheck_core _).trans
      (ackCadence_core p
        { rx with
          rcopying := false, rview := [], rRead := rx.rRead + rx.rview.length
          delivered := rx.delivered + rx.rview.length
          toQueues := rx.toQueues.releaseConsumed (rx.rRead + rx.rview.length) }))
    exact .delivered _ hcopy hcl h2 (by rw [h1]; exact hc.only)
      (fun _ => by rw [h1, h2]; exact hc.toReleased) (h3.trans hcl) h4
  rename_i hend
  split
  · refine .delivered _ hcopy hcl rfl ?_ (fun h => absurd h hend) hcl rfl
    obtain ⟨h1, h2, _⟩ := Queues.releaseRecv_spec
      (rx.toQueues.releaseConsumed (rx.rRead + rx.rview.length)) (rx.rRead + rx.rview.length)
    intro x v h
    simp [Queues.Held, h1, h2] at h
  · exact .delivered _ hcopy hcl rfl hc.only (fun _ => hc.toReleased) hcl rfl

lemma readView_same (len : Nat) (deadline : Bool) (rx : Rx) :
    (rx.readView len deadline).1.toQueues = rx.toQueues ∧
      (rx.readView len deadline).1.rRead = rx.rRead ∧
      (rx.readView len deadline).1.closed = rx.closed ∧
      (rx.readView len deadline).1.ended = rx.ended := by
  rw [readView]
  repeat' split
  all_goals exact ⟨rfl, rfl, rfl, rfl⟩

/-- Close consumes what is in order; the bytes left are bytes held before. -/
lemma close_spec (hw : rx.Wf) :
    (rx.close p).closed = true ∧ (rx.close p).ended = rx.ended ∧ rx.rRead ≤ (rx.close p).rRead ∧
      ∀ {x v}, (rx.close p).Held x v → rx.Held x v := by
  rw [close]
  split
  · exact ⟨‹_›, rfl, le_rfl, id⟩
  have hset : Wf { rx with closed := true, discard := true } :=
    { hw with free_why := fun _ => .inl rfl, discard_eq := rfl, view := fun _ h => by cases h }
  have hc := consumeAll_spec p hset rfl
  refine ⟨(ctl_eq hc.ctl).2.2.2.1, (ctl_eq hc.ctl).2.2.2.2.1, ?_, hc.queues.only⟩
  rw [hc.read]
  exact hw.read_le

lemma finish_spec (rx : Rx) :
    (rx.finish).closed = rx.closed ∧ (rx.finish).ended = true ∧ (rx.finish).rRead = rx.rRead ∧
      ∀ {x v}, (rx.finish).Held x v → rx.Held x v := by
  rw [finish]
  split
  · exact ⟨rfl, ‹_›, rfl, id⟩
  dsimp only
  split
  · refine ⟨rfl, rfl, rfl, fun h => ?_⟩
    rcases h with h | h
    · exact .inl h
    · simp [Queues.releaseOOO_ooq] at h
  · obtain ⟨h1, h2, _⟩ := Queues.releaseRecv_spec rx.toQueues rx.rRead
    refine ⟨rfl, rfl, rfl, fun h => ?_⟩
    simp [Queues.Held, h1, h2] at h

lemma fin_same (off : Nat) (rx : Rx) :
    (rx.fin off).1.toQueues = rx.toQueues ∧ (rx.fin off).1.rRead = rx.rRead ∧
      (rx.fin off).1.closed = rx.closed ∧ (rx.fin off).1.ended = rx.ended := by
  have hcore : ∀ r r' : Rx, r'.core = r.core → r'.toQueues = r.toQueues ∧ r'.rRead = r.rRead ∧
      r'.closed = r.closed ∧ r'.ended = r.ended := by
    intro r r' h
    obtain ⟨h1, h2, _, _, _, h3, h4, _⟩ := core_eq h
    exact ⟨h1, h2, h3, h4⟩
  rw [fin]
  split
  · split
    · exact ⟨rfl, rfl, rfl, rfl⟩
    split
    · exact hcore rx _ (bumpNow_core rx)
    · exact ⟨rfl, rfl, rfl, rfl⟩
  split
  · exact ⟨rfl, rfl, rfl, rfl⟩
  · split
    · exact ⟨rfl, rfl, rfl, rfl⟩
    · exact hcore { rx with peerFin := some off } _ (peerFinCheck_core _)

end Rx

/-! ### One stream, received exactly -/

/-- The receive invariant for frames that carry the stream `B` from offset `first` on. -/
structure RecvInv (B : Nat → Byte) (first : Nat) (s : RecvState) : Prop where
  wf : s.rx.Wf
  /-- everything held is `B`'s -/
  holds : ∀ {x v}, s.rx.Held x v → v = B x
  /-- what Read returned is an initial piece of `B` -/
  got_eq : ∀ {i v}, s.got[i]? = some v → v = B (first + i)
  got_le : first + s.got.length ≤ s.rx.rRead
  /-- until Close that piece ends at `rRead` -/
  got_open : s.rx.closed = false → first + s.got.length = s.rx.rRead

namespace RecvInv

variable {B : Nat → Byte} {first : Nat} {s : RecvState}

lemma initial (pending : Bool) (B : Nat → Byte) :
    RecvInv B p.firstOffset (init p pending) := by
  refine ⟨Rx.init_wf p pending, fun h => ?_, fun h => ?_, le_rfl, fun _ => rfl⟩
  · rcases h with h | h <;> simp [init, Rx.init] at h
  · simp [init] at h

/-- A step that returns no bytes keeps the invariant if it keeps `rRead` until Close and holds
nothing foreign to `B`. -/
lemma quiet (h : RecvInv B first s) (hw : rx.Wf) (hh : ∀ {x v}, rx.Held x v → v = B x)
    (hle : s.rx.rRead ≤ rx.rRead)
    (hop : rx.closed = false → s.rx.closed = false ∧ rx.rRead = s.rx.rRead) :
    RecvInv B first { s with rx := rx } := by
  refine ⟨hw, hh, h.got_eq, le_trans h.got_le hle, fun hcl => ?_⟩
  obtain ⟨h1, h2⟩ := hop hcl
  exact (h.got_open h1).trans h2.symm

lemma step (h : RecvInv B first s) (ev : RecvEv)
    (hev : ∀ f, ev = .recv f → ∀ i v, f.p[i]? = some v → v = B (f.off + i)) :
    RecvInv B first (s.step p ev) := by
  cases ev with
  | recv f =>
    have hout := Rx.recvData_outcome p f h.wf
    simp only [RecvState.step]
    generalize s.rx.recvData p f = r at hout
    cases hout with
    | length _ | window _ | beyondFin _ _ _ | conflict _ _ => exact h
    | duplicate _ _ _ =>
      -- a whole duplicate is counted and answered
      obtain ⟨h1, h2, _, _, _, h3, _⟩ := Rx.core_eq (Rx.raceDup_core p f.p.length true s.rx)
      refine h.quiet (h.wf.of_core (Rx.raceDup_core p _ true s.rx)) ?_ (le_of_eq h2.symm)
        fun hcl => ⟨h3.symm.trans hcl, h2⟩
      rw [h1]
      exact h.holds
    | admitted _ ha _ =>
      have hacc := Rx.accept_spec p h.wf ha
      refine h.quiet hacc.wf (fun hx => ?_) hacc.read_le fun hcl => ?_
      · rcases hacc.only hx with hx | ⟨h1, h2⟩
        · exact h.holds hx
        · rw [hev f rfl _ _ h2]
          congr 1
          omega
      · have hcl' : s.rx.closed = false := (Rx.ctl_eq hacc.ctl).2.2.2.1.symm.trans hcl
        exact ⟨hcl', hacc.read_open (h.wf.discard_eq.trans hcl')⟩
  | fin off =>
    obtain ⟨h1, h2, h3, _⟩ := Rx.fin_same off s.rx
    refine h.quiet (h.wf.fin off) ?_ (le_of_eq h2.symm) fun hcl => ⟨h3.symm.trans hcl, h2⟩
    rw [h1]
    exact h.holds
  | readView len deadline =>
    obtain ⟨h1, h2, h3, _⟩ := Rx.readView_same len deadline s.rx
    refine h.quiet (h.wf.readView len deadline) ?_ (le_of_eq h2.symm)
      fun hcl => ⟨h3.symm.trans hcl, h2⟩
    rw [h1]
    exact h.holds
  | readCommit =>
    have hc := Rx.readCommit_cases p h.wf
    have hw := h.wf.readCommit p
    simp only [RecvState.step]
    generalize s.rx.readCommit p = r at hc hw
    cases hc with
    | idle _ => exact h
    | closed rx' hcl hread hq hcl' _ =>
      exact h.quiet hw (fun hx => h.holds (hq.only hx)) (le_of_eq hread.symm)
        fun hc => by rw [hcl'] at hc; cases hc
    | delivered rx' hcopy hcl hread honly _ hcl' _ =>
      -- the bytes viewed follow what was returned before
      have hop := h.got_open hcl
      refine ⟨hw, fun hx => h.holds (honly hx), fun {i v} hi => ?_, ?_, fun _ => ?_⟩
      · dsimp only at hi
        by_cases hlt : i < s.got.length
        · rw [getElem?_append_left hlt] at hi
          exact h.got_eq hi
        rw [getElem?_append_right (by omega)] at hi
        have := h.holds (.inl (h.wf.view hcopy hcl hi).2)
        rw [this]
        congr 1
        omega
      · dsimp only
        rw [length_append]
        omega
      · dsimp only
        rw [length_append]
        omega
  | close =>
    obtain ⟨h1, _, h2, h3⟩ := Rx.close_spec p h.wf
    exact h.quiet (h.wf.close p) (fun hx => h.holds (h3 hx)) h2
      fun hcl => by rw [h1] at hcl; cases hcl
  | edge e | confirm => exact h.quiet (h.wf.congr rfl) h.holds le_rfl fun hcl => ⟨hcl, rfl⟩
  | finish =>
    obtain ⟨h1, _, h2, h3⟩ := Rx.finish_spec s.rx
    exact h.quiet h.wf.finish (fun hx => h.holds (h3 hx)) (le_of_eq h2.symm)
      fun hcl => ⟨h1.symm.trans hcl, h2⟩

end RecvInv

/-- A read position that a step moves, a Close and the session's end are never taken back. -/
lemma RecvState.step_mono {s : RecvState} (hw : s.rx.Wf) (ev : RecvEv) :
    (s.step p ev).rx.Wf ∧ s.rx.rRead ≤ (s.step p ev).rx.rRead ∧
      (s.rx.closed = true → (s.step p ev).rx.closed = true ∧ (s.step p ev).got = s.got) ∧
      (s.rx.ended = true → (s.step p ev).rx.ended = true) := by
  cases ev with
  | recv f =>
    refine ⟨hw.recvData p f, ?_⟩
    have hout := Rx.recvData_outcome p f hw
    dsimp only [step]
    generalize s.rx.recvData p f = r at hout
    cases hout with
    | length _ | window _ | beyondFin _ _ _
    | conflict _ _ => exact ⟨le_rfl, fun h => ⟨h, rfl⟩, id⟩
    | duplicate _ _ _ =>
      obtain ⟨_, h1, _, _, _, h2, h3, _⟩ := Rx.core_eq (Rx.raceDup_core p f.p.length true s.rx)
      exact ⟨le_of_eq h1.symm, fun h => ⟨h2.trans h, rfl⟩, fun h => h3.trans h⟩
    | admitted _ ha _ =>
      have hacc := Rx.accept_spec p hw ha
      obtain ⟨_, _, _, h1, h2, _⟩ := Rx.ctl_eq hacc.ctl
      exact ⟨hacc.read_le, fun h => ⟨h1.trans h, rfl⟩, fun h => h2.trans h⟩
  | fin off =>
    obtain ⟨_, h1, h2, h3⟩ := Rx.fin_same off s.rx
    exact ⟨hw.fin off, le_of_eq h1.symm, fun h => ⟨h2.trans h, rfl⟩, fun h => h3.trans h⟩
  | readView len deadline =>
    obtain ⟨_, h1, h2, h3⟩ := Rx.readView_same len deadline s.rx
    exact ⟨hw.readView len deadline, le_of_eq h1.symm, fun h => ⟨h2.trans h, rfl⟩,
      fun h => h3.trans h⟩
  | readCommit =>
    have hc := Rx.readCommit_cases p hw
    have hw' := hw.readCommit p
    dsimp only [step]
    generalize s.rx.readCommit p = r at hc hw'
    cases hc with
    | idle _ => exact ⟨hw', le_rfl, fun h => ⟨h, rfl⟩, id⟩
    | closed rx' _ hread _ hcl' hend =>
      exact ⟨hw', le_of_eq hread.symm, fun _ => ⟨hcl', rfl⟩, fun h => hend.trans h⟩
    | delivered rx' _ hop hread _ _ _ hend =>
      refine ⟨hw', ?_, fun h => ?_, fun h => hend.trans h⟩
      · dsimp only
        omega
      · rw [hop] at h
        cases h
  | close =>
    obtain ⟨h1, h2, h3, _⟩ := Rx.close_spec p hw
    exact ⟨hw.close p, h3, fun _ => ⟨h1, rfl⟩, fun h => h2.trans h⟩
  | edge e | confirm => exact ⟨hw.congr rfl, le_rfl, fun h => ⟨h, rfl⟩, id⟩
  | finish =>
    obtain ⟨h1, h2, h3, _⟩ := Rx.finish_spec s.rx
    exact ⟨hw.finish, le_of_eq h3.symm, fun h => ⟨h1.trans h, rfl⟩, fun _ => h2⟩

/-- After Close no Read returns anything. -/
lemma RecvState.got_closed {s : RecvState} (hw : s.rx.Wf) (hcl : s.rx.closed = true)
    (evs : List RecvEv) : (runFrom (step p) s evs).got = s.got := by
  refine (runFrom_inv (fun t : RecvState => t.rx.Wf ∧ t.rx.closed = true ∧ t.got = s.got)
    ⟨hw, hcl, rfl⟩ fun t ev _ ⟨h1, h2, h3⟩ => ?_).2.2
  obtain ⟨h4, _, h5, _⟩ := t.step_mono p h1 ev
  exact ⟨h4, (h5 h2).1, (h5 h2).2.trans h3⟩

/-- The state after a run from the start. -/
def RecvState.after (p : Params) (pending : Bool) (evs : List RecvEv) : RecvState :=
  runFrom (step p) (init p pending) evs

lemma RecvState.after_append (p : Params) (pending : Bool) (evs later : List RecvEv) :
    after p pending (evs ++ later) = runFrom (step p) (after p pending evs) later :=
  runFrom_append _ evs later

/-- **Exact reception.** When every frame carries the stream `B`, then after every run the bytes
Read has returned are the first bytes of `B`, in order: up to `rRead` until Close, and from Close
on what they were then. The in-order segments are contiguous from the first unreleased offset to
`rTail`, the out-of-order ones ascending, disjoint and strictly beyond it, and all hold `B`. -/
theorem recv_stream_exact (p : Params) (pending : Bool) (B : Nat → Byte) (evs : List RecvEv)
    (hB : ∀ f, RecvEv.recv f ∈ evs → ∀ i v, f.p[i]? = some v → v = B (f.off + i)) :
    (RecvState.after p pending evs).got =
        (List.range (RecvState.after p pending evs).got.length).map
          (fun i => B (p.firstOffset + i)) ∧
      ((RecvState.after p pending evs).rx.closed = false →
        p.firstOffset + (RecvState.after p pending evs).got.length =
          (RecvState.after p pending evs).rx.rRead) ∧
      ((RecvState.after p pending evs).rx.closed = true →
        p.firstOffset + (RecvState.after p pending evs).got.length ≤
            (RecvState.after p pending evs).rx.rRead ∧
          ∀ later, (RecvState.after p pending (evs ++ later)).got =
            (RecvState.after p pending evs).got) ∧
      (∃ a, a ≤ (RecvState.after p pending evs).rx.rRead ∧
        Chain a (RecvState.after p pending evs).rx.inq.toList
          (RecvState.after p pending evs).rx.rTail) ∧
      ((RecvState.after p pending evs).rx.rfreePending = false →
        ∀ sg ∈ (RecvState.after p pending evs).rx.inq.toList,
          (RecvState.after p pending evs).rx.rRead < sg.endOff) ∧
      Asc ((RecvState.after p pending evs).rx.rTail + 1)
        (RecvState.after p pending evs).rx.ooq ∧
      ∀ x v, Holds (RecvState.after p pending evs).rx.inq.toList x v ∨
        Holds (RecvState.after p pending evs).rx.ooq x v → v = B x := by
  have hinv : RecvInv B p.firstOffset (RecvState.after p pending evs) := by
    refine runFrom_inv _ (RecvInv.initial p pending B) fun s ev hmem h => ?_
    exact h.step p ev fun f hf => hB f (hf ▸ hmem)
  have hlater := RecvState.after_append p pending evs
  generalize RecvState.after p pending evs = s at hinv hlater
  obtain ⟨a, ha, hq⟩ := hinv.wf.queues
  refine ⟨?_, hinv.got_open, fun hcl => ⟨hinv.got_le, fun later => ?_⟩, ⟨a, ha, hq.chain⟩,
    fun h => hinv.wf.released h, hq.asc, fun x v h => hinv.holds h⟩
  · apply ext_getElem
    · simp
    · intro i h1 h2
      rw [getElem_map, getElem_range]
      exact hinv.got_eq (getElem?_eq_getElem h1)
  · rw [hlater]
    exact s.got_closed p hinv.wf hcl later

/-- `n` bytes of the constant stream at `off`, without a buffer. -/
def sevens (off n : Nat) (ho : off < 2 ^ 64) (hn : n < 2 ^ 63) : DataFrame where
  off := off
  p := List.replicate n 7
  buf := none
  off_lt := ho
  len_lt := by simpa using hn
  buf_le := by simp

/-- Frames of the constant stream carry the constant stream. -/
private lemma sevens_carry {evs : List RecvEv}
    (h : ∀ f, RecvEv.recv f ∈ evs → ∃ off n ho hn, f = sevens off n ho hn) :
    ∀ f, RecvEv.recv f ∈ evs → ∀ i v, f.p[i]? = some v → v = (fun _ => 7) (f.off + i) := by
  intro f hf i v hv
  obtain ⟨off, n, ho, hn, rfl⟩ := h f hf
  exact eq_of_mem_replicate (mem_of_getElem? hv)

lemma zero_lt_pow64 : 0 < 2 ^ 64 := by decide

lemma one_lt_pow64 : 1 < 2 ^ 64 := by decide

lemma one_lt_pow63 : 1 < 2 ^ 63 := by decide

lemma two_lt_pow63 : 2 < 2 ^ 63 := by decide

/-- Two frames in the wrong order, a Read and a Close. -/
def reordered : List RecvEv :=
  [.edge 3, .recv (sevens 1 2 one_lt_pow64 two_lt_pow63),
    .recv (sevens 0 1 zero_lt_pow64 one_lt_pow63), .readView 8 false, .readCommit, .close]

theorem recv_stream_exact_reordered :
    (RecvState.after (.wide .bond .dialer) false reordered).got.length = 3 ∧
      (RecvState.after (.wide .bond .dialer) false reordered).got =
        (List.range (RecvState.after (.wide .bond .dialer) false reordered).got.length).map
          fun _ => 7 := by
  refine ⟨by decide, (recv_stream_exact (.wide .bond .dialer) false (fun _ => 7) reordered
    (sevens_carry fun f hf => ?_)).1⟩
  simp only [reordered, mem_cons, reduceCtorEq, RecvEv.recv.injEq, not_mem_nil, or_false,
    false_or] at hf
  rcases hf with rfl | rfl
  · exact ⟨1, 2, _, _, rfl⟩
  · exact ⟨0, 1, _, _, rfl⟩

/-- Close consumes unread bytes: `rRead` then runs ahead of what Read returned. -/
theorem read_behind_after_close :
    ¬ ∀ (p : Params) (pending : Bool) (B : Nat → Byte) (evs : List RecvEv),
      (∀ f, RecvEv.recv f ∈ evs → ∀ i v, f.p[i]? = some v → v = B (f.off + i)) →
      (RecvState.after p pending evs).got =
        (List.range ((RecvState.after p pending evs).rx.rRead - p.firstOffset)).map
          (fun i => B (p.firstOffset + i)) := by
  intro h
  have hrun := h (.sample .selector .dialer) false (fun _ => 7)
    [.edge 3, .recv (sevens 0 3 (by decide) (by decide)), .close] (sevens_carry fun f hf => by
      simp only [mem_cons, reduceCtorEq, RecvEv.recv.injEq, not_mem_nil, or_false,
        false_or] at hf
      exact ⟨0, 3, _, _, hf⟩)
  revert hrun
  decide

/-! ### The first copy stays authoritative -/

/-- The frame disagrees with a byte that is held and not yet read. -/
def Rx.Contradicts (rx : Rx) (f : DataFrame) : Prop :=
  ∃ x v, f.off ≤ x ∧ x < f.off + f.p.length ∧ f.p[x - f.off]? ≠ some v ∧
    ((rx.rRead ≤ x ∧ x < rx.rTail ∧ Holds rx.inq.toList x v) ∨ Holds rx.ooq x v)

lemma Rx.Wf.contradicts_iff (hw : rx.Wf) (f : DataFrame) :
    rx.Contradicts f ↔ ¬ rx.AgreesWith f := by
  obtain ⟨a, ha, hq⟩ := hw.queues
  have hle := hw.read_le
  constructor
  · rintro ⟨x, v, h1, h2, h3, h4⟩ hag
    refine h3 (hag x v h1 h2 ?_)
    rcases h4 with ⟨h5, _, h6⟩ | h4
    · exact ⟨h5, .inl h6⟩
    · have := hq.asc.holds_bounds h4
      exact ⟨by omega, .inr h4⟩
  intro h
  simp only [Rx.AgreesWith, not_forall] at h
  obtain ⟨x, v, h1, h2, ⟨h3, h4⟩, h5⟩ := h
  refine ⟨x, v, h1, h2, h5, ?_⟩
  rcases h4 with h4 | h4
  · exact .inl ⟨h3, (hq.chain.holds_bounds h4).2, h4⟩
  · exact .inr h4

/-- An unread in-order byte stays where it is until it is read, Close or the end. -/
def RecvState.Kept (x : Nat) (v : Byte) (s : RecvState) : Prop :=
  s.rx.Wf ∧ (s.rx.closed = true ∨ s.rx.ended = true ∨ x < s.rx.rRead ∨
    (x < s.rx.rTail ∧ s.rx.Held x v))

lemma RecvState.Kept.step {x : Nat} {v : Byte} {s : RecvState} (h : s.Kept x v) (ev : RecvEv) :
    (s.step p ev).Kept x v := by
  obtain ⟨hw, h⟩ := h
  obtain ⟨hw', hread, hclose, hended⟩ := s.step_mono p hw ev
  refine ⟨hw', ?_⟩
  by_cases hcl' : (s.step p ev).rx.closed = true
  · exact .inl hcl'
  rw [Bool.not_eq_true] at hcl'
  have hcl : s.rx.closed = false := by
    by_contra hc
    rw [Bool.not_eq_false] at hc
    rw [(hclose hc).1] at hcl'
    cases hcl'
  rcases h with h | h | h | ⟨h1, h2⟩
  · rw [hcl] at h
    cases h
  · exact .inr (.inl (hended h))
  · exact .inr (.inr (.inl (lt_of_lt_of_le h hread)))
  by_cases hrd : x < (s.step p ev).rx.rRead
  · exact .inr (.inr (.inl hrd))
  -- the byte is unread, the session neither closed nor ended: it stays in order
  cases ev with
  | recv f =>
    right; right; right
    have hout := Rx.recvData_outcome p f hw
    dsimp only [RecvState.step] at hcl' hrd ⊢
    generalize s.rx.recvData p f = r at hout hcl' hrd
    cases hout with
    | length _ | window _ | beyondFin _ _ _ | conflict _ _ => exact ⟨h1, h2⟩
    | duplicate _ _ _ =>
      obtain ⟨h3, _⟩ := Rx.core_eq (Rx.raceDup_core p f.p.length true s.rx)
      rw [h3]
      exact ⟨h1, h2⟩
    | admitted _ ha _ =>
      have hacc := Rx.accept_spec p hw ha
      refine ⟨lt_of_lt_of_le h1 hacc.tail_le, ?_⟩
      rcases hacc.keeps h2 with h3 | h3 | h3
      · exact h3
      · -- only out-of-order segments are shed, and they lie beyond the contiguous end
        exfalso
        obtain ⟨a, ha', hq⟩ := hw.queues
        have hag : Queues.Agrees f s.rx.ooq := by
          intro y w h4 h5 h6
          have := hq.asc.holds_bounds h6
          have := hw.read_le
          exact ha y w h4 h5 ⟨by omega, .inr h6⟩
        obtain ⟨hwp, hgp⟩ := Queues.place_spec (s.rx.recvLimit p) hq hag
        obtain ⟨sg, hsg, hhas⟩ := h3
        have := hwp.asc.holds_bounds ⟨sg, mem_of_mem_drop hsg, hhas⟩
        have := hgp.tail_le
        omega
      · have hd := hw.discard_eq.trans hcl
        rw [h3.1] at hd
        cases hd
  | fin off =>
    obtain ⟨h3, _⟩ := Rx.fin_same off s.rx
    dsimp only [RecvState.step]
    rw [h3]
    exact .inr (.inr (.inr ⟨h1, h2⟩))
  | readView len deadline =>
    obtain ⟨h3, _⟩ := Rx.readView_same len deadline s.rx
    dsimp only [RecvState.step]
    rw [h3]
    exact .inr (.inr (.inr ⟨h1, h2⟩))
  | readCommit =>
    have hc := Rx.readCommit_cases p hw
    dsimp only [RecvState.step] at hcl' hrd ⊢
    generalize s.rx.readCommit p = r at hc hcl' hrd
    cases hc with
    | idle _ => exact .inr (.inr (.inr ⟨h1, h2⟩))
    | closed rx' _ _ _ hc _ => exact .inl hc
    | delivered rx' _ _ hread _ hq _ hend =>
      by_cases he : s.rx.ended = true
      · exact .inr (.inl (hend.trans he))
      rw [Bool.not_eq_true] at he
      dsimp only at hrd
      refine .inr (.inr (.inr ⟨?_, (hq he).keeps (by omega) h2⟩))
      rw [(hq he).tail]
      exact h1
  | close =>
    rw [show (s.step p .close).rx.closed = true from (Rx.close_spec p hw).1] at hcl'
    cases hcl'
  | edge e | confirm => exact .inr (.inr (.inr ⟨h1, h2⟩))
  | finish => exact .inr (.inl (Rx.finish_spec s.rx).2.1)

/-- **The first copy stays authoritative.** In every state a hostile peer can bring the receive
side to, a DATA frame that disagrees with a held byte is refused (as a conflict when it lies
inside the window and the FIN) and changes nothing. A frame that is not refused leaves every held
byte in place, unless this call sheds it or a closed session consumes it. So an unread in-order
byte keeps its value until it is read, whatever arrives later. -/
theorem recvData_first_copy (p : Params) (pending : Bool) (evs : List RecvEv) (f : DataFrame) :
    ((RecvState.after p pending evs).rx.Contradicts f →
      ((RecvState.after p pending evs).rx.recvData p f).1 = (RecvState.after p pending evs).rx ∧
      ∃ e, ((RecvState.after p pending evs).rx.recvData p f).2 = some e ∧
        ((RecvState.after p pending evs).rx.InRange f → e = p.conflictErr)) ∧
    (((RecvState.after p pending evs).rx.recvData p f).2 = none →
      ∀ x v, (RecvState.after p pending evs).rx.Held x v →
        ((RecvState.after p pending evs).rx.recvData p f).1.Held x v ∨
        Holds ((RecvState.after p pending evs).rx.shedSegs p f) x v ∨
        ((RecvState.after p pending evs).rx.closed = true ∧
          x < ((RecvState.after p pending evs).rx.recvData p f).1.rRead)) ∧
    ∀ x v, x < (RecvState.after p pending evs).rx.rTail →
      Holds (RecvState.after p pending evs).rx.inq.toList x v →
      ∀ later, (RecvState.after p pending (evs ++ later)).rx.closed = false →
        (RecvState.after p pending (evs ++ later)).rx.ended = false →
        (RecvState.after p pending (evs ++ later)).rx.rRead ≤ x →
        Holds (RecvState.after p pending (evs ++ later)).rx.inq.toList x v := by
  have hw : (RecvState.after p pending evs).rx.Wf :=
    runFrom_inv (fun s : RecvState => s.rx.Wf) (Rx.init_wf p pending)
      fun s ev _ h => (s.step_mono p h ev).1
  have hlater := RecvState.after_append p pending evs
  generalize RecvState.after p pending evs = s at hw hlater
  refine ⟨fun hc => ?_, fun hnone => ?_, fun x v hx hv later hcl hend hrd => ?_⟩
  · rw [hw.contradicts_iff f] at hc
    have hout := Rx.recvData_outcome p f hw
    generalize s.rx.recvData p f = r at hout
    cases hout with
    | length h =>
      refine ⟨rfl, _, rfl, fun hr => ?_⟩
      rcases h with h | h
      · exact absurd h hr.ne_nil
      · exact absurd hr.no_wrap (by omega)
    | window h => exact ⟨rfl, _, rfl, fun hr => absurd hr.window (by omega)⟩
    | beyondFin fin hf h => exact ⟨rfl, _, rfl, fun hr => absurd (hr.fin fin hf) (by omega)⟩
    | conflict _ _ => exact ⟨rfl, _, rfl, fun _ => rfl⟩
    | duplicate _ ha _ => exact absurd ha hc
    | admitted _ ha _ => exact absurd ha hc
  · have hout := Rx.recvData_outcome p f hw
    generalize s.rx.recvData p f = r at hout hnone
    cases hout with
    | length _ | window _ | beyondFin _ _ _ | conflict _ _ => cases hnone
    | duplicate _ _ _ =>
      obtain ⟨h3, _⟩ := Rx.core_eq (Rx.raceDup_core p f.p.length true s.rx)
      intro x v hx
      left
      rw [h3]
      exact hx
    | admitted _ ha _ =>
      intro x v hx
      rw [← hw.discard_eq]
      exact (Rx.accept_spec p hw ha).keeps hx
  rw [hlater] at hcl hend hrd ⊢
  have hkept : (runFrom (RecvState.step p) s later).Kept x v :=
    runFrom_inv (RecvState.Kept x v) ⟨hw, .inr (.inr (.inr ⟨hx, .inl hv⟩))⟩
      fun t ev _ ht => ht.step p ev
  generalize runFrom (RecvState.step p) s later = t at hcl hend hrd hkept
  obtain ⟨hwt, h | h | h | ⟨h1, h2⟩⟩ := hkept
  · rw [hcl] at h
    cases h
  · rw [hend] at h
    cases h
  · omega
  rcases h2 with h2 | h2
  · exact h2
  · obtain ⟨a, ha, hq⟩ := hwt.queues
    have := hq.asc.holds_bounds h2
    omega

/-- A different byte at offset 1, where two sevens are already held. -/
def eight : DataFrame where
  off := 1
  p := [8]
  buf := none
  off_lt := by decide
  len_lt := by decide
  buf_le := by simp

theorem recvData_first_copy_eight :
    ∃ e, ((RecvState.after (.wide .bond .dialer) false (reordered.take 2)).rx.recvData
        (.wide .bond .dialer) eight).2 = some e ∧
      e = (Params.wide .bond .dialer).conflictErr := by
  obtain ⟨_, e, he, hr⟩ := (recvData_first_copy (.wide .bond .dialer) false (reordered.take 2)
    eight).1 ⟨1, 7, by decide, by decide, by decide, .inr (by decide)⟩
  exact ⟨e, he, hr ⟨by decide, by decide, by decide, by decide⟩⟩

/-- A closed session discards: the in-order byte that arrives makes it consume the out-of-order
byte above as well, without shedding it. -/
theorem discard_drops_held :
    ¬ ∀ (p : Params) (pending : Bool) (evs : List RecvEv) (f : DataFrame),
      ((RecvState.after p pending evs).rx.recvData p f).2 = none →
      ∀ x v, (RecvState.after p pending evs).rx.Held x v →
        ((RecvState.after p pending evs).rx.recvData p f).1.Held x v ∨
        Holds ((RecvState.after p pending evs).rx.shedSegs p f) x v := by
  intro h
  have hrun := h (.wide .bond .dialer) false
    [.edge 3, .close, .recv (sevens 1 2 (by decide) (by decide))]
    (sevens 0 1 (by decide) (by decide)) (by decide) 1 7 (.inr (by decide))
  revert hrun
  decide

end Rendr

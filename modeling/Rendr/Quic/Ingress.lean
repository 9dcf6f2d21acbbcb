import Rendr.Lib.Run
import Rendr.Lib.Serial

/-!
# The drop count of a QUIC carrier

The pump of `dgramConn` takes datagrams from quic-go's receive queue, which holds `quicRcvQueue` of
them and drops what arrives while it is full; `rxSeq` counts these drops from the gaps in the
sequence numbers. Datagrams arrive in order, numbered from 0 modulo `2 ^ 32`.

* `Spaced` — a gap in the queue lies behind `quicRcvQueue` datagrams of the run, so `lag` is set
  when the pump reaches it.
* `ingress_drops_exact` — the count is that of the drops numbered below the last datagram taken.
-/

namespace Rendr.Quic

open List

def quicRcvQueue : Nat := 128

/-- `rxSeq`. -/
structure RxSeq where
  next : UInt32
  run : Nat
  lag : Bool

namespace RxSeq

def empty (s : RxSeq) : RxSeq := { s with run := 0 }

def take (s : RxSeq) (seq : UInt32) : RxSeq × Nat :=
  let gap := int32 (seq - s.next)
  if 0 ≤ gap then
    (⟨seq + 1, s.run + 1, decide (quicRcvQueue ≤ s.run + 1)⟩, if s.lag then gap.toNat else 0)
  else ({ s with run := s.run + 1, lag := s.lag || decide (quicRcvQueue ≤ s.run + 1) }, 0)

end RxSeq

/-- The receive queue of quic-go and the pump. -/
structure Ingress where
  rx : RxSeq
  /-- the queue, by the numbers the datagrams were sent with -/
  queue : List Nat
  /-- the pump found the queue empty and waits for a datagram -/
  waiting : Bool
  /-- the sum of the results of `take` -/
  counted : Nat
  /-- the datagrams that arrived -/
  arrived : Nat
  /-- those dropped, in order, and how many of them since one was queued -/
  dropped : List Nat
  row : Nat
  last : Option Nat

inductive IngressEv where
  | arrive
  | pump

namespace Ingress

def init : Ingress := ⟨⟨0, 0, false⟩, [], false, 0, 0, [], 0, none⟩

/-- quic-go's queue takes the next datagram, or drops it. -/
def arrive (s : Ingress) : Ingress :=
  if s.queue.length < quicRcvQueue then
    { s with queue := s.queue ++ [s.arrived], arrived := s.arrived + 1, row := 0 }
  else { s with
    dropped := s.dropped ++ [s.arrived], arrived := s.arrived + 1, row := s.row + 1 }

/-- One receive of the pump: a poll that finds the queue empty tells `rx`, and the next receive
waits; every datagram taken goes through `take`. -/
def pump (s : Ingress) : Ingress :=
  match s.queue with
  | [] => if s.waiting then s else { s with rx := s.rx.empty, waiting := true }
  | x :: q =>
    let r := s.rx.take (wrap x)
    { s with
      rx := r.1, queue := q, waiting := false, counted := s.counted + r.2, last := some x }

def step (s : Ingress) : IngressEv → Ingress
  | .arrive => s.arrive
  | .pump => s.pump

/-- At most `2 ^ 31 − 1` datagrams are dropped in a row. -/
def Ok (s : Ingress) : IngressEv → Prop
  | .arrive => s.queue.length < quicRcvQueue ∨ s.row + 1 < 2 ^ 31
  | .pump => True

/-- The numbers missing from `next` on in the queue, up to what arrived. -/
def gaps (next : Nat) : List Nat → Nat → List Nat
  | [], row => List.range' next row
  | x :: q, row => List.range' next (x - next) ++ gaps (x + 1) q row

/-- **Gaps are behind full queues**: when the pump reaches a gap, `lag` is set. -/
def Spaced (arrived row : Nat) (lag : Prop) (next run : Nat) : List Nat → Prop
  | [] => next + row = arrived ∧ (0 < row → lag)
  | x :: q => next ≤ x ∧ x < next + 2 ^ 31 ∧ (next < x → lag) ∧
      Spaced arrived row (quicRcvQueue ≤ run + 1) (x + 1) (run + 1) q

variable {arrived row next run : Nat} {lag : Prop} {q : List Nat}

lemma Spaced.queued (h : Spaced arrived row lag next run q) (hrow : row < 2 ^ 31) :
    Spaced (arrived + 1) 0 lag next run (q ++ [arrived]) ∧
      gaps next (q ++ [arrived]) 0 = gaps next q row := by
  induction q generalizing lag next run with
  | nil =>
    obtain ⟨hn, hlag⟩ := h
    refine ⟨⟨by omega, by omega, fun hlt => hlag (by omega), rfl, by omega⟩, ?_⟩
    show List.range' next (arrived - next) ++ [] = List.range' next row
    rw [append_nil, ← hn, Nat.add_sub_cancel_left]
  | cons x q ih =>
    obtain ⟨h1, h2, h3, h4⟩ := h
    obtain ⟨i1, i2⟩ := ih h4
    exact ⟨⟨h1, h2, h3, i1⟩, congrArg _ i2⟩

/-- A drop at the end of a queue that is full, counted from the last empty poll on. -/
lemma Spaced.dropped (h : Spaced arrived row lag next run q)
    (hfull : q = [] ∧ lag ∨ q ≠ [] ∧ quicRcvQueue ≤ run + q.length) :
    Spaced (arrived + 1) (row + 1) lag next run q ∧
      gaps next q (row + 1) = gaps next q row ++ [arrived] := by
  induction q generalizing lag next run with
  | nil =>
    obtain ⟨hn, -⟩ := h
    have hlag : lag := by simpa using hfull
    refine ⟨⟨by omega, fun _ => hlag⟩, ?_⟩
    show List.range' next (row + 1) = List.range' next row ++ [arrived]
    rw [range'_1_concat, hn]
  | cons x q ih =>
    obtain ⟨h1, h2, h3, h4⟩ := h
    have hlen : quicRcvQueue ≤ run + 1 + q.length := by
      have := hfull.resolve_left fun hc => by cases hc.1
      rw [length_cons] at this
      omega
    have hq : q = [] ∧ quicRcvQueue ≤ run + 1 ∨ q ≠ [] ∧ quicRcvQueue ≤ run + 1 + q.length := by
      by_cases hq : q = []
      · rw [hq] at hlen
        exact .inl ⟨hq, hlen⟩
      · exact .inr ⟨hq, hlen⟩
    obtain ⟨i1, i2⟩ := ih h4 hq
    refine ⟨⟨h1, h2, h3, i1⟩, ?_⟩
    rw [gaps, i2, gaps, append_assoc]

/-- What holds between two steps: the drops are those counted, below the number expected, and the
gaps of the queue. -/
structure Inv (s : Ingress) (next : Nat) : Prop where
  next_eq : s.rx.next = wrap next
  last_eq : next = s.last.elim 0 (· + 1)
  row_lt : s.row < 2 ^ 31
  spaced : Spaced s.arrived s.row (s.rx.lag = true) next s.rx.run s.queue
  dropped : ∃ below, s.dropped = below ++ gaps next s.queue s.row ∧ below.length = s.counted ∧
    ∀ x ∈ below, x + 1 < next

variable {s : Ingress}

lemma Inv.arrive (h : Inv s next) (hok : s.Ok .arrive) : Inv s.arrive next := by
  obtain ⟨below, hd, hlen, hlt⟩ := h.dropped
  unfold Ingress.arrive
  split
  · obtain ⟨hs, hg⟩ := h.spaced.queued h.row_lt
    exact ⟨h.next_eq, h.last_eq, by norm_num, hs, below, by rw [hd, hg], hlen, hlt⟩
  next hfull =>
  have hne : s.queue ≠ [] := fun hc => by
    rw [hc] at hfull
    exact hfull (by decide)
  obtain ⟨hs, hg⟩ := h.spaced.dropped (.inr ⟨hne, by omega⟩)
  refine ⟨h.next_eq, h.last_eq, hok.resolve_left hfull, hs, below, ?_, hlen, hlt⟩
  rw [hd, hg, append_assoc]

lemma Inv.pump (h : Inv s next) : ∃ next', Inv s.pump next' := by
  obtain ⟨below, hd, hlen, hlt⟩ := h.dropped
  unfold Ingress.pump
  have hs := h.spaced
  split
  next hq =>
    rw [hq] at hs hd
    split
    · exact ⟨next, h⟩
    refine ⟨next, h.next_eq, h.last_eq, h.row_lt, ?_, below, ?_, hlen, hlt⟩
    · simp only [hq]
      exact hs
    · rw [hd, hq]
  rename_i x q hq
  rw [hq] at hs hd
  obtain ⟨h1, h2, h3, h4⟩ := hs
  have hgap : int32 (wrap x - s.rx.next) = (x : Int) - next := by
    rw [h.next_eq, int32_wrap_sub (by omega) (by omega)]
  -- the result is the length of the gap, whether or not `lag` is set
  have htake : s.rx.take (wrap x) =
      (⟨wrap (x + 1), s.rx.run + 1, decide (quicRcvQueue ≤ s.rx.run + 1)⟩, x - next) := by
    unfold RxSeq.take
    simp only [hgap, if_pos (show (0 : Int) ≤ x - next by omega), wrap_succ]
    congr 1
    split
    · omega
    next hl =>
      have : ¬ next < x := fun hlt => hl (h3 hlt)
      omega
  rw [htake]
  refine ⟨x + 1, rfl, rfl, h.row_lt, ?_, below ++ List.range' next (x - next), ?_, ?_, ?_⟩
  · simpa using h4
  · rw [hd, gaps, append_assoc]
  · rw [length_append, length_range', hlen]
  intro y hy
  rcases mem_append.mp hy with hy | hy
  · have := hlt y hy
    omega
  · have := mem_range'_1.mp hy
    omega

/-- The gaps of the queue are numbered from `next` on. -/
lemma le_of_mem_gaps {x : Nat} (h : Spaced arrived row lag next run q)
    (hx : x ∈ gaps next q row) : next ≤ x := by
  induction q generalizing lag next run with
  | nil => exact (mem_range'_1.mp hx).1
  | cons y q ih =>
    rcases mem_append.mp hx with hx | hx
    · exact (mem_range'_1.mp hx).1
    · have := ih h.2.2.2 hx
      have := h.1
      omega

/-- **The drop count is exact**: at every moment the results of `take` sum up to the number of
datagrams dropped that are numbered below the last one taken. -/
theorem ingress_drops_exact (evs : List IngressEv) (hok : Along step Ok init evs) :
    let s := runFrom step init evs
    s.counted = (s.dropped.filter fun x => s.last.any (x < ·)).length := by
  have hrun : ∃ next, Inv (runFrom step init evs) next := by
    refine runFrom_along (fun s => ∃ next, Inv s next)
      ⟨0, rfl, rfl, Nat.two_pow_pos 31, ⟨rfl, by decide⟩, [], rfl, rfl, by simp⟩ ?_ hok
    rintro s ev hok ⟨next, h⟩
    cases ev with
    | arrive => exact ⟨next, h.arrive hok⟩
    | pump => exact h.pump
  intro s
  obtain ⟨next, h⟩ : ∃ next, Inv s next := hrun
  obtain ⟨below, hd, hlen, hlt⟩ := h.dropped
  have hlast := h.last_eq
  -- the drops counted lie below the last datagram taken, the gaps of the queue behind it
  have hin : below.filter (fun x => s.last.any (x < ·)) = below := by
    refine filter_eq_self.mpr fun x hx => ?_
    have := hlt x hx
    cases hl : s.last with
    | none => simp [hlast, hl] at this
    | some y =>
      rw [hlast, hl] at this
      simpa using this
  have hout : (gaps next s.queue s.row).filter (fun x => s.last.any (x < ·)) = [] := by
    refine filter_eq_nil_iff.mpr fun x hx => ?_
    have := le_of_mem_gaps h.spaced hx
    cases hl : s.last with
    | none => simp
    | some y =>
      rw [hlast, hl] at this
      simp only [Option.elim_some] at this
      simp only [Option.any_some, decide_eq_true_eq]
      omega
  rw [hd, filter_append, hin, hout, append_nil, hlen]

/-- A run of fewer than `2 ^ 31` events has no longer row of drops. -/
lemma along_of_short {s : Ingress} {evs : List IngressEv} (h : s.row + evs.length < 2 ^ 31) :
    Along step Ok s evs := by
  induction evs generalizing s with
  | nil => trivial
  | cons ev evs ih =>
    rw [length_cons] at h
    have hrow : (s.step ev).row ≤ s.row + 1 := by
      cases ev with
      | arrive =>
        simp only [step, arrive]
        split <;> simp
      | pump =>
        simp only [step, pump]
        repeat' split
        all_goals simp
    refine ⟨?_, ih (by omega)⟩
    cases ev with
    | arrive => exact .inr (by omega)
    | pump => trivial

/-- A burst fills the queue and two datagrams are dropped; the next one taken shows both. -/
theorem ingress_drops_exact_burst :
    let evs := List.replicate 130 .arrive ++ .pump :: .arrive :: List.replicate 128 .pump
    Along step Ok init evs ∧ (runFrom step init evs).counted = 2 := by
  intro evs
  have hok : Along step Ok init evs := along_of_short (by decide +kernel)
  exact ⟨hok, (ingress_drops_exact evs hok).trans (by decide +kernel)⟩

end Ingress

end Rendr.Quic

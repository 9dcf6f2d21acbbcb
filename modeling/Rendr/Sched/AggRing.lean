import Rendr.Lib.Ring
import Rendr.Lib.Run
import Rendr.Sched.Evidence

/-!
# The window of an aggregator in its array

`Aggregator` has the window as a list; the code keeps it in an array of `MaxAggWindow` slots, of
which the first `Window` are used cyclically from `head` on, and a level shift moves `head` over the
earlier samples (`evidence.go`). Every function takes the normalized parameters: `NewAggregator`
stores them so, and the first `Add` of a zero value normalizes its own.

* `AggRing.add_refines` — `Add` on the array is `Add` on the list.
* `rtt_window` — what the window and the summary hold after any calls of `Add` and `Reset`.
-/

namespace Rendr.Quality

open Aggregator List
open Function (update)

/-- `AggParams` as given. -/
structure AggConfig where
  window : Int
  minEarlier : Int
  shiftRun : Int
  mean : List Int → Int
  deviate : List Int → List Int → Bool
  mean_pos : ∀ l, l ≠ [] → (∀ x ∈ l, 0 < x) → 0 < mean l

/-- `MaxAggWindow`. -/
def maxAggWindow : Nat := 64

/-- `normalized`. -/
def AggConfig.normalized (c : AggConfig) : AggParams where
  window := if c.window ≤ 0 then 32 else if maxAggWindow < c.window then maxAggWindow
    else c.window.toNat
  minEarlier := if c.minEarlier ≤ 0 then 3 else c.minEarlier.toNat
  shiftRun := if c.shiftRun ≤ 0 then 2 else c.shiftRun.toNat
  mean := c.mean
  deviate := c.deviate
  window_pos := by
    unfold maxAggWindow
    split_ifs <;> omega
  run_pos := by split <;> omega
  mean_pos := c.mean_pos

/-- An `Aggregator` as stored. -/
structure AggRing where
  ring : Nat → Int
  head : Nat
  n : Nat
  seen : Bool
  last : Int
  sampledAt : Int
  loadedAt : Int

namespace AggRing

variable (p : AggParams) (a : AggRing)

/-- `NewAggregator`. -/
def new : AggRing := ⟨fun _ => 0, 0, 0, false, 0, 0, 0⟩

/-- `Reset`, which leaves the array as it is. -/
def reset : AggRing := { new with ring := a.ring }

/-- `sample`. -/
def sample (i : Nat) : Int := a.ring ((a.head + i) % p.window)

/-- The window, the oldest sample first. -/
def toList : List Int := (range a.n).map (a.sample p)

/-- `levelShift`. -/
def levelShift : AggRing :=
  let e := a.n - p.shiftRun
  if e = 0 ∨ e < p.minEarlier then a
  else if p.deviate ((range e).map (a.sample p)) ((range' e (a.n - e)).map (a.sample p)) then
    { a with head := (a.head + e) % p.window, n := p.shiftRun }
  else a

/-- An unloaded sample enters the ring, over the oldest of a full window. -/
def push (rtt : Int) : AggRing :=
  if a.n < p.window then
    { a with ring := update a.ring ((a.head + a.n) % p.window) rtt, n := a.n + 1 }
  else { a with ring := update a.ring a.head rtt, head := (a.head + 1) % p.window }

/-- `Add` and its answer. -/
def add (x : Sample) : AggRing × Bool :=
  if x.time = 0 ∨ x.rtt ≤ 0 ∨ x.time < a.last then (a, false)
  else
    let a := { a with last := x.time, seen := true }
    if x.loaded then ({ a with loadedAt := x.time }, true)
    else ((push p { a with sampledAt := x.time } x.rtt).levelShift p, true)

/-- `Summary`. -/
def summary : Summary where
  seen := a.seen
  mean := if a.n = 0 then 0 else p.mean (a.toList p)
  n := a.n
  sampledAt := a.sampledAt
  loadedAt := a.loadedAt

/-- The aggregator with its window as a list. -/
def view : Aggregator := ⟨a.toList p, a.seen, a.last, a.sampledAt, a.loadedAt⟩

/-- The window is within the slots used. -/
structure Wf : Prop where
  head : a.head < p.window
  n : a.n ≤ p.window

variable {p a}

lemma toList_eq : a.toList p = cyclic a.ring p.window a.head a.n := rfl

@[simp] lemma length_toList : (a.toList p).length = a.n := length_cyclic _

/-- `Summary` reads the window only in order. -/
lemma summary_eq : a.summary p = (a.view p).summary p := by
  have hnil : a.toList p = [] ↔ a.n = 0 := by rw [← length_eq_zero_iff, length_toList]
  simp only [summary, Aggregator.summary, view, hnil, length_toList]

/-- **A level shift cuts the list**, wherever the window starts in the array. -/
lemma levelShift_refines (h : a.Wf p) : (a.levelShift p).Wf p ∧
    (a.levelShift p).view p = { a.view p with ring := Quality.levelShift p (a.view p).ring } := by
  have htake : (range (a.n - p.shiftRun)).map (a.sample p) =
      (a.toList p).take (a.n - p.shiftRun) := by
    rw [toList, ← map_take, take_range, min_eq_left (Nat.sub_le _ _)]
  have hdrop : (range' (a.n - p.shiftRun) (a.n - (a.n - p.shiftRun))).map (a.sample p) =
      (a.toList p).drop (a.n - p.shiftRun) := by
    rw [toList, ← map_drop, range_eq_range', drop_range', Nat.mul_one, Nat.zero_add]
  unfold levelShift Quality.levelShift
  simp only [view, length_toList, htake, hdrop]
  split
  · exact ⟨h, rfl⟩
  next hrun =>
  cases p.deviate _ _ with
  | false => exact ⟨h, rfl⟩
  | true =>
    have hn : a.n = a.n - p.shiftRun + p.shiftRun := by omega
    have hcut := cyclic_drop a.ring (w := p.window) (h := a.head) (n := p.shiftRun)
      (a.n - p.shiftRun)
    rw [← hn] at hcut
    refine ⟨⟨Nat.mod_lt _ p.window_pos, le_trans (hn ▸ Nat.le_add_left _ _) h.n⟩, ?_⟩
    simp [toList_eq, hcut]

lemma push_refines (h : a.Wf p) (rtt : Int) : (a.push p rtt).Wf p ∧
    (a.push p rtt).view p = { a.view p with
      ring := if (a.toList p).length < p.window then a.toList p ++ [rtt]
        else (a.toList p).tail ++ [rtt] } := by
  unfold push
  rw [length_toList]
  split
  next hn =>
    refine ⟨⟨h.head, hn⟩, ?_⟩
    simp only [view, toList_eq, cyclic_push a.ring rtt hn]
  next hn =>
  have hfull : a.n = p.window := le_antisymm h.n (not_lt.mp hn)
  refine ⟨⟨Nat.mod_lt _ p.window_pos, h.n⟩, ?_⟩
  simp only [view, toList_eq, hfull, cyclic_wrap a.ring rtt h.head]

/-- **`Add` on the array is `Add` on the list.** -/
lemma add_refines (h : a.Wf p) (x : Sample) : (a.add p x).1.Wf p ∧
    (a.add p x).1.view p = (a.view p).add p x ∧ (a.add p x).2 = (a.view p).accepts x := by
  have hrej : (x.time = 0 ∨ x.rtt ≤ 0 ∨ x.time < a.last) ↔ (a.view p).accepts x = false := by
    rw [Bool.eq_false_iff, Ne, accepts_iff]
    simp only [view]
    omega
  unfold add Aggregator.add
  simp only [hrej]
  cases (a.view p).accepts x with
  | false => exact ⟨h, rfl, rfl⟩
  | true =>
    cases x.loaded with
    | true => exact ⟨⟨h.head, h.n⟩, rfl, rfl⟩
    | false =>
      obtain ⟨hwf, hpush⟩ := push_refines (p := p)
        (a := { a with last := x.time, seen := true, sampledAt := x.time }) ⟨h.head, h.n⟩ x.rtt
      obtain ⟨hwf, hshift⟩ := levelShift_refines hwf
      rw [hpush] at hshift
      exact ⟨hwf, hshift, rfl⟩

end AggRing

/-! ### Runs -/

inductive AggCall
  | add (x : Sample)
  | reset

/-- An aggregator and the samples it accepted since the last `Reset`. -/
structure Logged where
  agg : AggRing
  log : List Sample

def Logged.step (p : AggParams) (s : Logged) : AggCall → Logged
  | .add x =>
    let r := s.agg.add p x
    ⟨r.1, if r.2 then s.log ++ [x] else s.log⟩
  | .reset => ⟨s.agg.reset, []⟩

variable {p : AggParams} {a : Aggregator} {log : List Sample}

/-- No `Add` takes a time of the summary back. -/
lemma Reads.mono (h : Reads p a log) (x : Sample) :
    a.sampledAt ≤ (a.add p x).sampledAt ∧ a.loadedAt ≤ (a.add p x).loadedAt := by
  unfold Aggregator.add
  cases hacc : a.accepts x with
  | false => exact ⟨le_rfl, le_rfl⟩
  | true =>
    have hle := (accepts_iff.mp hacc).2
    cases x.loaded with
    | true => exact ⟨le_rfl, le_trans h.loaded_le hle⟩
    | false => exact ⟨le_trans h.sampled_le hle, le_rfl⟩

/-- Only an accepted unloaded sample enters the window. -/
lemma Aggregator.add_ring {x : Sample} (h : x.loaded = true ∨ a.accepts x = false) :
    (a.add p x).ring = a.ring := by
  unfold add
  rcases h with h | h
  · cases a.accepts x <;> simp [h]
  · simp [h]

lemma Logged.run_reads (p : AggParams) (calls : List AggCall) :
    let s := runFrom (Logged.step p) ⟨.new, []⟩ calls
    s.agg.Wf p ∧ Reads p (s.agg.view p) s.log := by
  have hnew (r : Nat → Int) : ({ AggRing.new with ring := r } : AggRing).Wf p ∧
      Reads p (AggRing.view p { AggRing.new with ring := r }) [] :=
    ⟨⟨p.window_pos, Nat.zero_le _⟩, Reads.new⟩
  refine runFrom_inv (fun s : Logged => s.agg.Wf p ∧ Reads p (s.agg.view p) s.log) (hnew _) ?_
  rintro s (x | _) - ⟨hwf, h⟩
  · obtain ⟨hwf', hview, hacc⟩ := AggRing.add_refines hwf x
    refine ⟨hwf', ?_⟩
    show Reads p ((s.agg.add p x).1.view p) (if (s.agg.add p x).2 then s.log ++ [x] else s.log)
    rw [hview, hacc]
    exact h.add x
  · exact hnew s.agg.ring

/-- **The window holds what it says.** After any calls of `Add` and `Reset`, from any parameters, the
ring in order is the window of the unloaded samples accepted since the last `Reset`, within the
array; a loaded or rejected sample leaves it; the summary has the newest unloaded and loaded times,
which no `Add` takes back, and a value iff an unloaded sample was accepted. -/
theorem rtt_window (c : AggConfig) (calls : List AggCall) :
    let p := c.normalized
    let s := runFrom (Logged.step p) ⟨.new, []⟩ calls
    let sum := s.agg.summary p
    s.agg.toList p = windowOf p (unloaded s.log) ∧
    (s.agg.head < p.window ∧ s.agg.n ≤ p.window ∧ p.window ≤ maxAggWindow) ∧
    (∀ x, x.loaded = true ∨ (s.agg.add p x).2 = false →
      (s.agg.add p x).1.toList p = s.agg.toList p) ∧
    sum.sampledAt = newest (unloaded s.log) ∧ sum.loadedAt = newest (loaded s.log) ∧
    (∀ x, sum.sampledAt ≤ ((s.agg.add p x).1.summary p).sampledAt ∧
      sum.loadedAt ≤ ((s.agg.add p x).1.summary p).loadedAt) ∧
    (0 < sum.n ↔ unloaded s.log ≠ []) := by
  intro p s sum
  obtain ⟨hwf, h⟩ := Logged.run_reads p calls
  have hwin : p.window ≤ maxAggWindow := by
    show ite _ _ _ ≤ maxAggWindow
    unfold maxAggWindow
    split_ifs <;> omega
  refine ⟨h.ring, ⟨hwf.head, hwf.n, hwin⟩, fun x hx => ?_, h.sampledAt, h.loadedAt,
    fun x => ?_, ?_⟩
  · obtain ⟨-, hview, hacc⟩ := AggRing.add_refines hwf x
    rw [hacc] at hx
    exact (congrArg ring hview).trans (add_ring hx)
  · rw [AggRing.summary_eq, (AggRing.add_refines hwf x).2.1]
    exact h.mono x
  have hn : s.agg.n = (windowOf p (unloaded s.log)).length := by
    rw [← h.ring]
    exact AggRing.length_toList.symm
  show 0 < s.agg.n ↔ _
  rw [hn, length_pos_iff, Ne, windowOf_eq_nil]

end Rendr.Quality

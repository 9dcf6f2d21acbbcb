import Mathlib.Data.List.DropRight
import Mathlib.Tactic

/-!
# Evidence of a factory

The aggregator of one factory's probe samples and the classification of its summary at an instant
(`evidence.go`). Times are nanoseconds since the zero time, durations nanoseconds; `Time.Sub`
saturates. The window's mean and the level-shift test are computed in floating point: they are
given functions of the samples, of which only a positive mean of positive samples is asked.

* `evidenceAt_fresh` — a sample within the window makes the evidence Fresh, whatever came after it.
-/

namespace Rendr.Quality

open List

/-- `Time.Sub`, which saturates. -/
def sub (a b : Int) : Int := max (-2 ^ 63) (min (2 ^ 63 - 1) (a - b))

/-- The time-independent state of an aggregator. -/
structure Summary where
  seen : Bool
  mean : Int
  n : Nat
  /-- `At`: the newest unloaded sample, 0 if none. -/
  sampledAt : Int
  /-- `LoadedAt`: the newest loaded sample, 0 if none. -/
  loadedAt : Int
  deriving DecidableEq, Repr, Inhabited

/-- `EvState`. -/
inductive EvState
  | unknown
  | fresh
  | held
  | stale
  deriving DecidableEq, Repr

structure Evidence where
  state : EvState
  rtt : Int
  deriving DecidableEq, Repr

/-- `valued`. -/
def valued (s : Summary) : Bool := 0 < s.n && 0 < s.mean && s.sampledAt ≠ 0

/-- `within`. -/
def within (now t fresh : Int) : Bool := t ≠ 0 && sub now t ≤ fresh

/-- `Classify`. -/
def classify (s : Summary) (now fresh : Int) : Evidence :=
  if !s.seen then ⟨.unknown, 0⟩
  else if valued s && within now s.sampledAt fresh then ⟨.fresh, s.mean⟩
  else if within now s.loadedAt fresh then ⟨.held, if valued s then s.mean else 0⟩
  else ⟨.stale, 0⟩

/-- The breakpoints of `NextChange`, the earlier one first. -/
def breakpoints (s : Summary) (fresh : Int) : List Int :=
  let a := s.sampledAt + fresh + 1
  let b := s.loadedAt + fresh + 1
  match valued s, decide (s.loadedAt ≠ 0) with
  | true, true => if b < a then [b, a] else [a, b]
  | true, false => [a]
  | false, true => [b]
  | false, false => []

/-- `NextChange`. -/
def nextChange (s : Summary) (now fresh : Int) : Int :=
  if !s.seen then 0
  else ((breakpoints s fresh).find? fun t =>
    now < t && classify s t fresh ≠ classify s now fresh).getD 0

/-! ### The aggregator -/

/-- One `Add` call. -/
structure Sample where
  time : Int
  rtt : Int
  loaded : Bool
  deriving DecidableEq, Repr

/-- `AggParams`, normalized. -/
structure AggParams where
  window : Nat
  minEarlier : Nat
  shiftRun : Nat
  /-- The rounded mean of a window. -/
  mean : List Int → Int
  /-- The newest samples (second) deviate from the earlier ones (first). -/
  deviate : List Int → List Int → Bool
  window_pos : 0 < window
  run_pos : 0 < shiftRun
  mean_pos : ∀ l, l ≠ [] → (∀ x ∈ l, 0 < x) → 0 < mean l

/-- An `Aggregator`; `ring` is its window, the oldest sample first. -/
structure Aggregator where
  ring : List Int
  seen : Bool
  last : Int
  sampledAt : Int
  loadedAt : Int
  deriving DecidableEq, Repr

open Aggregator

def Aggregator.new : Aggregator := ⟨[], false, 0, 0, 0⟩

/-- `levelShift`. -/
def levelShift (p : AggParams) (ring : List Int) : List Int :=
  let e := ring.length - p.shiftRun
  if e = 0 ∨ e < p.minEarlier then ring
  else if p.deviate (ring.take e) (ring.drop e) then ring.drop e else ring

/-- `Add` accepts the sample. -/
def Aggregator.accepts (a : Aggregator) (x : Sample) : Bool :=
  x.time ≠ 0 && 0 < x.rtt && a.last ≤ x.time

/-- `Add`. -/
def Aggregator.add (p : AggParams) (a : Aggregator) (x : Sample) : Aggregator :=
  if !a.accepts x then a
  else if x.loaded then { a with last := x.time, seen := true, loadedAt := x.time }
  else
    let ring := if a.ring.length < p.window then a.ring ++ [x.rtt] else a.ring.tail ++ [x.rtt]
    { a with last := x.time, seen := true, sampledAt := x.time, ring := levelShift p ring }

/-- `Summary`. -/
def Aggregator.summary (p : AggParams) (a : Aggregator) : Summary where
  seen := a.seen
  mean := if a.ring = [] then 0 else p.mean a.ring
  n := a.ring.length
  sampledAt := a.sampledAt
  loadedAt := a.loadedAt

/-- The aggregator after `Add` calls. -/
def aggregate (p : AggParams) (xs : List Sample) : Aggregator :=
  xs.foldl (add p) new

/-! ### Evidence at an instant -/

/-- The samples accepted by an aggregator. -/
def accepted (p : AggParams) : Aggregator → List Sample → List Sample
  | _, [] => []
  | a, x :: xs =>
    if a.accepts x then x :: accepted p (a.add p x) xs else accepted p a xs

/-- The evidence at `u`: that of the accepted samples stamped by `u`. -/
def evidenceAt (p : AggParams) (fresh : Int) (xs : List Sample) (u : Int) : Evidence :=
  classify ((aggregate p ((accepted p .new xs).filter (·.time ≤ u))).summary p) u fresh

/-! ### What an aggregator holds of the samples it accepted -/

def unloaded (log : List Sample) : List Sample := log.filter (!·.loaded)

def loaded (log : List Sample) : List Sample := log.filter (·.loaded)

/-- The window as a list: each sample is appended, the newest `Window` are kept, and a level shift
keeps the newest `ShiftRun`. -/
def windowOf (p : AggParams) (xs : List Sample) : List Int :=
  xs.foldl (fun w x => levelShift p ((w ++ [x.rtt]).rtake p.window)) []

/-- The newest time, 0 if there is none. -/
def newest (xs : List Sample) : Int := xs.foldl (fun t x => max t x.time) 0

/-- What the samples accepted since the last `Reset` say of an aggregator. -/
structure Reads (p : AggParams) (a : Aggregator) (log : List Sample) : Prop where
  ring : a.ring = windowOf p (unloaded log)
  seen : log ≠ [] → a.seen = true
  sampledAt : a.sampledAt = newest (unloaded log)
  loadedAt : a.loadedAt = newest (loaded log)
  sampled_le : a.sampledAt ≤ a.last
  loaded_le : a.loadedAt ≤ a.last
  pos : ∀ x ∈ log, 0 < x.rtt

variable {p : AggParams} {a : Aggregator} {log xs : List Sample} {x : Sample}

lemma levelShift_suffix (p : AggParams) (ring : List Int) : levelShift p ring <:+ ring := by
  unfold levelShift
  dsimp only
  split
  · exact suffix_rfl
  split
  · exact drop_suffix ..
  · exact suffix_rfl

lemma levelShift_ne_nil (p : AggParams) {ring : List Int} (h : ring ≠ []) :
    levelShift p ring ≠ [] := by
  have hrun := p.run_pos
  have hlen := length_pos_of_ne_nil h
  unfold levelShift
  dsimp only
  split
  · exact h
  split
  · rw [Ne, drop_eq_nil_iff]
    omega
  · exact h

lemma windowOf_concat : windowOf p (xs ++ [x]) =
    levelShift p ((windowOf p xs ++ [x.rtt]).rtake p.window) := foldl_concat ..

lemma newest_concat : newest (xs ++ [x]) = max (newest xs) x.time := foldl_concat ..

lemma windowOf_eq_nil : windowOf p xs = [] ↔ xs = [] := by
  rcases eq_nil_or_concat' xs with rfl | ⟨ys, y, rfl⟩
  · exact ⟨fun _ => rfl, fun _ => rfl⟩
  have hpos := p.window_pos
  rw [windowOf_concat]
  refine ⟨fun h => absurd h (levelShift_ne_nil p ?_), fun h => by simp at h⟩
  rw [rtake, Ne, drop_eq_nil_iff, length_append, length_singleton]
  omega

lemma length_windowOf : (windowOf p xs).length ≤ p.window := by
  rcases eq_nil_or_concat' xs with rfl | ⟨ys, y, rfl⟩
  · exact Nat.zero_le _
  rw [windowOf_concat]
  refine le_trans (levelShift_suffix p _).length_le ?_
  rw [rtake, length_drop]
  omega

/-- The window is the end of the list of samples. -/
lemma windowOf_suffix (xs : List Sample) : windowOf p xs <:+ xs.map Sample.rtt := by
  induction xs using reverseRecOn with
  | nil => exact suffix_rfl
  | append_singleton xs x ih =>
    rw [windowOf_concat, map_append]
    exact ((levelShift_suffix p _).trans (drop_suffix ..)).trans (suffix_append_self_iff.mpr ih)

lemma newest_le {t : Int} : newest xs ≤ t ↔ 0 ≤ t ∧ ∀ x ∈ xs, x.time ≤ t := by
  induction xs using reverseRecOn with
  | nil => simp [newest]
  | append_singleton xs x ih => simp [newest_concat, ih, and_assoc, or_imp, forall_and]

lemma newest_nonneg (xs : List Sample) : 0 ≤ newest xs := (newest_le.mp le_rfl).1

lemma le_newest (h : x ∈ xs) : x.time ≤ newest xs := (newest_le.mp le_rfl).2 x h

/-- A window that is not full has room for one more. -/
lemma rtake_concat {w : List Int} (h : w.length ≤ p.window) (x : Int) :
    (w ++ [x]).rtake p.window = if w.length < p.window then w ++ [x] else w.tail ++ [x] := by
  have hpos := p.window_pos
  rw [rtake, length_append, length_singleton]
  split
  next hlt => rw [Nat.sub_eq_zero_of_le hlt, drop_zero]
  next hge =>
  have hone : w.length + 1 - p.window = 1 := by omega
  rw [hone, drop_one, tail_append_of_ne_nil]
  rintro rfl
  exact hge hpos

lemma Aggregator.accepts_iff :
    a.accepts x = true ↔ (x.time ≠ 0 ∧ 0 < x.rtt) ∧ a.last ≤ x.time := by
  simp [accepts]

lemma Reads.new : Reads p .new [] :=
  ⟨rfl, fun h => absurd rfl h, rfl, rfl, le_rfl, le_rfl, by simp⟩

lemma Reads.add (h : Reads p a log) (x : Sample) :
    Reads p (a.add p x) (if a.accepts x then log ++ [x] else log) := by
  unfold Aggregator.add
  cases hacc : a.accepts x with
  | false => exact h
  | true =>
    obtain ⟨⟨-, hrtt⟩, hle⟩ := accepts_iff.mp hacc
    have hpos : ∀ y ∈ log ++ [x], 0 < y.rtt := forall_mem_append.mpr ⟨h.pos, by simpa using hrtt⟩
    cases hl : x.loaded with
    | true =>
      have hun : unloaded (log ++ [x]) = unloaded log := by simp [unloaded, hl]
      have hlo : loaded (log ++ [x]) = loaded log ++ [x] := by simp [loaded, hl]
      refine ⟨hun ▸ h.ring, fun _ => rfl, hun ▸ h.sampledAt, ?_, le_trans h.sampled_le hle,
        le_rfl, hpos⟩
      show x.time = newest (loaded (log ++ [x]))
      rw [hlo, newest_concat, ← h.loadedAt, max_eq_right (le_trans h.loaded_le hle)]
    | false =>
      have hun : unloaded (log ++ [x]) = unloaded log ++ [x] := by simp [unloaded, hl]
      have hlo : loaded (log ++ [x]) = loaded log := by simp [loaded, hl]
      refine ⟨?_, fun _ => rfl, ?_, hlo ▸ h.loadedAt, le_rfl, le_trans h.loaded_le hle, hpos⟩
      · show levelShift p _ = windowOf p (unloaded (log ++ [x]))
        rw [hun, windowOf_concat, h.ring, rtake_concat length_windowOf]
      · show x.time = newest (unloaded (log ++ [x]))
        rw [hun, newest_concat, ← h.sampledAt, max_eq_right (le_trans h.sampled_le hle)]

lemma Reads.foldl (h : Reads p a log) (xs : List Sample) :
    Reads p (xs.foldl (Aggregator.add p) a) (log ++ accepted p a xs) := by
  induction xs generalizing a log with
  | nil => exact (append_nil log).symm ▸ h
  | cons x xs ih =>
    have hx := ih (h.add x)
    rw [foldl_cons, accepted]
    cases hacc : a.accepts x with
    | true =>
      rw [hacc, if_pos rfl, append_assoc] at hx
      exact hx
    | false =>
      have hsame : a.add p x = a := by simp [Aggregator.add, hacc]
      rw [hsame, hacc] at hx
      rw [hsame]
      exact hx

lemma Reads.valued (h : Reads p a log) (hne : a.sampledAt ≠ 0) :
    a.seen = true ∧ valued (a.summary p) = true := by
  have hun : unloaded log ≠ [] := by
    intro hnil
    rw [h.sampledAt, hnil] at hne
    exact hne rfl
  have hring : a.ring ≠ [] := by rwa [h.ring, Ne, windowOf_eq_nil]
  have hpos : ∀ r ∈ a.ring, 0 < r := by
    intro r hr
    rw [h.ring] at hr
    obtain ⟨x, hx, rfl⟩ := mem_map.mp ((windowOf_suffix _).subset hr)
    exact h.pos x (mem_of_mem_filter hx)
  refine ⟨h.seen fun hnil => hun (by rw [hnil]; rfl), ?_⟩
  simp only [Quality.valued, summary, if_neg hring, Bool.and_eq_true, decide_eq_true_eq]
  exact ⟨⟨length_pos_of_ne_nil hring, p.mean_pos _ hring hpos⟩, hne⟩

/-! ### The accepted samples -/

lemma Aggregator.add_last (h : a.accepts x = true) : (a.add p x).last = x.time := by
  rw [add, if_neg (by simp [h])]
  split <;> rfl

/-- Samples that an aggregator takes one after the other. -/
structure Takes (a : Aggregator) (xs : List Sample) : Prop where
  sorted : xs.Pairwise fun x y => x.time ≤ y.time
  each : ∀ x ∈ xs, a.accepts x = true

lemma takes_accepted (a : Aggregator) (xs : List Sample) : Takes a (accepted p a xs) := by
  induction xs generalizing a with
  | nil => exact ⟨List.Pairwise.nil, by simp [accepted]⟩
  | cons x xs ih =>
    rw [accepted]
    split
    next hacc =>
      have h := ih (a.add p x)
      have hle : ∀ y ∈ accepted p (a.add p x) xs, x.time ≤ y.time := by
        intro y hy
        have hy' := accepts_iff.mp (h.each y hy)
        rw [add_last hacc] at hy'
        exact hy'.2
      refine ⟨pairwise_cons.mpr ⟨hle, h.sorted⟩, fun y hy => ?_⟩
      rcases mem_cons.mp hy with rfl | hy
      · exact hacc
      · rw [accepts_iff] at hacc ⊢
        exact ⟨(accepts_iff.mp (h.each y hy)).1, le_trans hacc.2 (hle y hy)⟩
    · exact ih a

/-- All samples of such a list are accepted. -/
lemma Takes.accepted_eq (h : Takes a xs) : accepted p a xs = xs := by
  induction xs generalizing a with
  | nil => rfl
  | cons x xs ih =>
    have hacc := h.each x (mem_cons_self ..)
    have hsorted := pairwise_cons.mp h.sorted
    rw [accepted, if_pos hacc, ih ⟨hsorted.2, fun z hz => ?_⟩]
    rw [accepts_iff, add_last hacc]
    exact ⟨(accepts_iff.mp (h.each z (mem_cons_of_mem _ hz))).1, hsorted.1 z hz⟩

lemma accepted_append (xs ys : List Sample) (a : Aggregator) :
    accepted p a (xs ++ ys) = accepted p a xs ++ accepted p (xs.foldl (add p) a) ys := by
  induction xs generalizing a with
  | nil => rfl
  | cons x xs ih =>
    rw [cons_append, accepted, accepted]
    split
    · rw [ih, cons_append, foldl_cons]
    next hacc => rw [ih, foldl_cons, add, if_pos (by simpa using hacc)]

/-- **A sample lasts.** From the time of the newest unloaded sample of a summary on, the evidence at
an instant is that of a sample at least as new. -/
lemma sampledAt_filter (ys : List Sample) {u : Int} (hu : (aggregate p xs).sampledAt ≤ u) :
    let log := (accepted p .new (xs ++ ys)).filter (·.time ≤ u)
    Reads p (aggregate p log) log ∧ 0 ≤ (aggregate p xs).sampledAt ∧
      (aggregate p xs).sampledAt ≤ (aggregate p log).sampledAt := by
  intro log
  have htakes : Takes .new log := by
    have h := takes_accepted (p := p) .new (xs ++ ys)
    exact ⟨h.sorted.filter _, fun x hx => h.each x (mem_of_mem_filter hx)⟩
  have hread := Reads.new.foldl (p := p) xs
  have hlog := Reads.new.foldl (p := p) log
  rw [nil_append] at hread hlog
  rw [htakes.accepted_eq] at hlog
  rw [aggregate, hread.sampledAt] at hu
  rw [aggregate, aggregate, hread.sampledAt, hlog.sampledAt]
  refine ⟨hlog, newest_nonneg _, newest_le.mpr ⟨newest_nonneg _, fun x hx => le_newest ?_⟩⟩
  have hx' := mem_filter.mp hx
  refine mem_filter.mpr ⟨mem_filter.mpr ⟨?_, decide_eq_true ((le_newest hx).trans hu)⟩, hx'.2⟩
  rw [accepted_append]
  exact mem_append_left _ hx'.1

/-- `Classify` is Fresh on a valued summary within the window. -/
lemma classify_fresh_iff {s : Summary} {now fresh : Int} :
    (classify s now fresh).state = .fresh ↔
      s.seen = true ∧ valued s = true ∧ within now s.sampledAt fresh = true := by
  unfold classify
  by_cases hs : s.seen = true
  · rw [if_neg (by simp [hs])]
    by_cases hv : (valued s && within now s.sampledAt fresh) = true
    · rw [if_pos hv]
      exact ⟨fun _ => ⟨hs, by simpa using hv⟩, fun _ => rfl⟩
    · rw [if_neg hv]
      refine ⟨fun h => ?_, fun h => absurd (by simpa using h.2) hv⟩
      split at h <;> cases h
  · rw [if_pos (by simpa using hs)]
    exact ⟨nofun, fun h => absurd h.1 hs⟩

/-- **Fresh at an instant**: a summary seen elsewhere, of a sample stamped by then and within the
window, makes the evidence Fresh. -/
lemma evidenceAt_fresh {xs ys : List Sample} {fresh u : Int}
    (hne : (aggregate p xs).sampledAt ≠ 0) (hu : (aggregate p xs).sampledAt ≤ u)
    (hw : sub u (aggregate p xs).sampledAt ≤ fresh) :
    (evidenceAt p fresh (xs ++ ys) u).state = .fresh := by
  obtain ⟨hread, h0, h2⟩ := sampledAt_filter ys hu
  have hpos := lt_of_lt_of_le (lt_of_le_of_ne h0 hne.symm) h2
  obtain ⟨hseen, hval⟩ := hread.valued hpos.ne'
  refine classify_fresh_iff.mpr ⟨hseen, hval, ?_⟩
  have hle : sub u (aggregate p ((accepted p .new (xs ++ ys)).filter (·.time ≤ u))).sampledAt ≤
      sub u (aggregate p xs).sampledAt := by
    unfold sub
    omega
  exact Bool.and_eq_true_iff.mpr ⟨decide_eq_true hpos.ne', decide_eq_true (le_trans hle hw)⟩

end Rendr.Quality

import Mathlib.Tactic
import Rendr.Lib.Run

/-!
# The redial cadence of a slot

`sched.Cadence` (`cadence.go`) with the history of its calls. A time is in nanoseconds since the
zero time, a duration in nanoseconds, and no sum of them overflows; the jitter of `Backoff`, computed
in floating point, is a given function of the capped interval.

* `cadence_history` — in every history of Ready-gated Starts, Finishes and Kicks one attempt runs at
  a time, an attempt after a failure or a refusal starts no earlier than the backoff allows, and a
  refusal resets the count of failures only where it may.
-/

namespace Rendr.Cadence

/-- `BackoffBase`. -/
def backoffBase : Int := 500000000

/-- `maxBackoffShift`. -/
def maxBackoffShift : Nat := 32

/-- `recoverSpan`. -/
def recoverSpan : Int := 4

/-- `Outcome`; any other value counts as a failure. -/
inductive Outcome
  | failed
  | refused
  | attached
  | unknown
  deriving DecidableEq, Repr

variable {ι : Type} (jitter : Int → ι → Int)

/-- `Backoff`. -/
def backoff (n : Nat) (max : Int) (u : ι) : Int :=
  let d := backoffBase * 2 ^ min n maxBackoffShift
  jitter (if 0 < max ∧ max < d then max else d) u

/-- `Cadence`; the zero time is 0. -/
structure Slot where
  fails : Nat
  running : Bool
  immediate : Bool
  attempt : Nat
  lastStart : Nat
  nextAt : Nat
  refused : Bool
  kicked : Bool
  recoverFrom : Nat
  deriving DecidableEq, Repr

open Slot

namespace Slot

def new : Slot := ⟨0, false, false, 0, 0, 0, false, false, 0⟩

/-- `Ready`: an attempt may start, or when it can. -/
def ready (c : Slot) (now : Nat) : Bool × Nat :=
  if c.running then (false, 0)
  else if c.immediate ∨ c.nextAt = 0 ∨ ¬now < c.nextAt then (true, 0)
  else (false, c.nextAt)

/-- `Start`. -/
def start (c : Slot) (now : Nat) : Slot :=
  { c with
    running := true
    immediate := false
    kicked := false
    recoverFrom := if c.kicked then now else c.recoverFrom
    attempt := c.attempt + 1
    lastStart := now }

/-- `recovering`. -/
def recovering (c : Slot) (max : Int) : Bool :=
  c.recoverFrom ≠ 0 && decide ((c.lastStart : Int) < c.recoverFrom + recoverSpan * max)

/-- `backoff`. -/
def back (c : Slot) (now : Nat) (max : Int) (u : ι) : Slot :=
  let next := c.lastStart + backoff jitter c.fails max u
  { c with nextAt := if next < now then now else next.toNat, fails := c.fails + 1 }

/-- A refusal resets the count of failures. -/
def resets (c : Slot) (o : Outcome) (max : Int) : Bool :=
  o = .refused && (!c.refused || c.recovering max)

/-- `Finish`. -/
def finish (c : Slot) (now id : Nat) (o : Outcome) (max : Int) (u : ι) : Slot × Bool :=
  if !c.running || id ≠ c.attempt then (c, false)
  else
    let c : Slot := { c with running := false }
    match o with
    | .attached =>
      ({ c with fails := 0, refused := false, kicked := false, recoverFrom := 0, nextAt := 0 }, true)
    | .refused =>
      let c : Slot := if c.resets o max then { c with fails := 0 } else c
      ({ c with refused := true }.back jitter now max u, true)
    | .failed | .unknown => (c.back jitter now max u, true)

/-- `Kick`. -/
def kick (c : Slot) : Slot :=
  { c with immediate := true, kicked := c.kicked || decide (0 < c.attempt) }

end Slot

/-! ### Histories -/

/-- What happened to a slot: a Start at a time, an effective Finish with its outcome, cap and jitter
and whether it reset the count, a Kick. -/
inductive Act (ι : Type)
  | start (now : Nat)
  | finish (now : Nat) (o : Outcome) (max : Int) (u : ι) (reset : Bool)
  | kick

/-- The calls; a Start is made only when Ready. -/
inductive Call (ι : Type)
  | start (now : Nat)
  | finish (now id : Nat) (o : Outcome) (max : Int) (u : ι)
  | kick

/-- A slot and its history, the newest first. -/
structure Run (ι : Type) where
  c : Slot
  log : List (Act ι)

def Run.step (r : Run ι) : Call ι → Run ι
  | .start now => if (r.c.ready now).1 then ⟨r.c.start now, .start now :: r.log⟩ else r
  | .finish now id o max u =>
    let (c, ok) := r.c.finish jitter now id o max u
    if ok then ⟨c, .finish now o max u (r.c.resets o max) :: r.log⟩ else r
  | .kick => ⟨r.c.kick, .kick :: r.log⟩

/-- An attempt is in flight. -/
def runs : List (Act ι) → Bool
  | [] => false
  | .start _ :: _ => true
  | .finish .. :: _ => false
  | .kick :: log => runs log

/-- The latest Start. -/
def lastStart : List (Act ι) → Nat
  | [] => 0
  | .start now :: _ => now
  | _ :: log => lastStart log

/-- The Starts. -/
def starts : List (Act ι) → Nat
  | [] => 0
  | .start _ :: log => starts log + 1
  | _ :: log => starts log

/-- The failed and refused outcomes, back to the last Attached, not counted, or the last refusal
that reset the count, counted. -/
def failures : List (Act ι) → Nat
  | [] => 0
  | .finish _ o _ _ reset :: log =>
    if o = .attached then 0 else if reset then 1 else failures log + 1
  | _ :: log => failures log

/-- A refusal since the last Attached. -/
def refusedSince : List (Act ι) → Bool
  | [] => false
  | .finish _ o _ _ _ :: log => if o = .attached then false else o = .refused || refusedSince log
  | _ :: log => refusedSince log

/-- A Kick of a slot that had dialled, with no Start and no Attached since. -/
def kickedSince : List (Act ι) → Bool
  | [] => false
  | .start _ :: _ => false
  | .finish _ o _ _ _ :: log => if o = .attached then false else kickedSince log
  | .kick :: log => kickedSince log || decide (0 < starts log)

/-- The latest Start that was the first after such a Kick, with no Attached since. -/
def window : List (Act ι) → Option Nat
  | [] => none
  | .start now :: log => if kickedSince log then some now else window log
  | .finish _ o _ _ _ :: log => if o = .attached then none else window log
  | .kick :: log => window log

/-- **What the newest entry of a history respects.** -/
def Entry : List (Act ι) → Prop
  | .start t :: log => runs log = false ∧
    ∀ e o max u reset s before, log = .finish e o max u reset :: .start s :: before →
      o ≠ .attached → e ≤ t ∧
        s + backoff jitter (if reset then 0 else failures before) max u ≤ t
  | .finish _ o max _ reset :: log => runs log = true ∧
    (reset = true → o = .refused ∧ (refusedSince log = false ∨
      ∃ from₀, window log = some from₀ ∧ (lastStart log : Int) < from₀ + recoverSpan * max))
  | _ => True

/-- The slot is what its history says. -/
structure Inv (r : Run ι) : Prop where
  fails : r.c.fails = failures r.log
  running : r.c.running = runs r.log
  attempt : r.c.attempt = starts r.log
  last : r.c.lastStart = lastStart r.log
  refused : r.c.refused = refusedSince r.log
  kicked : r.c.kicked = kickedSince r.log
  window : r.c.recoverFrom = (window r.log).getD 0
  started : ∀ s log, r.log = .start s :: log → r.c.immediate = false
  gate : ∀ e o max u reset s log, r.log = .finish e o max u reset :: .start s :: log →
    o ≠ .attached → r.c.immediate = false ∧ e ≤ r.c.nextAt ∧
      s + backoff jitter (if reset then 0 else failures log) max u ≤ r.c.nextAt
  entries : ∀ l, l <:+ r.log → Entry jitter l

variable {jitter} {r : Run ι}

lemma Inv.new : Inv jitter (⟨.new, []⟩ : Run ι) := by
  refine ⟨rfl, rfl, rfl, rfl, rfl, rfl, rfl, by rintro s log ⟨⟩, by rintro e o max u reset s log ⟨⟩,
    fun l hl => ?_⟩
  rw [List.suffix_nil.mp hl]
  trivial

/-- The history grows by an entry. -/
lemma Inv.push (h : Inv jitter r) {a : Act ι} (ha : Entry jitter (a :: r.log)) :
    ∀ l, l <:+ a :: r.log → Entry jitter l := by
  intro l hl
  rcases List.suffix_cons_iff.mp hl with rfl | hl
  · exact ha
  · exact h.entries l hl

lemma Slot.ready_iff {c : Slot} {now : Nat} : (c.ready now).1 = true ↔
    c.running = false ∧ (c.immediate = true ∨ c.nextAt = 0 ∨ c.nextAt ≤ now) := by
  unfold ready
  cases hr : c.running <;> simp
  split <;> simp_all

lemma Inv.start (h : Inv jitter r) {now : Nat} (hr : (r.c.ready now).1 = true) :
    Inv jitter ⟨r.c.start now, .start now :: r.log⟩ := by
  obtain ⟨hidle, hready⟩ := Slot.ready_iff.mp hr
  refine ⟨h.fails, rfl, congrArg (· + 1) h.attempt, rfl, h.refused, rfl, ?_, fun _ _ _ => rfl,
    by rintro e o max u reset s log ⟨⟩, h.push ⟨h.running.symm.trans hidle, ?_⟩⟩
  · have hw := h.window
    simp only [Slot.start, h.kicked, Cadence.window]
    split
    · rfl
    · exact hw
  -- after a failure the slot is Ready only by its backoff
  intro e o max u reset s before hlog ho
  obtain ⟨himm, hend, hback⟩ := h.gate e o max u reset s before hlog ho
  rw [himm] at hready
  have hnext : r.c.nextAt ≤ now := by
    rcases hready with ⟨⟨⟩⟩ | hzero | hle
    · omega
    · exact hle
  exact ⟨le_trans hend hnext, le_trans hback (Int.ofNat_le.mpr hnext)⟩

lemma Inv.kick (h : Inv jitter r) : Inv jitter ⟨r.c.kick, .kick :: r.log⟩ :=
  { h with
    kicked := by simp only [Slot.kick, kickedSince, h.kicked, h.attempt]
    started := by rintro s log ⟨⟩
    gate := by rintro e o max u reset s log ⟨⟩
    entries := h.push trivial }

variable {o : Outcome} {max : Int}

/-- A failure or a refusal that ends the running attempt. -/
lemma Slot.finish_back {c : Slot} {now id : Nat} {u : ι}
    (hid : (!c.running || id ≠ c.attempt) = false) (ho : o ≠ .attached) :
    c.finish jitter now id o max u = (back jitter { c with
      running := false, fails := if c.resets o max then 0 else c.fails,
      refused := c.refused || o = .refused } now max u, true) := by
  unfold finish
  rw [if_neg (by rw [hid]; decide)]
  cases o with
  | attached => exact absurd rfl ho
  | refused =>
    simp only [resets, recovering]
    split <;> simp_all
  | failed | unknown => simp [resets]

/-- What a reset says about the history. -/
lemma Inv.resets (h : Inv jitter r) (hr : r.c.resets o max = true) :
    o = .refused ∧ (refusedSince r.log = false ∨ ∃ from₀, Cadence.window r.log = some from₀ ∧
      (lastStart r.log : Int) < from₀ + recoverSpan * max) := by
  simp only [Slot.resets, Bool.and_eq_true, decide_eq_true_eq, Bool.or_eq_true,
    Bool.not_eq_true'] at hr
  refine ⟨hr.1, hr.2.imp (fun hn => h.refused.symm.trans hn) fun hw => ?_⟩
  simp only [recovering, Bool.and_eq_true, decide_eq_true_eq, h.window, h.last] at hw
  cases hlog : Cadence.window r.log with
  | none =>
    rw [hlog] at hw
    exact absurd rfl hw.1
  | some f =>
    rw [hlog] at hw
    exact ⟨f, rfl, hw.2⟩

lemma Inv.finish (h : Inv jitter r) {now id : Nat} {u : ι}
    (hid : (!r.c.running || id ≠ r.c.attempt) = false) :
    Inv jitter ⟨(r.c.finish jitter now id o max u).1,
      .finish now o max u (r.c.resets o max) :: r.log⟩ := by
  have hruns : runs r.log = true := by
    rw [← h.running]
    by_contra hn
    simp [hn] at hid
  have hentries := h.push (a := .finish now o max u (r.c.resets o max)) ⟨hruns, h.resets⟩
  by_cases ho : o = .attached
  · subst ho
    have e : (r.c.finish jitter now id .attached max u).1 = { r.c with
        running := false, fails := 0, refused := false, kicked := false, recoverFrom := 0,
        nextAt := 0 } := by
      unfold finish
      rw [if_neg (by rw [hid]; decide)]
    rw [e]
    refine ⟨rfl, rfl, h.attempt, h.last, rfl, rfl, rfl, by rintro s log ⟨⟩, ?_, hentries⟩
    intro e o max u reset s log hlog hne
    obtain ⟨⟨⟩, -⟩ := List.cons.inj hlog
    exact absurd rfl hne
  rw [finish_back hid ho]
  refine ⟨?_, rfl, h.attempt, h.last, ?_, ?_, ?_, by rintro s log ⟨⟩, ?_, hentries⟩
  · simp only [back, failures, if_neg ho, h.fails]
    split <;> rfl
  · simp only [back, refusedSince, if_neg ho, h.refused, Bool.or_comm]
  · simp only [back, kickedSince, if_neg ho, h.kicked]
  · simp only [back, Cadence.window, if_neg ho, h.window]
  intro e o' max' u' reset s log hlog _
  obtain ⟨⟨⟩, htail⟩ := List.cons.inj hlog
  have hlast := h.last
  have hfails := h.fails
  rw [htail] at hlast hfails
  change r.c.lastStart = s at hlast
  change r.c.fails = failures log at hfails
  refine ⟨h.started s log htail, ?_⟩
  simp only [back, hlast, hfails]
  generalize (s : Int) + backoff jitter (if r.c.resets o max then 0 else failures log) max u = b
  split <;> omega

/-- **One call** keeps the slot what its history says. -/
lemma Inv.step (h : Inv jitter r) (call : Call ι) : Inv jitter (r.step jitter call) := by
  cases call with
  | start now =>
    rw [Run.step]
    exact guard h fun hr => h.start hr
  | finish now id o max u =>
    rw [Run.step]
    cases hid : (!r.c.running || id ≠ r.c.attempt) with
    | true =>
      rw [Slot.finish, if_pos hid]
      exact h
    | false =>
      have hok : (r.c.finish jitter now id o max u).2 = true := by
        by_cases ho : o = .attached
        · rw [Slot.finish, if_neg (by rw [hid]; decide), ho]
        · rw [finish_back hid ho]
      dsimp only
      rw [if_pos hok]
      exact h.finish hid
  | kick => exact h.kick

variable (jitter)

/-- **The redial cadence.** In every history of a slot: an attempt starts only when none runs and
ends once; after an attempt from `s` to `e` that failed or was refused, with no Kick in it or since,
the next starts at `e` and `s + Backoff(n, max, u)` or later, `n` the failures counted; and a refusal
resets the count only as the first since the last Attached, or of an attempt in the window of a
recovery. A Finish with another id changes nothing. -/
theorem cadence_history (calls : List (Call ι)) :
    let r := runFrom (Run.step jitter) ⟨.new, []⟩ calls
    (∀ l, l <:+ r.log → Entry jitter l) ∧ r.c.running = runs r.log ∧
      ∀ now id o max u, id ≠ r.c.attempt → r.step jitter (.finish now id o max u) = r := by
  intro r
  have h : Inv jitter r := runFrom_inv (Inv jitter) Inv.new fun r call _ h => h.step call
  refine ⟨h.entries, h.running, fun now id o max u hid => ?_⟩
  rw [Run.step, finish, if_pos (by simp [hid])]
  rfl

end Rendr.Cadence

import Rendr.Sched.Evidence

/-!
# The quality rule of the selector

`Selector.Evaluate`, `Switched` and `SetClasses` (`selector.go`). The bit set of qualifying
factories and the arrays of clocks are functions of the factory's index; the comparison of a
challenger's RTT with the band of the active one, made in floating point, is a given predicate.
-/

namespace Rendr.Quality

def maxFactories : Nat := 16

/-- The two's complement value of a duration. -/
def wrap64 (x : Int) : Int := (x + 2 ^ 63) % 2 ^ 64 - 2 ^ 63

/-- `SelectorParams`; `band ch act` compares a challenger's RTT with the active one's. -/
structure SelectorParams where
  band : Int → Int → Bool
  floor : Int
  dwell : Int
  cooldown : Int
  fresh : Int
  fresh_ge : -2 ^ 63 ≤ fresh
  fresh_lt : fresh < 2 ^ 63

structure Selector where
  inc : Int
  qual : Nat → Bool
  since : Nat → Int
  seen : Nat → Int
  lastQual : Int
  hasQual : Bool
  cls : Nat → Nat

/-- `NewSelector`. -/
def Selector.new : Selector := ⟨0, fun _ => false, fun _ => 0, fun _ => 0, 0, false, fun _ => 0⟩

/-- `Verdict`. -/
structure Verdict where
  switch : Option Nat
  wake : Int
  deriving DecidableEq, Repr

/-- `earlier`, where 0 is never. -/
def earlier (a b : Int) : Int := if a = 0 ∨ b ≠ 0 ∧ b < a then b else a

variable (p : SelectorParams)

/-- `ageWake`. -/
def ageWake (now : Int) (sum : List Summary) : Int :=
  sum.foldl (fun w s => earlier w (nextChange s now p.fresh)) 0

/-- The summary of a factory. -/
def sumAt (sum : List Summary) (i : Nat) : Summary := sum.getD i default

/-- `challenger`. -/
def challenger (now : Int) (i : Nat) (sum : List Summary) (failed : List Bool) : Evidence × Bool :=
  if failed.getD i false then (⟨.unknown, 0⟩, false)
  else
    let ev := classify (sumAt sum i) now p.fresh
    (ev, ev.state = .fresh && 0 < ev.rtt && !((sumAt sum i).sampledAt < (sumAt sum i).loadedAt))

/-- `gap`. -/
def Selector.gap (s : Selector) (i : Nat) (t : Int) : Bool :=
  t < s.seen i || s.seen i + wrap64 (p.fresh + 1) < t

/-- `classOf`. -/
def classOf (cls : Nat → Nat) (i : Int) : Nat :=
  if i < 0 ∨ maxFactories ≤ i then 0 else cls i.toNat

/-- `qualifies`. -/
def qualifies (act : Evidence) (actClass : Nat) (ch : Evidence) (chClass : Nat) : Bool :=
  if actClass < chClass then false
  else if chClass < actClass then true
  else if act.state = .fresh ∨ act.state = .held then
    if act.rtt ≤ 0 then false else p.band ch.rtt act.rtt && p.floor ≤ act.rtt - ch.rtt
  else true

/-- The loop variables of `Evaluate`. -/
structure Scan where
  s : Selector
  best : Option (Nat × Int)
  dwellEnd : Int

/-- An `Evaluate` call, with the classes in force. -/
structure Eval where
  now : Int
  active : Int
  sum : List Summary
  failed : List Bool
  cls : Nat → Nat

/-- The evidence of the active factory. -/
def Eval.act (e : Eval) : Evidence := classify (sumAt e.sum e.active.toNat) e.now p.fresh

/-- The newest unloaded sample of a factory. -/
def Eval.stamp (e : Eval) (i : Nat) : Int := (sumAt e.sum i).sampledAt

/-- The RTT of a factory's evidence. -/
def Eval.rtt (e : Eval) (i : Nat) : Int := (challenger p e.now i e.sum e.failed).1.rtt

/-- The factory may challenge and qualifies. -/
def Eval.good (e : Eval) (i : Nat) : Bool :=
  (challenger p e.now i e.sum e.failed).2 &&
    qualifies p (e.act p) (classOf e.cls e.active) (challenger p e.now i e.sum e.failed).1 (e.cls i)

/-- The clock of a qualifying factory starts, restarts or goes on. -/
def Selector.mark (s : Selector) (e : Eval) (i : Nat) : Selector :=
  let s : Selector :=
    if !s.qual i || s.gap p i (e.stamp i) then
      { s with qual := Function.update s.qual i true, since := Function.update s.since i e.now }
    else s
  { s with seen := Function.update s.seen i (e.stamp i) }

/-- The best completed dwell so far, with another one. -/
def Scan.rank (c : Scan) (e : Eval) (i : Nat) : Nat × Int :=
  match c.best with
  | none => (i, e.rtt p i)
  | some (b, rtt) =>
    if e.cls i < e.cls b ∨ e.cls i = e.cls b ∧ e.rtt p i < rtt then (i, e.rtt p i) else (b, rtt)

/-- One turn of the loop of `Evaluate`. -/
def visit (e : Eval) (c : Scan) (i : Nat) : Scan :=
  if (i : Int) = e.active then c
  else if !e.good p i then
    { c with s := { c.s with qual := Function.update c.s.qual i false } }
  else
    let s := c.s.mark p e i
    let dwellEnd := s.since i + p.dwell
    if e.now < dwellEnd then { c with s := s, dwellEnd := earlier c.dwellEnd dwellEnd }
    else { c with s := s, best := some (c.rank p e i) }

/-- The state before the loop of `Evaluate`. -/
def Selector.begin (s : Selector) (e : Eval) (n : Nat) : Selector :=
  let s : Selector :=
    if e.active ≠ s.inc then { s with qual := fun _ => false, inc := e.active } else s
  { s with qual := fun i => s.qual i && i < n }

/-- `Evaluate`. -/
def Selector.evaluate (s : Selector) (e : Eval) : Selector × Verdict :=
  let wake := ageWake p e.now e.sum
  if e.active < 0 ∨ e.sum.length ≤ e.active then
    ({ s with qual := fun _ => false }, ⟨none, wake⟩)
  else
    let n := min e.sum.length maxFactories
    let c := (List.range n).foldl (visit p e) ⟨s.begin e n, none, 0⟩
    match c.best with
    | none => (c.s, ⟨none, earlier wake c.dwellEnd⟩)
    | some (b, _) =>
      if c.s.hasQual ∧ e.now < c.s.lastQual + p.cooldown then
        (c.s, ⟨none, earlier wake (c.s.lastQual + p.cooldown)⟩)
      else (c.s, ⟨some b, wake⟩)

/-- `Switched`. -/
def Selector.switched (s : Selector) (now : Int) (quality : Bool) : Selector :=
  let s : Selector := { s with qual := fun _ => false }
  if quality then { s with lastQual := now, hasQual := true } else s

/-! ### Runs -/

/-- The calls of the session. -/
inductive Call
  | evaluate (now active : Int) (sum : List Summary) (failed : List Bool)
  | switched (now : Int) (quality : Bool)
  | setClasses (c : List Nat)

/-- The calls made, as they count for the dwell. -/
inductive Rec
  | eval (e : Eval)
  | switched (now : Int) (quality : Bool)

def Rec.now : Rec → Int
  | .eval e => e.now
  | .switched now _ => now

/-- A selector with its history, the newest call first. -/
structure Run where
  s : Selector
  log : List Rec

def Run.start : Run := ⟨.new, []⟩

/-- The call that an `Evaluate` of this selector is. -/
def Run.eval (r : Run) (now active : Int) (sum : List Summary) (failed : List Bool) : Eval :=
  ⟨now, active, sum, failed, r.s.cls⟩

def Run.step (r : Run) : Call → Run
  | .evaluate now active sum failed =>
    let e := r.eval now active sum failed
    ⟨(r.s.evaluate p e).1, .eval e :: r.log⟩
  | .switched now quality => ⟨r.s.switched now quality, .switched now quality :: r.log⟩
  | .setClasses c =>
    ⟨{ r.s with cls := fun i => if i < maxFactories then c.getD i 0 else 0 }, r.log⟩

end Rendr.Quality

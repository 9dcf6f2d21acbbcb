import Mathlib.Logic.Function.Basic
import Mathlib.Data.List.Count
import Rendr.Lib.Run

/-!
# The ready set of a MUX trunk

The ready ring and the writer's round (`mux.go`): `wakeView`, `readyLocked`, `unreadyLocked`,
`takeReadyLocked`, the control pass and the turns of `drrRound` and `drrTurn`, and
`returnScratchLocked`, on a trunk with a view table. A step is one atomic operation or one section
of `trunk.mx`: a Wake loads `fillOK`, swaps `ready` and pushes in three steps, and the writer loads,
clears and swaps flags while Wakes, ends, holds and go frames come in between.

The order of the ring and of the scratch decides nothing, so both are lists; what a Fill places
(payload, control frames only, nothing) and what the batch has room for are outcomes of the turn.
The slot of the view whose turn runs is the program counter's: `ready` was cleared before the call,
and the slot is emptied or kept after it.
-/

namespace Rendr.Mux.Ready

/-- A view, as the ready set sees it. -/
structure View where
  ready : Bool
  fillOK : Bool
  inTable : Bool
  /-- The handle was used: it is never used again. -/
  used : Bool
  /-- A session attached it (`startView`). -/
  started : Bool
  /-- Its OK response is placed, the go frame is awaited. -/
  held : Bool
  /-- It is never fillable again: retired, abandoned, answering last or ended. -/
  closed : Bool
  /-- It left the ready ring for good. -/
  finished : Bool
  /-- A Wake completed after its most recent Fill call began. -/
  woken : Bool
  /-- Its turn was cut short by the batch's end or the capacity cap. -/
  resume : Bool
  deriving DecidableEq, Repr

/-- A handle that was never used. -/
def View.fresh : View :=
  ⟨false, false, false, false, false, false, false, false, false, false⟩

/-- Where the writer is. -/
inductive Pc
  | idle
  /-- The control pass of a round. -/
  | control
  /-- Between two turns. -/
  | drr
  /-- The turn's `fillOK` was set, or was not. -/
  | chosen (v : Nat)
  | dropping (v : Nat)
  /-- A turn's Fill call runs (`drrTurn`). -/
  | turn (v : Nat)
  /-- The turn left the view ready: the flag is set next, then it is pushed. -/
  | stay (v : Nat)
  | push (v : Nat)
  deriving DecidableEq, Repr

/-- The ready state of a trunk. -/
structure State where
  views : Nat → View
  /-- The views `nviews` counts. -/
  live : List Nat
  ring : List Nat
  /-- `pushReadyLocked` panicked. -/
  overflow : Bool
  /-- Wakes that saw `fillOK` and swap `ready` next, and Wakes that set it and push next. -/
  loaders : List Nat
  wakers : List Nat
  /-- The slots of the writer's scratch that hold a view. -/
  scratch : List Nat
  pc : Pc

/-- What a turn's Fill call ends with. -/
inductive Outcome
  /-- Stuck for want of room, or control frames only: the view stays ready. -/
  | stays
  /-- Nothing placed. -/
  | idle
  /-- Payload placed, and the turn cut short or not. -/
  | payload (cut : Bool)
  deriving DecidableEq, Repr

namespace State

variable (maxViews : Nat)

/-- A view changed. -/
def upd (s : State) (v : Nat) (f : View → View) : State :=
  { s with views := Function.update s.views v (f (s.views v)) }

/-- `v.ready.Store`. -/
def setReady (s : State) (v : Nat) (b : Bool) : State := s.upd v fun w => { w with ready := b }

/-- `pushReadyLocked`, on a ring of `maxViews + 1` entries. -/
def pushReady (s : State) (v : Nat) : State :=
  if maxViews + 1 ≤ s.ring.length then { s with overflow := true }
  else { s with ring := s.ring ++ [v] }

/-- `unreadyLocked`. -/
def unready (s : State) (v : Nat) : State :=
  if v ∈ s.ring then { s with ring := s.ring.filter (· ≠ v) }.setReady v false else s

/-- `readyLocked`. -/
def readyLocked (s : State) (v : Nat) : State :=
  if (s.views v).fillOK && !(s.views v).ready then (s.setReady v true).pushReady maxViews v else s

/-- The push of a view whose flag was set: in the ring while the view is fillable in the table,
else the flag is cleared. -/
def pushOrClear (s : State) (v : Nat) : State :=
  if (s.views v).inTable && (s.views v).fillOK then s.pushReady maxViews v
  else s.setReady v false

/-- A Wake completed. -/
def woke (s : State) (v : Nat) : State := s.upd v fun w => { w with woken := true }

/-- A Fill call begins. -/
def fillBegins (s : State) (v : Nat) : State := s.upd v fun w => { w with woken := false }

/-- One slot of `returnScratchLocked`. -/
def returnOne (s : State) (v : Nat) : State :=
  let s : State := { s with scratch := s.scratch.erase v }
  if (s.views v).ready then s.pushOrClear maxViews v else s

/-- The loop of `returnScratchLocked`. -/
def returnLoop : List Nat → State → State
  | [], s => s
  | v :: vs, s => returnLoop vs (s.returnOne maxViews v)

/-- What happens to a trunk's views. -/
inductive Ev
  /-- A view is created, its session attaches, its OK response holds it, the go frame ends the
  hold. -/
  | add (v : Nat)
  | start (v : Nat)
  | hold (v : Nat)
  | go (v : Nat)
  /-- A retirement whose DETACH finds no room; the view's part in the writer ends; it leaves the
  table; its Done closes. -/
  | drain (v : Nat)
  | finish (v : Nat)
  | remove (v : Nat)
  | done (v : Nat)
  /-- A PONG, a RACK, a WakeAt or a retirement readies the view (`readyLocked`). -/
  | ready (v : Nat)
  /-- The steps of a Wake. -/
  | wakeLoad (v : Nat)
  | wakeSwap (v : Nat)
  | wakePush (v : Nat)
  /-- The steps of a round. -/
  | take
  | controlCall (v : Nat)
  | drr
  | look (v : Nat)
  | drop
  | call
  | callAgain
  | endCall (o : Outcome)
  | staySwap
  | stayPush
  | giveBack
  deriving DecidableEq, Repr

/-- One step. -/
def step (s : State) : Ev → State
  | .add v =>
    if (s.views v).used || maxViews ≤ s.live.length then s
    else
      { (s.upd v fun w => { w with inTable := true, used := true }) with live := v :: s.live }
  | .start v =>
    let w := s.views v
    if w.inTable && !w.started && !w.closed then
      (s.upd v fun w => { w with started := true, fillOK := true }).readyLocked maxViews v
    else s
  | .hold v =>
    if (s.views v).fillOK then s.upd v fun w => { w with held := true, fillOK := false } else s
  | .go v =>
    let w := s.views v
    if w.held && !w.closed then
      (s.upd v fun w => { w with held := false, fillOK := true }).readyLocked maxViews v
    else s
  | .drain v =>
    if (s.views v).inTable then s.upd v fun w => { w with closed := true, fillOK := false } else s
  | .finish v =>
    if (s.views v).used then
      (s.upd v fun w => { w with closed := true, finished := true, fillOK := false }).unready v
    else s
  | .remove v =>
    if (s.views v).finished then (s.upd v fun w => { w with inTable := false }).unready v else s
  | .done v => if (s.views v).finished then { s with live := s.live.erase v } else s
  | .ready v => s.readyLocked maxViews v
  | .wakeLoad v =>
    if (s.views v).fillOK then { s with loaders := v :: s.loaders } else s.woke v
  | .wakeSwap v =>
    if v ∈ s.loaders then
      let s : State := { s with loaders := s.loaders.erase v }
      if (s.views v).ready then s.woke v
      else { s.setReady v true with wakers := v :: s.wakers }
    else s
  | .wakePush v =>
    if v ∈ s.wakers then
      ({ s with wakers := s.wakers.erase v }.pushOrClear maxViews v).woke v
    else s
  | .take =>
    if s.pc = .idle then { s with ring := [], scratch := s.ring, pc := .control } else s
  | .controlCall v =>
    if s.pc = .control ∧ v ∈ s.scratch ∧ (s.views v).fillOK then s.fillBegins v else s
  | .drr => if s.pc = .control then { s with pc := .drr } else s
  | .look v =>
    if s.pc = .drr ∧ v ∈ s.scratch then
      { s with pc := if (s.views v).fillOK then .chosen v else .dropping v }
    else s
  | .drop =>
    match s.pc with
    | .dropping v => { s with scratch := s.scratch.erase v, pc := .drr }.setReady v false
    | _ => s
  | .call =>
    match s.pc with
    | .chosen v =>
      ({ s with scratch := s.scratch.erase v, pc := .turn v }.setReady v false).fillBegins v
    | _ => s
  | .callAgain =>
    match s.pc with
    | .turn v =>
      -- the rest of a cut turn placed nothing on a batch with room: the next turn starts at once
      if (s.views v).resume then
        (s.upd v fun w => { w with ready := false, resume := false }).fillBegins v
      else s
    | _ => s
  | .endCall o =>
    match s.pc with
    | .turn v =>
      match o with
      | .stays => { s with pc := .stay v }
      | .idle => { s with pc := .drr }
      | .payload cut =>
        let s : State := s.upd v fun w => { w with resume := cut }
        if (s.views v).ready then { s with pc := .drr }
        else { s.setReady v true with scratch := v :: s.scratch, pc := .drr }
    | _ => s
  | .staySwap =>
    match s.pc with
    | .stay v =>
      if (s.views v).ready then { s with pc := .drr }
      else { s.setReady v true with pc := .push v }
    | _ => s
  | .stayPush =>
    match s.pc with
    | .push v => { s with pc := .drr }.pushOrClear maxViews v
    | _ => s
  | .giveBack =>
    match s.pc with
    | .control | .drr => { returnLoop maxViews s.scratch s with pc := .idle }
    | _ => s

/-- The table as `buildTableLocked` leaves it: view 1 in it, and in the ring when it is fillable. -/
def start (fillOK : Bool) : State where
  views v := if v = 1 then ⟨fillOK, fillOK, true, true, true, false, !fillOK, false, false, false⟩
    else .fresh
  live := [1]
  ring := if fillOK then [1] else []
  overflow := false
  loaders := []
  wakers := []
  scratch := []
  pc := .idle

end State

end Rendr.Mux.Ready

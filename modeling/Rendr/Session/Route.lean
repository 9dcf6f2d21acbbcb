import Mathlib
import Rendr.Session.Control

/-!
# Routing: the actor's steps

The actor attaches and removes lanes and decides which of them carry DATA. Each function here is
one of its critical sections, or a part of one the source names. Where the source ranks factories
by SRTT or evidence, or asks a carrier about its peer, the outcome is an input: any usable lane
may be chosen.

Every lane that loses its data eligibility has its spans requeued in the same step.
-/

namespace Rendr

/-- What an attached carrier is for: a view of a started MUX trunk, a member slot of a bond or
race session, the target of a planned switch. -/
structure AttachIn where
  mux : Bool
  member : Bool
  switchTo : Bool

/-- The choices of a routing repair: the selector's fallback, the lane the applied SCHED names,
whether the current sender is still alive, the newest usable lane and the members wanted. -/
structure RouteIn where
  fallback : Option LaneId
  named : Option LaneId
  keep : Bool
  newest : Option LaneId
  want : List LaneId

namespace Session

/-- A lane that may carry DATA, as far as the session knows. -/
def usable (p : Params) (s : Session) (l : LaneId) : Bool :=
  decide (l ∈ s.order) && decide ((s.lanes l).state ≠ .dead) && !(s.lanes l).retireCalled &&
    (decide (p.role = .dialer) || (s.lanes l).firstSent)

/-- A chosen lane, if it is usable. -/
def chosen (p : Params) (s : Session) (o : Option LaneId) : Option LaneId :=
  o.filter fun l => s.usable p l

/-- Create a lane's record and register it. -/
def newLane (l : LaneId) (state : LaneState) (s : Session) : Session :=
  (s.setLane l fun _ => Lane.new true state).laneAdded l

/-- Make `l` the selector's data lane. -/
def activate (l : LaneId) (s : Session) : Session :=
  { s.setLane l fun ln => { ln with data := true, state := .active } with active := some l }

/-- Take a lane out of the data set and requeue its spans. -/
def unroute (p : Params) (l : LaneId) (state : LaneState) (s : Session) : Session :=
  (s.setLane l fun ln => { ln with data := false, state := state }).requeue p l

/-- `Retire` a lane: never a data lane or a fallback again. -/
def retireLane (p : Params) (l : LaneId) (s : Session) : Session :=
  if (s.lanes l).retireCalled then s
  else
    let state := if (s.lanes l).state = .dead then .dead else .retiring
    let s := s.setLane l fun ln => { ln with retireCalled := true }
    let s := { s with active := if s.active = some l then none else s.active }
    s.unroute p l state

/-- A planned switch to `nl`: the old active lane retires and its spans are replayed on `nl`. -/
def qualitySwitch (p : Params) (nl : LaneId) (s : Session) : Session :=
  let old := s.active
  let s := s.activate nl
  match old with
  | none => s
  | some o => if o = nl then s else s.unroute p o .retiring

/-- The selector lost its active lane: a usable lane takes over at once. -/
def lostActive (p : Params) (r : RouteIn) (s : Session) : Session :=
  match s.chosen p r.fallback with
  | none => s
  | some fb => s.activate fb

/-- The passive selector's send lane: the one the SCHED names, else the current one while it
lives, else the newest usable lane. -/
def passiveNext (p : Params) (r : RouteIn) (s : Session) : Option LaneId :=
  match s.chosen p r.named with
  | some l => some l
  | none => if s.active.isSome ∧ r.keep = true then s.active else s.chosen p r.newest

/-- The current sender leaves the data set, unless its lane died. -/
def dropSender (p : Params) (s : Session) : Session :=
  match s.active with
  | none => s
  | some cur =>
    let st := (s.lanes cur).state
    if st = .dead then s else s.unroute p cur (if st = .active then .member else st)

/-- The passive selector's routing. -/
def passiveRouteOne (p : Params) (r : RouteIn) (s : Session) : Session :=
  if s.passiveNext p r = s.active then s
  else
    match s.passiveNext p r with
    | none => { s.dropSender p with active := none }
    | some l => (s.dropSender p).activate l

/-- One lane of the passive bond routing. -/
def routeMember (p : Params) (want : List LaneId) (s : Session) (l : LaneId) : Session :=
  let w := decide (l ∈ want) && (s.usable p l || (s.lanes l).data)
  if w = (s.lanes l).data then s
  else if w then
    s.setLane l fun ln =>
      { ln with data := true, state := if ln.state = .joining then .member else ln.state }
  else s.unroute p l (s.lanes l).state

/-- The passive's data lanes after the applied SCHED or the local fallback. -/
def passiveRoute (p : Params) (r : RouteIn) (s : Session) : Session :=
  if s.rx.ended = true ∨ s.phase ≠ .opn then s
  else if p.mode.members then s.order.foldl (routeMember p r.want) s
  else s.passiveRouteOne p r

/-- The routing repair after a lane left. -/
def repair (p : Params) (r : RouteIn) (wasActive : Bool) (s : Session) : Session :=
  if p.role = .passive then s.passiveRoute p r
  else if p.mode.members = false ∧ wasActive = true then s.lostActive p r
  else s

/-- The death step of a lane. -/
def laneDied (p : Params) (l : LaneId) (r : RouteIn) (s : Session) : Session :=
  if l ∈ s.order then
    let wasActive := decide (s.active = some l)
    let s := s.setLane l fun ln => { ln with state := .dead, data := false }
    let s := s.laneGone p l
    let s := { s with active := if wasActive then none else s.active }
    if s.rx.ended = true ∨ s.phase ≠ .opn then s else s.repair p r wasActive
  else s

/-- The peer's CLOSE on a lane: it is retired and routing repaired. -/
def peerClosed (p : Params) (l : LaneId) (r : RouteIn) (s : Session) : Session :=
  if l ∈ s.order ∧ s.rx.ended = false ∧ (s.lanes l).retireCalled = false then
    let wasActive := decide (s.active = some l)
    let s := s.retireLane p l
    if s.phase ≠ .opn then s else s.repair p r wasActive
  else s

/-! ### The dialer's lanes -/

/-- Fix the early span at the first OPEN attempt. -/
def earlySpan (p : Params) (s : Session) : Session :=
  match s.early with
  | some _ => s
  | none =>
    let k := if p.earlyReturn = true ∧ p.firstOffset = 0 then
        min (s.tx.endOff - p.firstOffset) p.earlyMax
      else 0
    { s with early := some k }

/-- The role of a lane just attached: a member, the selector's lane when there is none, the target
of a planned switch, or a race loser to be retired. -/
def attachRole (p : Params) (l : LaneId) (a : AttachIn) (s : Session) : Session :=
  if p.mode.members then
    if a.member then s.setLane l fun ln => { ln with data := true } else s.retireLane p l
  else if s.active = none then s.activate l
  else if a.switchTo then s.qualitySwitch p l
  else s.retireLane p l

/-- Attach an established carrier and give it its role. -/
def attach (p : Params) (l : LaneId) (a : AttachIn) (s : Session) : Session :=
  let s := (s.newLane l .member).setLane l fun ln => { ln with goOwed := a.mux }
  let s := s.attachRole p l a
  if p.mode = .race then s.setLane l fun ln => { ln with rnext := s.tx.sBase } else s

/-- Apply the early span at the verdict: `kw` bytes of it are in flight on the winner's lane, the
rest is queued (race: left to the cursors). -/
def earlyVerdict (p : Params) (l : LaneId) (early : Bool) (s : Session) : Session :=
  let k0 := s.early.getD 0
  let kw := if early then k0 else 0
  if k0 = 0 then s
  else
    let s := s.withTx fun t => { t with sNext := max t.sNext (p.firstOffset + k0) }
    let s := s.setLane l fun ln =>
      { ln with
        infl := ln.infl.add p.firstOffset kw
        rnext := if p.mode = .race then p.firstOffset + kw else ln.rnext }
    if p.mode ≠ .race ∧ kw < k0 then
      s.withTx fun t => { t with retx := t.retx.add (p.firstOffset + kw) (k0 - kw) }
    else s

/-- OPEN_ACK(OK) on an attempt that did or did not carry the early span: the first one opens the
session. -/
def openOK (p : Params) (l : LaneId) (window : Nat) (early : Bool) (a : AttachIn) (s : Session) :
    Session :=
  if s.rx.ended = true ∨ (s.lanes l).born = true then s
  else if s.phase = .pending then
    let s := { s with phase := .opn }.peerWindow window
    (s.attach p l { a with member := true }).earlyVerdict p l early
  else s.attach p l a

/-- JOIN_ACK(OK). -/
def joinOK (p : Params) (l : LaneId) (rxNext : Nat) (a : AttachIn) (s : Session) :
    Session × Option Violation :=
  if s.rx.ended = true ∨ (s.lanes l).born = true ∨ s.phase ≠ .opn then (s, none)
  else
    match s.applyRxNext rxNext with
    | (s, some e) => (s, some e)
    | (s, none) => (s.attach p l a, none)

/-! ### The passive's lanes -/

/-- The first OPEN creates a pending session. -/
def newPending (l : LaneId) (early : Bool) (window : Nat) (s : Session) : Session :=
  let s := ({ s with phase := .pending, earlyOpen := early }.peerWindow window).newLane l .joining
  s.setLane l fun ln => { ln with early := early }

/-- An OPEN received by the passive: the first one creates the session, a later one waits for
its adoption. -/
def recvOpen (l : LaneId) (early : Bool) (window : Nat) (s : Session) : Session :=
  match s.phase with
  | .absent => s.newPending l early window
  | .pending | .opn => { s with adopting := s.adopting ++ [(l, .open early)] }

/-- A JOIN received by the passive: it acknowledges, then waits for its adoption. A JOIN that is
refused for another reason changes nothing. -/
def recvJoin (l : LaneId) (rxNext : Nat) (s : Session) : Session × Option Violation :=
  if s.phase ≠ .opn ∨ s.rx.ended = true then (s, none)
  else
    match s.applyRxNext rxNext with
    | (s, some e) => (s, some e)
    | (s, none) => ({ s with adopting := s.adopting ++ [(l, .join)] }, none)

/-- Confirm: OPEN_ACK(OK) becomes the first frame of every waiting OPEN carrier. -/
def confirmLane (w : Nat) (s : Session) (l : LaneId) : Session :=
  if (s.lanes l).state = .dead ∨ (s.lanes l).retireCalled = true ∨ (s.lanes l).firstSent = true ∨
      (s.lanes l).first ≠ none then s
  else s.setLane l fun ln => { ln with first := some (.openAck w) }

/-- The application confirms a pending session; the carriers of `down` are not alive. -/
def confirm (p : Params) (used max : Int) (down : List LaneId) (s : Session) : Session :=
  if s.phase ≠ .pending ∨ p.role ≠ .passive ∨ s.rx.ended = true then s
  else
    let s := { s with phase := .opn, rx := { s.rx with pending := false } }
    let r := s.openWindow p used max
    let waiting := fun l => decide (l ∉ down) && decide ((r.2.lanes l).state ≠ .dead) &&
      !(r.2.lanes l).retireCalled && !(r.2.lanes l).firstSent && (r.2.lanes l).first.isNone
    let senders := r.2.order.filter waiting
    let s := r.2.order.foldl (confirmLane r.1) r.2
    if p.mode.members then
      senders.foldl (fun s l => s.setLane l fun ln => { ln with data := true, state := .member }) s
    else
      match senders.head? with
      | none => s
      | some l => s.activate l

/-- A later OPEN that announces early data, on the lane just attached. -/
def adoptEarly (l : LaneId) (early : Bool) (s : Session) : Session :=
  if early then { s.setLane l fun ln => { ln with early := true } with earlyOpen := true } else s

/-- The first response of an adopted carrier; an OPEN of a pending session waits for its
confirmation. -/
def adoptFirst (p : Params) (l : LaneId) (used max : Int) (k : AdoptKind) (s : Session) :
    Session :=
  match k with
  | .join => s.setLane l fun ln => { ln with first := some (.joinAck s.rx.rRead) }
  | .open early =>
    let s := s.adoptEarly l early
    if s.phase = .pending then s
    else
      let r := s.openWindow p used max
      r.2.setLane l fun ln => { ln with first := some (.openAck r.1) }

/-- The actor attaches an admitted carrier. -/
def adopt (p : Params) (l : LaneId) (used max : Int) (s : Session) : Session :=
  match s.adopting.lookup l with
  | none => s
  | some k =>
    let s := { s with adopting := s.adopting.filter fun a => decide (a.1 ≠ l) }
    if s.rx.ended = true ∨ (s.lanes l).born = true then s
    else (s.newLane l .joining).adoptFirst p l used max k

/-! ### The end -/

/-- The session ends: nothing is sent any more. -/
def finish (s : Session) : Session :=
  if s.rx.ended then s
  else
    { s with
      rx := s.rx.finish
      active := none
      lanes := fun i =>
        if i ∈ s.order ∧ (s.lanes i).state ≠ .dead then
          { s.lanes i with data := false, state := .retiring, retireCalled := true }
        else s.lanes i
      tx :=
        { s.tx with
          retx := .empty
          rescue := .none
          wfreePending := s.tx.wround.isSome
          chunks := if s.tx.wround.isSome then s.tx.chunks else 0 } }

end Session

end Rendr

import Rendr.Session.Route

/-!
# One end as a state machine

Every critical section of one end of a stream session as an event: the application's calls (a
Write and a Read each in two sections), the Fills of the carrier writers, the frames the carrier
readers deliver, and the actor's steps. What a step puts on the wire and the violation it reports
come with the new state.

Nothing is assumed about the peer here: any frame may arrive on any attached lane.
-/

namespace Rendr

/-- An event of one end. -/
inductive Ev
  /-- reserve a round of a Write -/
  | write (bs : List Byte) (deadline : Bool) (grants : Nat)
  /-- the round's copy is done -/
  | commit
  | closeWrite
  | close
  | readView (len : Nat) (deadline : Bool)
  | readCommit
  | fill (l : LaneId) (i : FillIn)
  /-- a session frame on an attached lane -/
  | recv (l : LaneId) (f : Frame) (buf : Option Nat)
  /-- the dialer computes the window of its OPEN -/
  | dial (used max : Int)
  /-- the dialer starts an OPEN attempt -/
  | attempt
  | openOK (l : LaneId) (window : Nat) (early : Bool) (a : AttachIn)
  | joinOK (l : LaneId) (rxNext : Nat) (a : AttachIn)
  | recvOpen (l : LaneId) (early : Bool) (window : Nat)
  | recvJoin (l : LaneId) (rxNext : Nat)
  | confirm (used max : Int) (down : List LaneId)
  | adopt (l : LaneId) (used max : Int)
  /-- the rescue check once its wait has passed -/
  | rescue
  /-- an urgent ACK: a re-advertisement or an applied SCHED -/
  | bump
  /-- the SRTT order changes -/
  | refreshOrder (o : List LaneId)
  | laneDied (l : LaneId) (r : RouteIn)
  | peerClosed (l : LaneId) (r : RouteIn)
  | retire (l : LaneId)
  /-- a planned switch -/
  | switch (l : LaneId)
  /-- the dialer's selector takes a fallback -/
  | lost (r : RouteIn)
  /-- the passive applies a SCHED or its fallback -/
  | route (r : RouteIn)
  | finish

namespace Session

/-- What a Read's commit adds to the bytes returned. -/
def readDone (r : Rx × Option Rx.ReadResult) (s : Session) : Session :=
  { s with
    rx := r.1
    got := match r.2 with
      | some (.ok bs) => s.got ++ bs
      | _ => s.got }

/-- The state a step leads to, the frames it places and the violation it reports. -/
def step (p : Params) (s : Session) : Ev → Session × List Frame × Option Violation
  | .write bs deadline grants => ((s.writeRound p bs deadline grants).1, [], none)
  | .commit => (s.commitRound, [], none)
  | .closeWrite => (s.closeWrite, [], none)
  | .close => (s.close p, [], none)
  | .readView len deadline => ({ s with rx := (s.rx.readView len deadline).1 }, [], none)
  | .readCommit => (s.readDone (s.rx.readCommit p), [], none)
  | .fill l i =>
    let r := s.fill p l i
    (r.1, r.2, none)
  | .recv l f buf =>
    if (s.lanes l).born then
      let r := s.recv p l f buf
      (r.1, [], r.2)
    else (s, [], none)
  | .dial used max =>
    if p.role = .dialer ∧ s.phase = .pending ∧ s.early = none then
      let r := s.openWindow p used max
      ({ r.2 with openWin := r.1 }, [], none)
    else (s, [], none)
  | .attempt => (if p.role = .dialer ∧ s.phase = .pending then s.earlySpan p else s, [], none)
  | .openOK l window early a =>
    (if p.role = .dialer then s.openOK p l window early a else s, [], none)
  | .joinOK l rxNext a =>
    if p.role = .dialer then
      let r := s.joinOK p l rxNext a
      (r.1, [], r.2)
    else (s, [], none)
  | .recvOpen l early window =>
    (if p.role = .passive then s.recvOpen l early window else s, [], none)
  | .recvJoin l rxNext =>
    if p.role = .passive then
      let r := s.recvJoin l rxNext
      (r.1, [], r.2)
    else (s, [], none)
  | .confirm used max down => (s.confirm p used max down, [], none)
  | .adopt l used max => (if p.role = .passive then s.adopt p l used max else s, [], none)
  | .rescue => (s.rescue p, [], none)
  | .bump => (if s.rx.ended then s else s.bump, [], none)
  | .refreshOrder o => (if o.Perm s.order then { s with order := o } else s, [], none)
  | .laneDied l r => (s.laneDied p l r, [], none)
  | .peerClosed l r => (s.peerClosed p l r, [], none)
  | .retire l =>
    (if l ∈ s.order ∧ s.rx.ended = false then s.retireLane p l else s, [], none)
  | .switch l =>
    (if p.role = .dialer ∧ p.mode.members = false ∧ s.phase = .opn ∧ s.rx.ended = false ∧
        s.usable p l = true then s.qualitySwitch p l else s, [], none)
  | .lost r =>
    (if p.role = .dialer ∧ p.mode.members = false ∧ s.phase = .opn ∧ s.rx.ended = false ∧
        s.active = none then s.lostActive p r else s, [], none)
  | .route r => (if p.role = .passive then s.passiveRoute p r else s, [], none)
  | .finish => (s.finish, [], none)

/-- The state after the events `evs`. -/
def after (p : Params) (evs : List Ev) : Session :=
  runFrom (fun s ev => (s.step p ev).1) (Session.init p) evs

end Session

end Rendr

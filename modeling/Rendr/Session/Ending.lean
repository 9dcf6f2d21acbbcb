import Rendr.Lib.Run
import Rendr.Session.Params
import Rendr.Wire.Payload

/-!
# The end of a stream session

Every end site of a stream session's actor (`terminate.go`, `death.go`, `opening.go`, `pending.go`,
`episode.go`, `early_dial.go`) over the state those sites read: the peer's RST, the application's
Abort, the DONE exchange, the deadlines, the pending and the opening phase and the no-path
episode, with `terminateLocked` and what it publishes.

The actor's procedures are steps of their own and come in any order, between frames, writer
rounds and application calls: the source runs them in the order of `step`, with the session lock
released in between. Whether a carrier is alive, whether the FIN's offset was reached and what an
attempt was answered are inputs. Times are natural numbers.
-/

open Rendr.Wire Rendr.Octets

namespace Rendr.Ending

/-- The errors a session ends with. -/
inductive Err
  /-- `io.EOF`. -/
  | eof
  /-- `net.ErrClosed`. -/
  | closed
  | noPath
  | idleTimeout
  | exhausted
  | sessionLost
  | protocol
  | capacity
  | version
  | metadataTooLarge
  /-- `errDialWithdrawn`. -/
  | withdrawn
  /-- `errDecided`. -/
  | decided
  /-- `ErrRejected`, by this side's application or by the peer's. -/
  | rejected (code : UInt32)
  /-- `AbortError` with `Remote`. -/
  | abort (code : UInt32) (msg : Bytes)
  deriving DecidableEq, Repr

/-- `wire.RstClosed`, `RstLinger`, `RstGoingAway`, `RstExhausted`, `RstIdle`. -/
def rstClosed : Rst := ⟨1, []⟩
def rstLinger : Rst := ⟨2, []⟩
def rstExhausted : Rst := ⟨4, []⟩
def rstIdle : Rst := ⟨5, []⟩

/-- The RST of a Shutdown, with its message `going away`. -/
def rstGoingAway : Rst := ⟨3, [103, 111, 105, 110, 103, 32, 97, 119, 97, 121]⟩

/-- `AbortError{AbortGoingAway, "peer going away", Remote}`. -/
def goingAway : Err :=
  .abort 3 [112, 101, 101, 114, 32, 103, 111, 105, 110, 103, 32, 97, 119, 97, 121]

/-- `wire.CodeMetadataSize`, `CodeAcceptTimeout`, `CodeCarriers`. -/
def codeMetadataSize : UInt32 := 3
def codeAcceptTimeout : UInt32 := 3
def codeCarriers : UInt32 := 4

/-- The status of an OPEN_ACK or JOIN_ACK. -/
inductive Status
  | ok
  | rejected
  | capacity
  | goingAway
  | unknownSession
  | badRequest
  deriving DecidableEq, Repr

/-- `Verdict`: what the tombstone answers. -/
structure Verdict where
  opened : Bool
  status : Status
  code : UInt32
  deriving DecidableEq, Repr

/-- `Params`, defaults applied; `idle` 0 turns idle expiry off. -/
structure Cfg where
  linger : Nat
  grace : Nat
  acceptTimeout : Nat
  deriving DecidableEq, Repr

/-! ### The stream -/

/-- The stream's part of the end. -/
structure Stream where
  rstIn : Option Rst
  abortReq : Option Rst
  exhausted : Bool
  finRequested : Bool
  finAcked : Bool
  peerFinSet : Bool
  peerFinDelivered : Bool
  /-- The flags of the next ACK. -/
  ackFinDelivered : Bool
  ackDone : Bool
  finDelivSent : Bool
  doneQueued : Bool
  doneSent : Bool
  doneSentAt : Nat
  peerDone : Bool
  closed : Bool
  closedAt : Nat
  /-- `Close` put the stream into discard mode. -/
  discard : Bool
  discardedAfterClose : Bool
  lastData : Nat
  /-- A Write reserved bytes: `resEnd` is past `FirstOffset`. -/
  reserved : Bool
  ended : Bool
  endErr : Option Err
  deriving DecidableEq, Repr

namespace Stream

/-- `peerFinCheckLocked`; `reached`: `rRead` is the FIN's offset. -/
def peerFinCheck (st : Stream) (reached : Bool) : Stream :=
  if !st.peerFinSet || st.peerFinDelivered || !reached then st
  else { st with peerFinDelivered := true, ackFinDelivered := true }

/-- `maybeDoneLocked`. -/
def maybeDone (st : Stream) : Stream :=
  if st.doneQueued || !st.finAcked || !st.peerFinDelivered || !st.finDelivSent then st
  else { st with doneQueued := true, ackDone := true }

/-- `finLocked` of a FIN that is no violation. -/
def fin (st : Stream) (reached : Bool) : Stream :=
  if st.peerFinSet then st else peerFinCheck { st with peerFinSet := true } reached

/-- The FIN_DELIVERED and DONE of `ackLocked`. -/
def ack (st : Stream) (finDelivered done : Bool) : Stream :=
  if finDelivered && !st.finRequested then st -- errFinDeliveredEarly
  else
    let st := if finDelivered && !st.finAcked then maybeDone { st with finAcked := true } else st
    if done then { st with peerDone := true } else st

/-- `rstLocked`. -/
def rst (st : Stream) (r : Rst) : Stream :=
  if st.rstIn.isSome then st else { st with rstIn := some r }

/-- The facts `fillAckLocked` records about the ACK it placed with the flags of `st`. -/
def ackPlaced (st : Stream) (now : Nat) : Stream :=
  let fin := st.ackFinDelivered
  let done := st.ackDone
  let st := if fin && !st.finDelivSent then maybeDone { st with finDelivSent := true } else st
  if done && !st.doneSent then { st with doneSent := true, doneSentAt := now } else st

/-- `closeWriteLocked`. -/
def closeWrite (st : Stream) : Stream := { st with finRequested := true }

/-- `closeLocked`. -/
def close (st : Stream) (now : Nat) : Stream :=
  if st.closed then st
  else closeWrite { st with closed := true, closedAt := now, discard := true }

/-- `Abort`. -/
def abort (st : Stream) (now : Nat) (r : Rst) : Stream :=
  if st.ended || st.abortReq.isSome then st
  else
    { st with
      abortReq := some r
      closed := true
      closedAt := if st.closed then st.closedAt else now
      finRequested := true }

/-- A Write that finds no offset left (`writeRoundLocked`). -/
def exhaust (st : Stream) : Stream :=
  if st.closed || st.finRequested || st.ended then st else { st with exhausted := true }

/-- `endLocked`. -/
def finish (st : Stream) (e : Err) : Stream :=
  if st.ended then st else { st with ended := true, endErr := some e }

end Stream

/-! ### The actor -/

/-- `State`. -/
inductive State
  | pending
  | opn
  | closing
  | ended
  deriving DecidableEq, Repr

/-- The word Dial and the actor race for (`dialer.state`). -/
inductive DialState
  | waiting
  | succeeded
  | failed
  | withdrawn
  deriving DecidableEq, Repr

/-- The actor of a session. `opened` is `actor.opened`, and on a dialer `dialer.opened`, which is
set with it. -/
structure Actor where
  role : Role
  st : Stream
  state : State
  /-- The RST this side decided. -/
  rst : Option Rst
  opened : Bool
  openedAt : Nat
  decided : Bool
  acceptBy : Nat
  verdict : Verdict
  /-- The session's IdleTimeout; 0: off. -/
  idle : Nat
  dialState : DialState
  deferred : Bool
  started : Bool
  openBy : Nat
  closeAt : Option Nat
  /-- `hasAliveLocked`. -/
  alive : Bool
  inNoPath : Bool
  episodeBy : Nat
  ending : Bool
  endErr : Option Err
  /-- The calls of `Registry.Ended` and the errors of the SessionEnd events. -/
  reported : List (Verdict × Err)
  deriving DecidableEq, Repr

namespace Actor

/-- `endCodeLocked`. -/
def endCode (a : Actor) : UInt32 :=
  if a.state ≠ .ended ∨ a.st.rstIn.isSome then 0
  else
    match a.rst with
    | some r => r.code
    | none => 0

/-- `terminateLocked`. -/
def terminate (a : Actor) (err : Err) (rst : Option Rst) : Actor :=
  if a.ending then a
  else
    let a : Actor :=
      { a with
        ending := true
        endErr := some err
        state := .ended
        rst := rst.or a.rst }
    let v : Verdict := if a.opened then ⟨true, .ok, a.endCode⟩ else a.verdict
    { a with
      verdict := v
      st := a.st.finish err
      inNoPath := false
      reported := a.reported ++ [(v, err)] }

/-- `doneOr`. -/
def doneOr (a : Actor) (err : Err) : Err := if a.st.doneSent then .eof else err

/-- `onStartOpenLocked`. -/
def onStartOpen (c : Cfg) (a : Actor) (now : Nat) : Actor :=
  if a.role = .passive ∨ a.started ∨ a.ending then a
  else { a with started := true, openBy := now + c.grace }

/-- `earlyCloseLocked`. -/
def earlyClose (c : Cfg) (a : Actor) (now : Nat) : Actor :=
  if !a.st.closed then a
  else if a.deferred && !a.st.reserved then
    ({ a with deferred := false }).terminate .closed none
  else
    let a := onStartOpen c { a with deferred := false } now
    if a.st.abortReq.isSome then a.terminate .closed none
    else
      let a : Actor := { a with closeAt := a.closeAt.or (some a.st.closedAt) }
      if a.closeAt.all (fun t => t + c.linger ≤ now) then a.terminate .closed none else a

/-- `earlyIdleLocked`. -/
def earlyIdle (a : Actor) (now : Nat) : Actor :=
  if a.ending || a.idle = 0 || !a.deferred || a.st.reserved then a
  else if now < a.st.lastData + a.idle then a
  else ({ a with deferred := false }).terminate .idleTimeout none

/-- `terminationLocked`. -/
def termination (c : Cfg) (a : Actor) (now : Nat) : Actor :=
  if a.role = .dialer ∧ a.opened = false then (a.earlyClose c now).earlyIdle now
  else
    let st := a.st
    match st.rstIn, st.abortReq with
    | some r, _ => a.terminate (a.doneOr (.abort r.code r.msg)) none
    | none, some r => a.terminate .closed (some r)
    | none, none =>
      if st.exhausted then a.terminate .exhausted (some rstExhausted)
      else if st.doneSent && st.peerDone then a.terminate .eof none
      else if st.doneSent && st.doneSentAt + c.linger ≤ now then a.terminate .eof none
      else if st.closed && st.finAcked && !st.peerFinSet && st.discardedAfterClose then
        a.terminate .closed (some rstClosed)
      else if st.closed && !st.doneSent && st.closedAt + c.linger ≤ now then
        a.terminate .closed (some rstLinger)
      else if 0 < a.idle && !st.doneSent && max st.lastData a.openedAt + a.idle ≤ now then
        a.terminate .idleTimeout (some rstIdle)
      else a

/-- `endIfPeerEndedLocked`. -/
def endIfPeerEnded (c : Cfg) (a : Actor) (now : Nat) : Actor :=
  if !a.ending && a.opened && (a.st.rstIn.isSome || (a.st.doneSent && a.st.peerDone)) then
    a.termination c now
  else a

/-- `withdrawnLocked`. -/
def withdrawn (a : Actor) : Actor :=
  ({ a with decided := true, verdict := ⟨false, .unknownSession, 0⟩ }).terminate .sessionLost none

/-- `verdictErr`, and `rejectedErr` for a rejection. -/
def verdictErr (v : Verdict) : Err :=
  if v.status = .rejected then .rejected v.code
  else if v.opened then .decided
  else
    match v.status with
    | .capacity => .capacity
    | .goingAway => .closed
    | _ => .sessionLost

/-- `refusePendingLocked`. -/
def refusePending (a : Actor) (status : Status) (code : UInt32) : Actor :=
  let v : Verdict := ⟨false, status, code⟩
  ({ a with decided := true, verdict := v }).terminate (verdictErr v) none

/-- `peerGoAwayLocked`. -/
def peerGoAway (a : Actor) : Actor :=
  if a.ending then a
  else if a.state = .pending then a.withdrawn
  else a.terminate (a.doneOr goingAway) none

/-- `pendingFactsLocked`; `goAway`: a lane's peer sent GOAWAY. -/
def pendingFacts (a : Actor) (goAway : Bool) : Actor :=
  if a.ending || a.state ≠ .pending then a
  else if a.st.rstIn.isSome then a.withdrawn
  else if goAway then a.peerGoAway
  else a

/-- `pendingLocked`. -/
def pending (a : Actor) (now : Nat) : Actor :=
  if a.st.rstIn.isSome then a.withdrawn
  else if a.acceptBy ≤ now then a.refusePending .capacity codeAcceptTimeout
  else a

/-- A verdict command finds a pending session without one. -/
def undecided (a : Actor) : Bool := !a.ending && !a.decided && a.state = .pending

/-- `episodeStartLocked` at time `t`. -/
def episodeStart (c : Cfg) (a : Actor) (t : Nat) : Actor :=
  if a.inNoPath || a.ending || a.state = .pending then a
  else { a with inNoPath := true, episodeBy := t + c.grace }

/-- `onConfirmLocked`. -/
def onConfirm (c : Cfg) (a : Actor) (now : Nat) (goAway : Bool) : Actor :=
  let a := a.pendingFacts goAway
  if a.undecided then
    let a : Actor := { a with decided := true, opened := true, openedAt := now, state := .opn }
    if a.alive then a else a.episodeStart c now
  else a

/-- `onRejectLocked`, `onRefuseLocked`. -/
def onRefuse (a : Actor) (status : Status) (code : UInt32) (goAway : Bool) : Actor :=
  let a := a.pendingFacts goAway
  if a.undecided then a.refusePending status code else a

/-- `failOpeningLocked`. -/
def failOpening (a : Actor) (err : Err) : Actor :=
  let a : Actor := if a.dialState = .waiting then { a with dialState := .failed } else a
  a.terminate err none

/-- `onShutdownLocked`. -/
def onShutdown (a : Actor) : Actor :=
  if a.ending then a
  else if a.role = .passive ∧ a.state = .pending then a.refusePending .goingAway 0
  else if a.role = .dialer ∧ a.opened = false then a.failOpening .closed
  else a.terminate .closed (some rstGoingAway)

/-- `onWithdrawLocked`. -/
def onWithdraw (a : Actor) : Actor :=
  if a.role = .dialer ∧ a.opened = false then a.terminate .withdrawn none else a

/-- `openingLocked`; `lastErr`-wrapped `ErrNoPath` when the grace is over. -/
def opening (a : Actor) (now : Nat) : Actor :=
  if a.dialState = .withdrawn then a.terminate .withdrawn none
  else if a.openBy ≤ now then a.failOpening .noPath
  else a

/-- `episodeEndLocked`. -/
def episodeEnd (a : Actor) : Actor := { a with inNoPath := false }

/-- `episodeExpiryLocked`. -/
def episodeExpiry (a : Actor) (now : Nat) : Actor :=
  if !a.inNoPath then a
  else if a.alive then a.episodeEnd
  else if now < a.episodeBy then a
  else a.terminate (a.doneOr .noPath) none

/-- Why an attempt's `Establish` failed (`EstablishError`). -/
inductive Failure
  | other
  | version
  /-- PREFACE_ACK(GOING_AWAY), from the instance the session is bound to or another. -/
  | goingAway (bound : Bool)
  | capacity
  /-- The PREFACE_ACK's instance is another one; `join`: the attempt was a JOIN. -/
  | instanceMismatch (join : Bool)
  deriving DecidableEq, Repr

/-- `attemptFailedLocked`. -/
def attemptFailed (a : Actor) : Failure → Actor
  | .other => a
  | .version => if a.opened then a else a.failOpening .version
  | .goingAway bound =>
    if !a.opened then a.failOpening .capacity
    else if bound then a.terminate (a.doneOr Ending.goingAway) none
    else a
  | .capacity => if a.opened then a else a.failOpening .capacity
  | .instanceMismatch join =>
    if join && !a.alive then a.terminate (a.doneOr .sessionLost) none else a

/-- `openOKLocked`: the first OPEN_ACK(OK) opens the session. -/
def openOK (a : Actor) (now : Nat) : Actor :=
  if a.opened then { a with alive := true, inNoPath := false }
  else if a.dialState = .waiting then
    { a with
      dialState := .succeeded
      opened := true
      openedAt := now
      state := if a.st.closed then .closing else .opn
      alive := true }
  else a.terminate .withdrawn none

/-- `openRefusedLocked`. -/
def openRefused (a : Actor) (status : Status) (code : UInt32) : Actor :=
  if a.opened then a
  else
    match status with
    | .capacity => if code = codeCarriers then a else a.failOpening .capacity
    | .rejected => a.failOpening (.rejected code)
    | .badRequest =>
      a.failOpening (if code = codeMetadataSize then .metadataTooLarge else .protocol)
    | .unknownSession => a.failOpening .sessionLost
    | .goingAway => a.failOpening .capacity
    | .ok => a.failOpening .protocol

/-- `joinRefusedLocked`; `endCode`: the end code the answer carried, `closing`: this side's
Runtime is closing. -/
def joinRefused (a : Actor) (status : Status) (endCode : UInt32) (closing : Bool) : Actor :=
  match status with
  | .unknownSession =>
    if !a.st.doneSent && closing then a.onShutdown
    else if endCode ≠ 0 then a.terminate (a.doneOr (.abort endCode [])) none
    else a.terminate (a.doneOr .sessionLost) none
  | .badRequest => a.terminate .protocol none
  | .goingAway => a.terminate (a.doneOr Ending.goingAway) none
  | .ok | .rejected | .capacity => a

/-- GOAWAY answered an attempt's first frame (`attemptAnsweredLocked`). -/
def goAwayAnswer (a : Actor) (bound : Bool) : Actor :=
  if !a.opened then a.failOpening .capacity
  else if bound then a.terminate (a.doneOr Ending.goingAway) none
  else a

/-- The end decisions of `actLocked`; a packet session's and the routing ones decide no end. -/
def act (c : Cfg) (a : Actor) (now : Nat) : Actor :=
  let a : Actor :=
    if a.ending then a
    else if a.role = .passive ∧ a.state = .pending then a.pending now
    else a.termination c now
  let a : Actor :=
    if !a.ending ∧ a.role = .dialer ∧ a.opened = false ∧ a.started then a.opening now else a
  if a.ending || a.state = .pending then a else a.episodeExpiry now

/-- What happens to a session. -/
inductive Ev
  /-- Frames, on a lane of an open session; a pending passive session takes an RST only. -/
  | fin (reached : Bool)
  | ack (finDelivered done : Bool)
  | rst (r : Rst)
  /-- DATA arrived in discard mode. -/
  | discarded
  /-- The application's calls. -/
  | read (reached : Bool) (now : Nat)
  | write (now : Nat)
  | exhaust
  | closeWrite
  | close (now : Nat)
  | abort (now : Nat) (r : Rst)
  | setIdle (idle : Nat)
  /-- A duty lane's Fill placed an ACK. -/
  | ackPlaced (now : Nat)
  /-- Carriers attach, die, and the episode that follows. -/
  | alive (b : Bool)
  | adopt
  | noPath (t : Nat)
  /-- The actor's commands. -/
  | confirm (now : Nat) (goAway : Bool)
  | refuse (status : Status) (code : UInt32) (goAway : Bool)
  | shutdown
  | dialCtx
  | withdraw
  | startOpen (now : Nat)
  | openOK (now : Nat)
  | openRefused (status : Status) (code : UInt32)
  | joinRefused (status : Status) (endCode : UInt32) (closing : Bool)
  | goAwayAnswer (bound : Bool)
  | attemptFailed (f : Failure)
  /-- The actor's rules. -/
  | closeFact
  | goAway
  | peerEnded (now : Nat)
  | act (now : Nat)
  deriving DecidableEq, Repr

/-- A step of the stream, while a lane of an open session carries frames. -/
def stream (a : Actor) (f : Stream → Stream) : Actor :=
  if a.st.ended || !a.opened then a else { a with st := f a.st }

/-- A result of a dial attempt, which an ending session discards (`onDialResultLocked`). -/
def result (a : Actor) (f : Actor → Actor) : Actor :=
  if a.ending || a.role = .passive then a else f a

/-- One step. -/
def step (c : Cfg) (a : Actor) : Ev → Actor
  | .fin reached => a.stream fun st => st.fin reached
  | .ack finDelivered done => a.stream fun st => st.ack finDelivered done
  | .rst r => if a.st.ended then a else { a with st := a.st.rst r }
  | .discarded => a.stream fun st =>
      if st.discard then { st with discardedAfterClose := true } else st
  | .read reached now => a.stream fun st => { st.peerFinCheck reached with lastData := now }
  | .write now =>
    if a.st.ended then a else { a with st := { a.st with lastData := now, reserved := true } }
  | .exhaust => { a with st := a.st.exhaust }
  | .closeWrite => if a.st.ended then a else { a with st := a.st.closeWrite }
  | .close now => if a.st.ended then a else { a with st := a.st.close now }
  | .abort now r => { a with st := a.st.abort now r }
  | .setIdle idle => if a.st.ended then a else { a with idle := idle }
  | .ackPlaced now => a.stream fun st => st.ackPlaced now
  | .alive b => { a with alive := b }
  | .adopt =>
    if a.ending then a
    else if a.state = .pending then { a with alive := true }
    else ({ a with alive := true }).episodeEnd
  | .noPath t => if a.alive then a else a.episodeStart c t
  | .confirm now goAway => if a.role = .passive then a.onConfirm c now goAway else a
  | .refuse status code goAway => if a.role = .passive then a.onRefuse status code goAway else a
  | .shutdown => a.onShutdown
  | .dialCtx => if a.dialState = .waiting then { a with dialState := .withdrawn } else a
  | .withdraw => a.onWithdraw
  | .startOpen now => a.onStartOpen c now
  | .openOK now => a.result fun a => a.openOK now
  | .openRefused status code => a.result fun a => a.openRefused status code
  | .joinRefused status endCode closing => a.result fun a => a.joinRefused status endCode closing
  | .goAwayAnswer bound => a.result fun a => a.goAwayAnswer bound
  | .attemptFailed f => a.result fun a => a.attemptFailed f
  | .closeFact =>
    if !a.ending ∧ a.st.discard ∧ a.state = .opn then { a with state := .closing } else a
  | .goAway => a.peerGoAway
  | .peerEnded now => a.endIfPeerEnded c now
  | .act now => a.act c now

/-- A new session: a passive one waits for its verdict, a dialer opens; `deferred`: Dial returned
it early. -/
def start (c : Cfg) (role : Role) (deferred : Bool) (idle now : Nat) : Actor where
  role := role
  st := ⟨none, none, false, false, false, false, false, false, false, false, false, false, 0, false,
    false, 0, false, false, now, false, false, none⟩
  state := .pending
  rst := none
  opened := false
  openedAt := 0
  decided := false
  acceptBy := now + c.acceptTimeout
  verdict := ⟨false, .ok, 0⟩
  idle := idle
  dialState := .waiting
  deferred := deferred
  started := !deferred
  openBy := now + c.grace
  closeAt := none
  alive := role = .passive
  inNoPath := false
  episodeBy := 0
  ending := false
  endErr := none
  reported := []

end Actor

end Rendr.Ending

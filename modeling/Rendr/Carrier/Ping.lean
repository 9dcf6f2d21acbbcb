import Mathlib.Tactic
import Rendr.Lib.Run

/-!
# The PING records of a carrier

Every PING a carrier encodes leaves a record with the DATA submitted before it (`encodePing`); the
record is committed when the write that carried it returns (`commitPing`), and a PONG that matches
its id and nonce yields an RTT sample and moves the watermark `pongMark` (`onPong`). A PING whose
datagram the transport refused loses its record (`dgUnsentPing`). The volume in flight and the
backlog are contributed to a gauge that several carriers share (`gaugeUpdate`, `endGauge`).

The rates are floating point and steer nothing here: the reverse bound they give is a value of each
event. A record's `ser` is the count of the id counter without its wrap, `samples` the records that
gave a sample, `ponged` the PONGs that matched, `added` and `raised` what the carrier told the gauge.
-/

namespace Rendr.Carrier.Pings

/-- `pingRingSize`, `pingCadenceMax`. -/
def pingRingSize : Nat := 32
def pingCadenceMax : Nat := 16

/-- `minRateSample`. -/
def minRateSample : Int := 5000000

/-- `pingRecord`; `committedAt` is empty until the write returned. -/
structure PingRecord where
  id : UInt32
  nonce : UInt64
  mark : Nat
  committedAt : Option Int
  busy : Bool
  early : Bool
  ser : Nat
  deriving DecidableEq, Repr

/-- What a carrier fixes: whether it is a datagram carrier, its salt and its `CapFloor`. -/
structure Env where
  dg : Bool
  salt : UInt64
  capFloor : Int

/-- The PING of the writer's round. -/
structure RoundPing where
  id : UInt32
  judged : Bool
  atEnd : Bool
  deriving DecidableEq, Repr

/-- `carrierState` and the writer's round: its PING and the DATA in its batch. -/
structure St where
  srtt : Int
  minRTT : Int
  rttvar : Int
  lastRTT : Int
  rttSeen : Bool
  submitted : Nat
  pongMark : Nat
  recs : List PingRecord
  nextPingID : UInt32
  pingSent : Bool
  pingReq : Bool
  lastCommit : Int
  intervalStart : Int
  lastBusy : Bool
  peerBusy : Bool
  ping : Option RoundPing
  data : Nat
  started : Bool
  gauge : Bool
  gContrib : Int
  gBacklog : Bool
  gEnded : Bool
  cnt : Nat
  samples : List Nat
  ponged : List (UInt32 × UInt64)
  added : Int
  raised : Int

namespace St

def inflight (s : St) : Int := s.submitted - s.pongMark

/-- The contribution to the gauge changes to `contrib`. -/
def contribute (s : St) (contrib : Int) : St :=
  if contrib - s.gContrib ≠ 0 then
    { s with added := s.added + (contrib - s.gContrib), gContrib := contrib }
  else s

/-- The backlog report changes to `on`. -/
def setBacklog (s : St) (on : Bool) : St :=
  if on ≠ s.gBacklog then
    { s with raised := s.raised + (if on then 1 else -1), gBacklog := on }
  else s

/-- `gaugeUpdateLocked`; `rev` is `rxRate·srtt`. -/
def gaugeUpdate (E : Env) (s : St) (rev : Int) : St :=
  if !s.gauge || s.gEnded then s
  else
    (s.contribute (s.inflight + if s.peerBusy then max rev E.capFloor else rev)).setBacklog
      (s.lastBusy || s.peerBusy)

/-- `endGaugeLocked`. -/
def endGauge (s : St) : St :=
  if s.gEnded then s
  else if !s.gauge then { s with gEnded := true }
  else ({ s with gEnded := true }.contribute 0).setBacklog false

/-- The id of the next PING: datagram carriers skip 0. -/
def skips (E : Env) (s : St) : Bool := s.nextPingID == 0 && E.dg

/-- `encodePingPadLocked` at `now`; `backlogged` is the writer's backlog in the interval. -/
def encodePing (E : Env) (s : St) (now : Int) (atEnd backlogged : Bool) (rev : Int) : St :=
  let id := if s.skips E then 1 else s.nextPingID
  let ser := if s.skips E then s.cnt + 1 else s.cnt
  let judged := decide (minRateSample ≤ now - s.intervalStart)
  let busy := if judged then backlogged else s.lastBusy
  let mark := if atEnd then s.submitted + s.data else s.submitted
  gaugeUpdate E
    { s with
      nextPingID := id + 1
      cnt := ser + 1
      recs := s.recs ++ [⟨id, E.salt ^^^ id.toUInt64, mark, none, busy, false, ser⟩]
      pingSent := true
      pingReq := false
      lastBusy := busy
      ping := some ⟨id, judged, atEnd⟩ } rev

/-- The record is committed, and an early PONG's watermark applied. -/
def commitAt (id : UInt32) (at' : Int) : List PingRecord → List PingRecord
  | [] => []
  | r :: rs => if r.id = id then { r with committedAt := some at' } :: rs else r :: commitAt id at' rs

/-- `commitPingLocked`. -/
def commitPing (s : St) (p : RoundPing) (at' : Int) : St :=
  { s with
    recs := commitAt p.id at' s.recs
    pongMark :=
      match s.recs.find? fun r => r.id == p.id with
      | none => s.pongMark
      | some r => if r.early && decide (s.pongMark < r.mark) then r.mark else s.pongMark
    lastCommit := at'
    intervalStart := if p.judged then at' else s.intervalStart }

/-- The DATA of the batch becomes submitted. -/
def submit (s : St) : St := { s with submitted := s.submitted + s.data, data := 0, ping := none }

/-- The batch's PING, if any, is committed. -/
def settle (s : St) (at' : Int) : Option RoundPing → St
  | none => s
  | some p => s.commitPing p at'

/-- A cap-hit PING is asked for. -/
def wantPing (s : St) (want : Bool) : St := if want then { s with pingReq := true } else s

/-- `commitLocked` of a round that wrote all of its batch. -/
def commit (E : Env) (s : St) (at' : Int) (capBlocked : Bool) (rev : Int) : St :=
  ((s.submit.settle at' s.ping).wantPing
    (decide (0 < s.data) && capBlocked && !s.ping.any RoundPing.atEnd)).gaugeUpdate E rev

/-- The PING of a datagram that was written (`dgOutcome`). -/
def dgCommit (s : St) (at' : Int) : St :=
  match s.ping with
  | none => s
  | some p => { s.commitPing p at' with ping := none }

/-- `dgUnsentPingLocked`. -/
def dgUnsentPing (s : St) : St :=
  match s.ping, s.recs.getLast? with
  | some p, some r =>
    if r.id = p.id ∧ r.committedAt = none then { s with recs := s.recs.dropLast, ping := none }
    else { s with ping := none }
  | _, _ => { s with ping := none }

/-- `sched.RTTVar`. -/
def rttVar (rttvar srtt rtt : Int) (first : Bool) : Int :=
  let rtt := max rtt 0
  if first then rtt / 2
  else
    let rttvar := max rttvar 0
    let d := |max srtt 0 - rtt|
    3 * (rttvar / 4) + d / 4 + (3 * (rttvar % 4) + d % 4) / 4

/-- The RTT sample of a PONG. -/
def sample (s : St) (rtt : Int) : St :=
  { s with
    lastRTT := rtt
    rttvar := rttVar s.rttvar s.srtt rtt !s.rttSeen
    srtt := if s.rttSeen then (7 * s.srtt + rtt).tdiv 8 else rtt
    minRTT := if s.rttSeen then min s.minRTT rtt else rtt
    rttSeen := true }

/-- `ringFreed`. -/
def ringFreed (n0 n : Nat) : Bool :=
  (n0 == pingRingSize && decide (n < n0)) ||
    (decide (pingCadenceMax ≤ n0) && decide (n < pingCadenceMax))

/-- A PONG of the record `r`, behind which `rest` remain, before the commit of its PING. -/
def early (E : Env) (s : St) (r : PingRecord) (rest : List PingRecord) (rev : Int) : St :=
  let m := min r.mark s.submitted
  let s : St := if s.pongMark < m then { s with pongMark := m }.gaugeUpdate E rev else s
  { s with recs := { r with early := true } :: rest, ponged := (r.id, r.nonce) :: s.ponged }

/-- A PONG of the committed record `r`. -/
def answered (E : Env) (s : St) (r : PingRecord) (rest : List PingRecord) (rtt rev : Int) : St :=
  gaugeUpdate E
    { s.sample rtt with
      recs := rest
      pongMark := if s.pongMark < r.mark then r.mark else s.pongMark
      samples := r.ser :: s.samples
      ponged := (r.id, r.nonce) :: s.ponged } rev

/-- `onPongLocked`: the state, whether a sample was taken and its RTT, and the wake. `find` is the
first record of the id. -/
def onPong (E : Env) (s : St) (id : UInt32) (nonce : UInt64) (now rev : Int) (capBlocked : Bool) :
    St × Bool × Int × Bool :=
  match s.recs.dropWhile fun r => r.id != id with
  | [] => (s, false, 0, false)
  | r :: rest =>
    if r.nonce ≠ nonce then (s, false, 0, false)
    else
      match r.committedAt with
      | none =>
        (s.early E r rest rev, false, 0,
          (decide (s.pongMark < min r.mark s.submitted) && capBlocked) ||
            ringFreed s.recs.length (rest.length + 1))
      | some at' =>
        (s.answered E r rest (now - at') rev, true, now - at',
          (decide (s.pongMark < r.mark) && capBlocked) || ringFreed s.recs.length rest.length)

/-- `onPing`: the peer's BUSY flag. -/
def onPing (E : Env) (s : St) (busy : Bool) (rev : Int) : St :=
  if s.peerBusy ≠ busy then { s with peerBusy := busy }.gaugeUpdate E rev else s

end St

inductive Ev
  /-- `Start` installs the gauge of a stream carrier. -/
  | start (gauge : Bool)
  /-- A due PING; the ring has room, and one in front of DATA is encoded before it. -/
  | encode (now : Int) (atEnd backlogged : Bool) (rev : Int)
  | fill (n : Nat)
  | commit (at' : Int) (capBlocked : Bool) (rev : Int)
  | dgCommit (at' : Int)
  | refused
  | pong (id : UInt32) (nonce : UInt64) (now rev : Int) (capBlocked : Bool)
  | peerPing (busy : Bool) (rev : Int)
  | request
  | kill
  deriving Repr

namespace St

/-- The round may encode a PING: one a round, into a ring with room, in front of the DATA or, on a
stream, behind it. -/
def mayEncode (E : Env) (s : St) (atEnd : Bool) : Bool :=
  decide (s.recs.length < pingRingSize) && s.ping.isNone &&
    if atEnd then !E.dg else decide (s.data = 0)

/-- One section under the carrier's lock. -/
def step (E : Env) (s : St) : Ev → St
  | .start gauge => if s.started then s else { s with started := true, gauge := gauge && !E.dg }
  | .encode now atEnd backlogged rev =>
    if s.mayEncode E atEnd then s.encodePing E now atEnd backlogged rev else s
  | .fill n => { s with data := s.data + n }
  | .commit at' capBlocked rev =>
    -- a datagram round commits its PING before the round
    if E.dg && s.ping.isSome then s else s.commit E at' capBlocked rev
  | .dgCommit at' => if E.dg then s.dgCommit at' else s
  | .refused => if E.dg then s.dgUnsentPing else s
  | .pong id nonce now rev capBlocked => (s.onPong E id nonce now rev capBlocked).1
  | .peerPing busy rev => s.onPing E busy rev
  | .request => { s with pingReq := true }
  | .kill => s.endGauge

/-- A new carrier whose id counter starts at `first`. -/
def new (first : UInt32) : St where
  srtt := 0
  minRTT := 0
  rttvar := 0
  lastRTT := 0
  rttSeen := false
  submitted := 0
  pongMark := 0
  recs := []
  nextPingID := first
  pingSent := false
  pingReq := false
  lastCommit := 0
  intervalStart := 0
  lastBusy := false
  peerBusy := false
  ping := none
  data := 0
  started := false
  gauge := false
  gContrib := 0
  gBacklog := false
  gEnded := false
  cnt := first.toNat
  samples := []
  ponged := []
  added := 0
  raised := 0

end St

end Rendr.Carrier.Pings

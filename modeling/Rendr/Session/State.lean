import Rendr.Session.Batch
import Rendr.Session.Recv
import Rendr.Session.Span

/-!
# The state of a stream session

One end of a stream session: the receive side `Rx`, the send side `Tx`, the lanes and the routing
variables the actor writes. All of it is protected by the session lock, so a step of the machine
is one critical section.

Lanes are named by identifiers; a lane that was never attached, or whose record was not created
yet, is dead. `order` lists the attached lanes: the source keeps them twice, in attach order and
in SRTT order, and the model keeps one list that may be permuted at any time.

Time, SRTTs, wake-ups and the choice of the ACK duty lane are not part of the state: where they
decide something, the step takes the outcome as an input.
-/

namespace Rendr

/-- A lane's name: one carrier incarnation. -/
abbrev LaneId := Nat

inductive LaneState
  | joining
  | member
  | active
  | retiring
  | dead
  deriving DecidableEq, Repr

/-- The passive's first response frame on a lane. -/
inductive First
  | openAck (window : Nat)
  | joinAck (rxNext : Nat)
  deriving DecidableEq, Repr

/-- One lane, as its session sees it. -/
structure Lane where
  /-- the record was created: the carrier's endpoint exists -/
  born : Bool
  state : LaneState
  /-- data-eligible: the routing variable the carrier writers read -/
  data : Bool
  /-- `Retire` was called on the carrier -/
  retireCalled : Bool
  /-- the lane's OPEN announced early data -/
  early : Bool
  /-- the first response that waits to be placed -/
  first : Option First
  firstSent : Bool
  /-- a view on a started MUX trunk owes its go frame -/
  goOwed : Bool
  /-- unacknowledged DATA placed on the lane -/
  infl : SpanList
  /-- a race lane's send cursor -/
  rnext : Nat
  finHere : Bool
  /-- the highest `Delivered` received on the lane -/
  lastAck : Nat
  /-- the ACK generation placed last -/
  ackSent : Nat

/-- A lane record in state `state`, created or not. -/
def Lane.new (born : Bool) (state : LaneState) : Lane where
  born := born
  state := state
  data := false
  retireCalled := false
  early := false
  first := none
  firstSent := false
  goOwed := false
  infl := .empty
  rnext := 0
  finHere := false
  lastAck := 0
  ackSent := 0

/-- The rescue duplicate of the stuck head: pending when `set`; a holder that sent its own
duplicate stays recorded. -/
structure RescueSlot where
  set : Bool
  sp : Span
  holder : Option LaneId

def RescueSlot.none : RescueSlot := ⟨false, ⟨0, 0⟩, Option.none⟩

/-- Our FIN. -/
structure FinState where
  requested : Bool
  acked : Bool
  off : Nat
  /-- the lane our FIN went out on -/
  lane : Option LaneId

/-- The send side of a stream session. -/
structure Tx where
  /-- the stream offset of the first chunk -/
  cbase : Nat
  /-- the chunks held -/
  chunks : Nat
  /-- the acknowledged front -/
  sBase : Nat
  /-- the end of what was sent at least once -/
  sNext : Nat
  /-- the end of the committed bytes -/
  endOff : Nat
  /-- the end of the reserved bytes -/
  resEnd : Nat
  /-- the right edge the peer advertised -/
  peerLimit : Nat
  retx : SpanList
  rescue : RescueSlot
  /-- unacknowledged DATA left while another data lane existed (bond) -/
  interleaved : Bool
  fin : FinState
  /-- the round a Write is copying: the bytes of `[endOff, resEnd)` -/
  wround : Option (List Byte)
  wfreePending : Bool
  exhausted : Bool
  /-- the bytes the chunks hold, by stream offset -/
  buf : Nat → Byte

/-- Where the session is in its life; its end is `Rx.ended`. The source's `closing` is `opn`. -/
inductive Phase
  /-- a passive session before the first OPEN -/
  | absent
  | pending
  | opn
  deriving DecidableEq, Repr

/-- How a carrier was admitted on the passive. -/
inductive AdoptKind
  | open (early : Bool)
  | join
  deriving DecidableEq, Repr

/-- One end of a stream session. -/
structure Session where
  rx : Rx
  tx : Tx
  phase : Phase
  lanes : LaneId → Lane
  /-- the attached lanes -/
  order : List LaneId
  /-- the selector's data lane -/
  active : Option LaneId
  /-- the acknowledged front of the last rescue -/
  rescuedBase : Option Nat
  finDelivSent : Bool
  doneQueued : Bool
  doneSent : Bool
  peerDone : Bool
  /-- the passive took an OPEN that announced early data -/
  earlyOpen : Bool
  /-- the dialer's early span, once it is fixed -/
  early : Option Nat
  /-- the window of the dialer's OPEN -/
  openWin : Nat
  /-- carriers admitted and not yet attached (passive) -/
  adopting : List (LaneId × AdoptKind)
  /-- the bytes Read has returned -/
  got : List Byte

namespace Tx

/-- A send side before its first byte. -/
def init (p : Params) : Tx where
  cbase := p.firstOffset
  chunks := 0
  sBase := p.firstOffset
  sNext := p.firstOffset
  endOff := p.firstOffset
  resEnd := p.firstOffset
  peerLimit := p.firstOffset
  retx := .empty
  rescue := .none
  interleaved := false
  fin := ⟨false, false, 0, none⟩
  wround := none
  wfreePending := false
  exhausted := false
  buf := fun _ => 0

/-- The end of the chunk that holds `off`. -/
def chunkEnd (t : Tx) (off : Nat) : Nat := off + chunkSize - (off - t.cbase) % chunkSize

lemma lt_chunkEnd (t : Tx) (off : Nat) : off < t.chunkEnd off := by
  have : (off - t.cbase) % chunkSize < chunkSize := Nat.mod_lt _ (by decide)
  unfold chunkEnd
  omega

/-- The stream bytes `[off, off + n)`. -/
def bytesAt (t : Tx) (off n : Nat) : List Byte := (List.range n).map fun i => t.buf (off + i)

@[simp] lemma length_bytesAt (t : Tx) (off n : Nat) : (t.bytesAt off n).length = n := by
  simp [bytesAt]

end Tx

namespace Session

/-- A session before its first event; a dialer is pending, a passive does not exist yet. -/
def init (p : Params) : Session where
  rx := Rx.init p (decide (p.role = .passive))
  tx := Tx.init p
  phase := if p.role = .dialer then .pending else .absent
  lanes := fun _ => Lane.new false .dead
  order := []
  active := none
  rescuedBase := none
  finDelivSent := false
  doneQueued := false
  doneSent := false
  peerDone := false
  earlyOpen := false
  early := none
  openWin := 0
  adopting := []
  got := []

/-- Change one lane's record. -/
def setLane (s : Session) (l : LaneId) (f : Lane → Lane) : Session :=
  { s with lanes := fun i => if i = l then f (s.lanes i) else s.lanes i }

variable (s : Session)

@[simp] lemma setLane_self (l : LaneId) (f : Lane → Lane) :
    (s.setLane l f).lanes l = f (s.lanes l) := if_pos rfl

lemma setLane_lanes (l i : LaneId) (f : Lane → Lane) :
    (s.setLane l f).lanes i = if i = l then f (s.lanes i) else s.lanes i := rfl

@[simp] lemma setLane_tx (l : LaneId) (f : Lane → Lane) :
    (s.setLane l f).tx = s.tx := rfl

@[simp] lemma setLane_order (l : LaneId) (f : Lane → Lane) :
    (s.setLane l f).order = s.order := rfl

/-- Another data lane exists. -/
def otherDataLane (s : Session) (l : LaneId) : Bool :=
  s.order.any fun o => decide (o ≠ l) && (s.lanes o).data

/-- Another data lane lives. -/
def raceOtherDataLane (s : Session) (l : LaneId) : Bool :=
  s.order.any fun o => decide (o ≠ l) && ((s.lanes o).data && decide ((s.lanes o).state ≠ .dead))

/-- Schedule an ACK at once. -/
def bump (s : Session) : Session := { s with rx := s.rx.bumpNow }

/-- Change the send side. -/
def withTx (s : Session) (f : Tx → Tx) : Session := { s with tx := f s.tx }

@[simp] lemma withTx_tx (f : Tx → Tx) : (s.withTx f).tx = f s.tx := rfl

@[simp] lemma withTx_rx (f : Tx → Tx) : (s.withTx f).rx = s.rx := rfl

@[simp] lemma withTx_lanes (f : Tx → Tx) : (s.withTx f).lanes = s.lanes := rfl

@[simp] lemma withTx_order (f : Tx → Tx) : (s.withTx f).order = s.order := rfl

end Session

end Rendr

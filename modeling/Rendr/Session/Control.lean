import Rendr.Session.Send

/-!
# Control frames, FIN and the Fill of a lane

What a lane's Fill appends besides DATA, in the source's order: the go frame of a MUX view, the
passive's first response, the dialer's SCHED, the ACK on a lane that carries the ACK duty, then
DATA and the FIN. And what the session does with a frame a lane delivers.

Whether a lane carries the ACK duty, whether the ACK delay has passed and whether a SCHED is owed
depend on clocks and SRTTs; they are inputs of a Fill, like the batch and the capacity. The
contents of SCHED and RST frames are left out, and so are refusals: they route or end the session,
which are steps of their own.
-/

namespace Rendr

/-- The largest window an ACK or OPEN_ACK can carry. -/
def maxUint32 : Nat := 2 ^ 32 - 1

/-- What a Fill call finds outside the session. -/
structure FillIn where
  b : Batch
  /-- `Capacity − Inflight − Taken` -/
  left : Int
  /-- the carrier is held after its response -/
  held : Bool
  /-- this lane places the ACK -/
  duty : Bool
  /-- the ACK delay has passed -/
  late : Bool
  /-- an owed SCHED names so many carriers -/
  sched : Option Nat
  /-- the Budget usage and limit -/
  used : Int
  max : Int

namespace Session

/-! ### Windows -/

/-- A session that took an OPEN with early data advertises at least the early span. -/
def earlyWindow (p : Params) (s : Session) : Session :=
  if s.earlyOpen then { s with rx := { s.rx with rightEdge := max s.rx.rightEdge p.earlyEnd } }
  else s

/-- The window of an OPEN or OPEN_ACK, which raises the right edge. -/
def openWindow (p : Params) (used max : Int) (s : Session) : Nat × Session :=
  let s := s.earlyWindow p
  let s := { s with rx := s.rx.raiseEdge p used max }
  (min (s.rx.rightEdge - s.rx.rRead) maxUint32, s)

/-! ### FIN and DONE -/

/-- Queue the final ACK once our FIN is acknowledged, the peer's is delivered and an ACK said
so. -/
def maybeDone (s : Session) : Session :=
  if s.doneQueued = true ∨ s.tx.fin.acked = false ∨ s.rx.peerFinDelivered = false ∨
      s.finDelivSent = false then s
  else { s with doneQueued := true, rx := { s.rx with ackDone := true }.bumpNow }

/-- Our FIN may go out on a data lane. -/
def finDue (s : Session) : Bool :=
  s.tx.fin.requested && !s.tx.fin.acked && s.tx.fin.lane.isNone && decide (s.tx.retx.s = []) &&
    decide (s.tx.fin.off ≤ s.tx.sNext)

/-- A race member places our FIN once, after its own cursor reached the FIN offset. -/
def raceFinDue (l : LaneId) (s : Session) : Bool :=
  s.tx.fin.requested && !s.tx.fin.acked && !(s.lanes l).finHere &&
    decide (s.tx.fin.off ≤ max (s.lanes l).rnext s.tx.sBase)

/-- Our FIN is due on data lane `l`. -/
def finReady (p : Params) (l : LaneId) (s : Session) : Bool :=
  if p.mode = .race then s.raceFinDue l else s.finDue

/-- Place our FIN on `l` if it is due there. -/
def fillFin (p : Params) (l : LaneId) (s : Session) (b : Batch) : Session × Batch :=
  if s.finReady p l then
    match b.addFin s.tx.fin.off with
    | (true, b) =>
      ((s.withTx fun t => { t with fin := { t.fin with lane := some l } }).setLane l
        fun ln => { ln with finHere := true }, b)
    | (false, b) => (s, b)
  else (s, b)

/-- Request our FIN at the reserved end. -/
def closeWrite (s : Session) : Session :=
  if s.tx.fin.requested then s
  else s.withTx fun t => { t with fin := { t.fin with requested := true, off := t.resEnd } }

def close (p : Params) (s : Session) : Session :=
  if s.rx.closed then s
  else
    let s := s.closeWrite
    { s with rx := s.rx.close p }

/-! ### ACK -/

/-- An ACK was placed with the flags: its promises are recorded. -/
def ackPlaced (l : LaneId) (finDelivered done : Bool) (s : Session) : Session :=
  let s := s.setLane l fun ln => { ln with ackSent := s.rx.ackGen }
  let s := if finDelivered && !s.finDelivSent then { s with finDelivSent := true }.maybeDone else s
  if done && !s.doneSent then { s with doneSent := true } else s

/-- The ACK-delay rule: a delayed ACK becomes due, at once on a lane being retired. -/
def ackDelayed (l : LaneId) (late : Bool) (s : Session) : Session :=
  if s.rx.ackDelay = true ∧ ((s.lanes l).retireCalled = true ∨ late = true) then s.bump else s

/-- The ACK of a Fill on a lane with the duty. The right edge is raised only if the ACK is
placed. -/
def fillAck (p : Params) (l : LaneId) (i : FillIn) (s : Session) (b : Batch) : Session × Batch :=
  let s := s.ackDelayed l i.late
  if (s.lanes l).ackSent = s.rx.ackGen then (s, b)
  else
    let rx := s.rx.raiseEdge p i.used i.max
    match b.addAck rx.ackFinDelivered rx.ackDone rx.rRead
        (min (rx.rightEdge - rx.rRead) maxUint32) with
    | (false, b) => (s, b)
    | (true, b) => ({ s with rx := rx }.ackPlaced l rx.ackFinDelivered rx.ackDone, b)

/-- An ACK received on lane `l`. -/
def ack (l : LaneId) (finDelivered done : Bool) (delivered window : Nat) (s : Session) :
    Session × Option Violation :=
  if s.tx.sNext < delivered then (s, some .ackBeyondSent)
  else if delivered < (s.lanes l).lastAck then (s, some .ackRegression)
  else if finDelivered = true ∧ (s.tx.fin.requested = false ∨ delivered < s.tx.fin.off) then
    (s, some .finDeliveredEarly)
  else
    let s := s.setLane l fun ln => { ln with lastAck := delivered }
    let s := if s.tx.sBase < delivered then s.advanceSend delivered else s
    let s := s.withTx fun t => { t with peerLimit := max t.peerLimit (delivered + window) }
    let s :=
      if finDelivered && !s.tx.fin.acked then
        let s' := match s.tx.fin.lane with
          | none => s
          | some fl => s.setLane fl fun ln => { ln with finHere := false }
        (s'.withTx fun t => { t with fin := { t.fin with acked := true, lane := none } }).maybeDone
      else s
    (if done then { s with peerDone := true } else s, none)

/-! ### Frames received -/

/-- The DATA frame a reader hands over, with the buffer `buf` if it brings one. -/
def dataFrame? (off : Nat) (bs : List Byte) (buf : Option Nat) : Option DataFrame :=
  if h : off < 2 ^ 64 ∧ bs.length < 2 ^ 63 ∧ ∀ c ∈ buf, bs.length ≤ c then
    some ⟨off, bs, buf, h.1, h.2.1, h.2.2⟩
  else none

/-- A session frame delivered by lane `l`. -/
def recv (p : Params) (l : LaneId) (f : Frame) (buf : Option Nat) (s : Session) :
    Session × Option Violation :=
  match f with
  | .data off bs =>
    match dataFrame? off bs buf with
    | none => (s, none)
    | some d =>
      let r := s.rx.data p (s.lanes l).early d
      ({ s with rx := r.1 }, r.2)
  | f =>
    if s.rx.ended then (s, none)
    else if s.rx.pending then (s, some .dataBeforeOpen)
    else
      match f with
      | .ack fd dn d w => s.ack l fd dn d w
      | .fin off =>
        let r := s.rx.fin off
        ({ s with rx := r.1 }, r.2)
      | .sched => (s, if p.role = .dialer then some .schedOnDialer else none)
      | _ => (s, some .unexpectedFrame)

/-! ### Fill -/

/-- The go frame of a MUX view: an ACK of the values already advertised. -/
def placeGo (s : Session) (b : Batch) : Bool × Batch :=
  b.addAck false false s.rx.rRead (min (s.rx.rightEdge - s.rx.rRead) maxUint32)

/-- Place the passive's first response; whether the rest of the Fill may follow comes first. -/
def fillFirst (p : Params) (l : LaneId) (s : Session) (b : Batch) : Bool × Session × Batch :=
  if p.role = .passive ∧ (s.lanes l).firstSent = false then
    match (s.lanes l).first with
    | none => (false, s, b)
    | some fr =>
      let r := match fr with
        | .openAck w => b.addOpenAck w
        | .joinAck rx => b.addJoinAck rx
      if r.1 then
        (true, s.setLane l fun ln => { ln with firstSent := true, first := none }, r.2)
      else (false, s, r.2)
  else (true, s, b)

/-- The control part of a Fill; whether DATA and the FIN may follow comes first. -/
def fillControl (p : Params) (l : LaneId) (i : FillIn) (s : Session) (b : Batch) :
    Bool × Session × Batch :=
  let r := s.fillFirst p l b
  if r.1 = false then r
  else if r.2.1.rx.ended then (false, r.2)
  else
    let b := match i.sched with
      | none => r.2.2
      | some n => if p.role = .dialer then (r.2.2.addSched n).2 else r.2.2
    (true, if i.duty then r.2.1.fillAck p l i b else (r.2.1, b))

/-- What holds of the batch with and without a SCHED holds of the batch `fillControl` goes on
with. -/
lemma fillControl_sched (P : Batch → Prop) {p : Params} {i : FillIn} {b : Batch} (h : P b)
    (hsched : ∀ n, p.role = .dialer → P (b.addSched n).2) :
    P (match i.sched with
      | none => b
      | some n => if p.role = .dialer then (b.addSched n).2 else b) := by
  split
  · exact h
  exact guard h fun hrole => hsched _ hrole

/-- `Fill` on a lane that owes no go frame. -/
def fillLane (p : Params) (l : LaneId) (i : FillIn) (s : Session) (b : Batch) : Session × Batch :=
  if (s.lanes l).state = .dead then (s, b)
  else
    let r := s.fillControl p l i b
    if r.1 = true ∧ (r.2.1.lanes l).data = true then
      let st : Pull := ⟨r.2.1, r.2.2, i.left, false⟩
      let st :=
        if i.b.ctlOnly then st
        else if p.mode = .race then st.raceFillData p l
        else st.fillData p l
      st.s.fillFin p l st.b
    else r.2

/-- `Fill`: the lane's frames of one batch, in order. -/
def fill (p : Params) (l : LaneId) (i : FillIn) (s : Session) : Session × List Frame :=
  if i.held then (s, [])
  else if (s.lanes l).goOwed then
    if (s.lanes l).state = .dead ∨ s.rx.ended = true then (s, [])
    else
      match s.placeGo { i.b with out := [] } with
      | (false, _) => (s, [])
      | (true, b) =>
        let r := (s.setLane l fun ln => { ln with goOwed := false }).fillLane p l i b
        (r.1, r.2.out)
  else
    let r := s.fillLane p l i { i.b with out := [] }
    (r.1, r.2.out)

end Session

end Rendr

import Rendr.Session.State

/-!
# The send path

Bytes enter the send buffer in rounds (`writeRound` reserves, `commitRound` makes the copied
round visible), leave through a data lane's Fill (`fillData` on a selector or bond lane,
`raceFillData` on a race lane) and stay in the lane's in-flight list until they are acknowledged
(`advanceSend`) or the lane leaves, when they go back to the retransmission queue (`requeue`).

The three loops of `fillData` and the one of `raceFillData` have one shape: while there is
something to place, append one frame and record what was taken, and stop at the first refusal.
`pullLoop` is that shape; the fuel is the frame count of a batch, since every round but the last
appends a frame.
-/

namespace Rendr

namespace Session

/-! ### Write -/

/-- The send-buffer room: the window minus the unacknowledged and reserved bytes. -/
def sendRoom (p : Params) (s : Session) : Int := p.window - ((s.tx.resEnd : Int) - s.tx.sBase)

/-- A pending dialer's Writes stay within the early bound. -/
def earlyCap (p : Params) (s : Session) (room : Int) : Int :=
  if p.role ≠ .dialer ∨ s.phase ≠ .pending then room
  else
    let lim := p.firstOffset + p.earlyMax
    if lim ≤ s.tx.resEnd then 0 else min room ((lim : Int) - s.tx.resEnd)

/-- The loop of `reserveChunks`: take chunks while the budget grants them. -/
def reserveLoop (cap : Nat) (k : Int) : Nat → Nat → Int → Nat × Int
  | 0, chunks, held => (chunks, held)
  | grants + 1, chunks, held =>
    if held < k ∧ chunks < cap then reserveLoop cap k grants (chunks + 1) (held + chunkSize)
    else (chunks, held)

/-- Cover `[resEnd, resEnd + k)` with chunks, of which the budget grants at most `grants` new
ones; the bytes covered come first. -/
def reserveChunks (p : Params) (grants : Nat) (k : Int) (t : Tx) : Int × Tx :=
  let held : Int := t.cbase + t.chunks * chunkSize - t.resEnd
  let r := reserveLoop (p.window.toNat / chunkSize + 2) k grants t.chunks held
  (min k r.2, { t with chunks := r.1 })

/-- Why a Write returns instead of reserving. -/
inductive WriteErr
  | closed
  | ended
  | exhausted
  | deadline
  deriving DecidableEq, Repr

/-- One attempt to reserve a round of `bs`: the Write returns with an error, or waits (nothing
is reserved), or holds a reservation and copies. A Write that finds another one copying waits
for it. -/
def writeRound (p : Params) (bs : List Byte) (deadline : Bool) (grants : Nat) (s : Session) :
    Session × Option WriteErr :=
  if s.tx.wround.isSome ∨ bs = [] then (s, none)
  else if s.rx.closed = true ∨ s.tx.fin.requested = true then (s, some .closed)
  else if s.rx.ended = true then (s, some .ended)
  else if s.tx.exhausted = true then (s, some .exhausted)
  else if deadline then (s, some .deadline)
  else
    let room := s.earlyCap p (s.sendRoom p)
    if 0 < room then
      let k := min (min (bs.length : Int) room) maxRound
      if p.offsetLimit < s.tx.resEnd + k.toNat then
        (s.withTx fun t => { t with exhausted := true }, some .exhausted)
      else
        let r := reserveChunks p grants k s.tx
        if 0 < r.1 then
          ({ s with tx :=
              { r.2 with
                resEnd := r.2.resEnd + r.1.toNat
                wround := some (bs.take r.1.toNat) } }, none)
        else ({ s with tx := r.2 }, none)
    else (s, none)

/-- Put the bytes of a round at `off`. -/
def putBytes (buf : Nat → Byte) (off : Nat) (bs : List Byte) : Nat → Byte :=
  fun x => if off ≤ x then (bs[x - off]?).getD (buf x) else buf x

/-- Make the copied round visible to the carrier writers; after the end it is dropped. -/
def commitRound (s : Session) : Session :=
  match s.tx.wround with
  | none => s
  | some bs =>
    if s.rx.ended then
      s.withTx fun t =>
        { t with
          wround := none
          wfreePending := false
          chunks := if t.wfreePending then 0 else t.chunks }
    else
      s.withTx fun t =>
        { t with
          wround := none
          buf := putBytes t.buf t.endOff bs
          endOff := t.endOff + bs.length }

/-! ### Acknowledgement -/

/-- The chunk release loop of `advanceSend`. -/
def releaseChunks (front : Nat) : Nat → Nat → Nat × Nat
  | 0, cbase => (0, cbase)
  | n + 1, cbase =>
    if cbase + chunkSize ≤ front then releaseChunks front n (cbase + chunkSize) else (n + 1, cbase)

/-- The rescue duplicate without the bytes below `front`. -/
def advanceRescue (front : Nat) (r : RescueSlot) : RescueSlot :=
  if r.set then
    if r.sp.endOff ≤ front then .none
    else if r.sp.off < front then { r with sp := ⟨front, r.sp.endOff - front⟩ }
    else r
  else r

/-- Move the acknowledged front to `front`. -/
def advanceSend (front : Nat) (s : Session) : Session :=
  let r := releaseChunks front s.tx.chunks s.tx.cbase
  { s with
    lanes := fun i =>
      if i ∈ s.order then { s.lanes i with infl := (s.lanes i).infl.trimBelow front }
      else s.lanes i
    tx :=
      { s.tx with
        sBase := front
        retx := s.tx.retx.trimBelow front
        rescue := advanceRescue front s.tx.rescue
        chunks := if front = s.tx.resEnd then 0 else r.1
        cbase := if front = s.tx.resEnd then front / chunkSize * chunkSize else r.2 } }

/-- A JOIN's or JOIN_ACK's `rxNext`, applied like an ACK. -/
def applyRxNext (rx : Nat) (s : Session) : Session × Option Violation :=
  if s.tx.sNext < rx then (s, some .rxNextBeyondSent)
  else if s.tx.sBase < rx ∧ s.rx.ended = false then (s.advanceSend rx, none)
  else (s, none)

/-- The peer's initial window. -/
def peerWindow (w : Nat) (s : Session) : Session :=
  s.withTx fun t => { t with peerLimit := max t.peerLimit (t.sBase + w) }

/-! ### Lanes that leave -/

/-- Add the spans `l` to `r`. -/
def addSpans (r : SpanList) (l : List Span) : SpanList := l.foldl (fun r sp => r.add sp.off sp.n) r

/-- The queue after a lane left: with the lane's unacknowledged spans, except in race while another
data lane lives. -/
def requeued (p : Params) (l : LaneId) (s : Session) : SpanList :=
  if p.mode = .race ∧ s.raceOtherDataLane l = true then s.tx.retx
  else addSpans s.tx.retx ((s.lanes l).infl.trimBelow s.tx.sBase).s

/-- Take a lane's spans out of flight; in race the lane's cursor goes back to the front. -/
def requeue (p : Params) (l : LaneId) (s : Session) : Session :=
  (s.setLane l fun ln =>
    { ln with
      infl := .empty
      rnext := if p.mode = .race then s.tx.sBase else ln.rnext }).withTx
    fun t => { t with retx := s.requeued p l }

/-- Remove an ended lane from the stream. -/
def laneGone (p : Params) (l : LaneId) (s : Session) : Session :=
  let s := { s with order := s.order.erase l }
  let s := s.withTx fun t =>
    { t with
      fin := if t.fin.lane = some l then { t.fin with lane := none } else t.fin
      rescue := if t.rescue.holder = some l then .none else t.rescue }
  let s := s.setLane l fun ln => { ln with finHere := false }
  let s := s.requeue p l
  if s.rx.ended then s else s.bump

/-- Register a lane just attached. -/
def laneAdded (l : LaneId) (s : Session) : Session :=
  if l ∈ s.order then s
  else
    let s := { s with order := s.order ++ [l], rx := { s.rx with ackOnData := true } }
    if s.rx.ended then s else s.bump

/-! ### The rescue -/

/-- The lane whose in-flight list covers the front, with the stuck segment. -/
def rescueHolder (p : Params) (s : Session) : Option (LaneId × Span) :=
  let x := s.tx.sBase
  if s.tx.sNext ≤ x ∨ s.rx.ended = true then none
  else
    s.order.findSome? fun l =>
      ((s.lanes l).infl.s.find? fun h => decide (h.off ≤ x) && decide (x < h.endOff)).map fun h =>
        (l, ⟨x, min (min h.endOff (s.tx.chunkEnd x)) (x + p.segment) - x⟩)

/-- A data lane may send the pending duplicate: any lane but the holder, and the holder while it
is alone and interleaved DATA is unacknowledged. -/
def rescueSender (s : Session) (l : LaneId) : Bool :=
  decide (s.tx.rescue.holder ≠ some l) || (s.tx.interleaved && !s.otherDataLane l)

/-- The bond rescue check once its wait has passed. -/
def rescue (p : Params) (s : Session) : Session :=
  if p.mode ≠ .bond ∨ s.rx.ended = true ∨ s.tx.endOff ≤ s.tx.sBase ∨ s.tx.rescue.set = true then s
  else
    match s.rescueHolder p with
    | none => s
    | some (h, sp) =>
      let other := s.otherDataLane h
      let first := decide (s.rescuedBase ≠ some s.tx.sBase) && (other || s.tx.interleaved)
      let again :=
        decide (s.rescuedBase = some s.tx.sBase) && decide (s.tx.rescue.holder = some h) && other
      if first || again then
        { s with
          tx := { s.tx with rescue := ⟨true, sp, some h⟩ }
          rescuedBase := some s.tx.sBase }
      else s

end Session

/-! ### Pulling DATA into a batch -/

/-- The data part of a Fill in progress. -/
structure Pull where
  s : Session
  b : Batch
  /-- the lane's share of its carrier's capacity -/
  left : Int
  /-- this call placed DATA already -/
  sent : Bool

namespace Pull

/-- Append one DATA frame for up to `n` bytes at `off`, cut at the chunk and at the segment
size, and record it in flight; the bytes appended come first (0: stop). Only the first frame of
a call is cut to the room of the batch. -/
def addData (p : Params) (l : LaneId) (off n : Nat) (st : Pull) : Nat × Pull :=
  let n := min (min n (st.s.tx.chunkEnd off - off)) p.segment
  let room := st.b.room.toNat
  if room < n ∧ (st.sent = true ∨ room = 0) then (0, st)
  else
    let n := min n room
    match st.b.addData off (st.s.tx.bytesAt off n) with
    | none => (0, st)
    | some b =>
      (n, { s := st.s.setLane l fun ln => { ln with infl := ln.infl.add off n }
            b := b, left := st.left - n, sent := true })

/-- One loop of a Fill: what it needs to go on, what it does before each frame, which bytes come
next and what is recorded once `k` of them were placed. -/
structure Loop where
  live : Pull → Bool
  prep : Session → Session
  next : Session → Nat × Nat
  took : Nat → Session → Session

/-- Place frames until the loop has nothing to place or a frame is refused. -/
def pullLoop (p : Params) (l : LaneId) (q : Loop) : Nat → Pull → Pull
  | 0, st => st
  | fuel + 1, st =>
    if q.live st then
      let st := { st with s := q.prep st.s }
      let r := st.addData p l (q.next st.s).1 (q.next st.s).2
      if r.1 = 0 then r.2 else pullLoop p l q fuel { r.2 with s := q.took r.1 r.2.s }
    else st

/-- The rescue duplicate. -/
def rescueLoop : Loop where
  live st := decide (0 < st.s.tx.rescue.sp.n)
  prep s := s
  next s := (s.tx.rescue.sp.off, s.tx.rescue.sp.n)
  took k s := s.withTx fun t =>
    { t with rescue := { t.rescue with sp := ⟨t.rescue.sp.off + k, t.rescue.sp.n - k⟩ } }

/-- Retransmissions, lowest first. -/
def retxLoop : Loop where
  live st := decide (0 < st.left) && decide (st.s.tx.retx.s ≠ [])
  prep s := s
  next s :=
    match s.tx.retx.s with
    | [] => (0, 0)
    | sp :: _ => (sp.off, sp.n)
  took k s := s.withTx fun t => { t with retx := t.retx.takeFront k }

/-- New bytes, up to the committed end and the peer's limit. -/
def newLoop : Loop where
  live st := decide (0 < st.left) && decide (st.s.tx.sNext < min st.s.tx.endOff st.s.tx.peerLimit)
  prep s := s
  next s := (s.tx.sNext, min s.tx.endOff s.tx.peerLimit - s.tx.sNext)
  took k s := s.withTx fun t => { t with sNext := t.sNext + k }

/-- The rescue part of `fillData`. -/
def fillRescue (p : Params) (l : LaneId) (st : Pull) : Pull :=
  if st.s.tx.rescue.set = true ∧ 0 < st.left ∧ st.s.rescueSender l = true then
    let holder := decide (st.s.tx.rescue.holder = some l)
    let st := pullLoop p l rescueLoop maxBatchFrames st
    if 0 < st.s.tx.rescue.sp.n then st
    else
      -- a holder's own duplicate went out: its record stays, not set
      { st with s := st.s.withTx fun t =>
          { t with rescue := if holder then ⟨false, ⟨0, 0⟩, some l⟩ else .none } }
  else st

/-- The DATA of a Fill on a selector or bond data lane: the rescue duplicate, retransmissions,
then new bytes. -/
def fillData (p : Params) (l : LaneId) (st : Pull) : Pull :=
  let st := { st with s := st.s.withTx fun t =>
    { t with interleaved := if t.sBase = t.sNext then false else t.interleaved } }
  let st := st.fillRescue p l
  let st := pullLoop p l retxLoop maxBatchFrames st
  let st := pullLoop p l newLoop maxBatchFrames st
  if p.mode = .bond ∧ st.sent = true ∧ st.s.otherDataLane l = true then
    { st with s := st.s.withTx fun t => { t with interleaved := true } }
  else st

/-- The bytes a race lane sends next from its cursor, and whether they are retransmissions: up
to the end of a queued span the cursor stands in, else up to the next queued span. -/
def raceNext (l : LaneId) (s : Session) : Nat × Bool :=
  let start := (s.lanes l).rnext
  let n := min s.tx.endOff s.tx.peerLimit - start
  match s.tx.retx.s with
  | [] => (n, false)
  | sp :: _ =>
    if sp.off ≤ start then (min n (sp.endOff - start), true) else (min n (sp.off - start), false)

/-- DATA from a race lane's cursor. The lane passes the queued bytes below its cursor, which it
sent itself. -/
def raceLoop (l : LaneId) : Loop where
  live st := decide (0 < st.left) &&
    decide ((st.s.lanes l).rnext < min st.s.tx.endOff st.s.tx.peerLimit)
  prep s := s.withTx fun t => { t with retx := t.retx.trimBelow (s.lanes l).rnext }
  next s := ((s.lanes l).rnext, (raceNext l s).1)
  took k s :=
    let s' := s.setLane l fun ln => { ln with rnext := ln.rnext + k }
    if (raceNext l s).2 then
      s'.withTx fun t => { t with retx := t.retx.trimBelow ((s.lanes l).rnext + k) }
    else s'

/-- The DATA of a Fill on a race data lane. -/
def raceFillData (p : Params) (l : LaneId) (st : Pull) : Pull :=
  let st := { st with s := st.s.setLane l fun ln => { ln with rnext := max ln.rnext st.s.tx.sBase } }
  let st := pullLoop p l (raceLoop l) maxBatchFrames st
  { st with s := st.s.withTx fun t => { t with sNext := max t.sNext (st.s.lanes l).rnext } }

end Pull

end Rendr

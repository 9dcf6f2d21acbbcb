import Rendr.Session.Seg
import Rendr.Session.Params

/-!
# The receive path

The receive side of a stream session as the code computes it. `Queues` holds what a DATA call
rearranges: the in-order ring `inq`, the out-of-order list `ooq`, the contiguous end `rTail` and
the receive charge `oooCap`. `Rx` adds the delivery state, the peer's FIN and the ACK state.

A DATA frame runs through `recvData`: the range checks, the comparison with held bytes, the
placement (`keepRef` or `copyPieces`, then `promote`, `mergeFollowers`), the discard of a closed
session and `shed`. Loops of the source are recursions over the list they walk or over a fuel
that bounds their rounds.

A Read is two critical sections, `readView` and `readCommit`, with the copy in between: the
bytes viewed are kept in `rview`.
-/

namespace Rendr

/-- What a DATA call rearranges. -/
structure Queues where
  /-- the end of the contiguous received bytes -/
  rTail : Nat
  /-- in-order segments, up to `rTail` -/
  inq : SegRing
  /-- out-of-order segments beyond `rTail` -/
  ooq : List Seg
  /-- the capacity charged by `inq` and `ooq` together -/
  oooCap : Int
  /-- out-of-order bytes dropped at the receive cap or shed -/
  oooDropped : Nat
  /-- in-order bytes received -/
  rxBytes : Nat

/-- One DATA frame as the carrier's reader hands it over: a payload with or without a buffer of
its own. Offsets are `u64` and a payload fits its buffer. -/
structure DataFrame where
  off : Nat
  p : List Byte
  /-- the capacity of the frame's buffer, if it brings one -/
  buf : Option Nat
  off_lt : off < 2 ^ 64
  len_lt : p.length < 2 ^ 63
  buf_le : ∀ c ∈ buf, p.length ≤ c

lemma length_slice_le {α : Type} (l : List α) (i j : Nat) :
    (slice l i j).length ≤ l.length - i := by
  simp only [slice, List.length_take, List.length_drop]
  omega

namespace Queues

/-- The end of the highest held byte. -/
def highest (q : Queues) : Nat :=
  match q.ooq.getLast? with
  | some sg => sg.endOff
  | none => q.rTail

/-- A new run at `off` with the head of `bs`; the number of bytes copied comes first. -/
def newRun (off : Nat) (bs : List Byte) : Nat × Seg :=
  (min runSize bs.length,
    { off := off, b := bs.take runSize, cap := runCap, bufCap := runCap, run := true
      fits := by
        rw [if_pos rfl, List.length_take]
        exact min_le_left _ _ })

/-- Release `ooq[a:b]` and remove it. -/
def releaseOOORange (q : Queues) (a b : Nat) : Queues :=
  { q with oooCap := q.oooCap - charge (slice q.ooq a b), ooq := cut a b q.ooq }

/-- Release every out-of-order segment. -/
def releaseOOO (q : Queues) : Queues := q.releaseOOORange 0 q.ooq.length

/-- The loop of `promote` over the out-of-order list. -/
def promoteLoop : List Seg → Queues → Int → Queues × Int
  | [], q, left => ({ q with ooq := [] }, left)
  | sg :: t, q, left =>
    if sg.off = q.rTail then
      let n := sg.b.length
      if n ≤ q.inq.back.segRoom ∧ (n : Int) ≤ left then
        -- it fits the in-order tail: copied there, its buffer released
        promoteLoop t
          { q with
            inq := q.inq.setBack (q.inq.back.growSeg sg.b).2
            oooCap := q.oooCap - sg.segCap
            rTail := q.rTail + n
            rxBytes := q.rxBytes + n } (left - n)
      else
        promoteLoop t
          { q with inq := q.inq.push sg, rTail := q.rTail + n, rxBytes := q.rxBytes + n } left
    else ({ q with ooq := sg :: t }, left)

/-- Move every out-of-order segment that became contiguous into `inq`; `left` is what the call
may still copy. -/
def promote (q : Queues) (left : Int) : Queues × Int := promoteLoop q.ooq q left

/-- The loop of `mergeFollowers`: grow `t` by the segments that follow it contiguously, while
they fit its room and the copy limit. It returns `t`, the segments left, the charge released and
the rest of the copy limit. -/
def mergeLoop : Seg → List Seg → Int → Seg × List Seg × Int × Int
  | t, [], left => (t, [], 0, left)
  | t, sg :: r, left =>
    if sg.off ≠ t.endOff ∨ t.segRoom < sg.b.length ∨ left < sg.b.length then (t, sg :: r, 0, left)
    else
      let (t', r', freed, left') := mergeLoop (t.growSeg sg.b).2 r (left - sg.b.length)
      (t', r', freed + sg.segCap, left')

/-- Merge the out-of-order segments that follow `ooq[k]` contiguously into it. -/
def mergeFollowers (q : Queues) (k : Nat) (left : Int) : Queues × Int :=
  match q.ooq[k]? with
  | none => (q, left)
  | some t =>
    let (t', r, freed, left') := mergeLoop t (q.ooq.drop (k + 1)) left
    ({ q with ooq := q.ooq.take k ++ t' :: r, oooCap := q.oooCap - freed }, left')

/-- The loop of `appendCopy`: `bs` goes into the room of the in-order tail, then into new runs.
Each round copies at least one byte. -/
def appendLoop : Nat → Nat → List Byte → Queues → Queues
  | 0, _, _, q => q
  | fuel + 1, pos, bs, q =>
    if bs.isEmpty then q
    else if 0 < q.inq.n ∧ 0 < q.inq.back.segRoom then
      let (m, t) := q.inq.back.growSeg bs
      appendLoop fuel (pos + m) (bs.drop m) { q with inq := q.inq.setBack t }
    else
      let (m, sg) := newRun pos bs
      appendLoop fuel (pos + m) (bs.drop m)
        { q with inq := q.inq.push sg, oooCap := q.oooCap + runCap }

/-- Copy `piece`, at `pos = rTail`, to the end of `inq` and promote what became contiguous. -/
def appendCopy (q : Queues) (pos : Nat) (piece : List Byte) (left : Int) : Queues × Int :=
  let q := appendLoop piece.length pos piece q
  promote { q with rTail := q.rTail + piece.length, rxBytes := q.rxBytes + piece.length } left

/-- The segment before index `i` grown by the head of `bs`, if it ends at `pos` and has room;
the number of bytes copied comes first. -/
def growBefore (l : List Seg) (i pos : Nat) (bs : List Byte) : Option (Nat × Seg) :=
  if 0 < i then
    match l[i - 1]? with
    | some t => if t.endOff = pos ∧ 0 < t.segRoom then some (t.growSeg bs) else none
    | none => none
  else none

/-- The loop of `insertCopy`: `bs` goes into the room of the segment that ends at `pos`, then
into new runs while the charge stays within `lim`; what is beyond is dropped. The index behind
the last segment written is returned, or nothing when bytes were dropped. -/
def insertLoop (lim : Int) : Nat → Nat → Nat → List Byte → Queues → Queues × Option Nat
  | 0, i, _, _, q => (q, some i)
  | fuel + 1, i, pos, bs, q =>
    if bs.isEmpty then (q, some i)
    else
      match growBefore q.ooq i pos bs with
      | some (m, t) =>
        insertLoop lim fuel i (pos + m) (bs.drop m) { q with ooq := q.ooq.set (i - 1) t }
      | none =>
        if q.oooCap + runCap > lim then
          -- a gap remains
          ({ q with oooDropped := q.oooDropped + bs.length }, none)
        else
          let (m, sg) := newRun pos bs
          insertLoop lim fuel (i + 1) (pos + m) (bs.drop m)
            { q with ooq := insertAt i sg q.ooq, oooCap := q.oooCap + runCap }

/-- Copy `piece`, at `pos > rTail`, into `ooq` before segment `i`, and merge what follows if the
piece closed the gap. -/
def insertCopy (q : Queues) (lim : Int) (i pos : Nat) (piece : List Byte) (left : Int) :
    Queues × Int :=
  match insertLoop lim piece.length i pos piece q with
  | (q, none) => (q, left)
  | (q, some i) => q.mergeFollowers (i - 1) left

/-- Copy the piece `[pos, stop)` of `p` (at `off`), which no segment holds: in order, or out of
order before segment `i`. -/
def copyPiece (q : Queues) (lim : Int) (off : Nat) (p : List Byte) (i pos stop : Nat)
    (left : Int) : Queues × Int :=
  let piece := slice p (pos - off) (stop - off)
  if pos = q.rTail then q.appendCopy pos piece left else q.insertCopy lim i pos piece left

/-- The loop of `copyPieces` from `pos` on: each piece runs up to the next held segment. -/
def copyLoop (lim : Int) (off : Nat) (p : List Byte) : Nat → Nat → Queues → Int → Queues × Int
  | 0, _, q, left => (q, left)
  | fuel + 1, pos, q, left =>
    if pos < off + p.length then
      if pos < q.rTail then
        -- held in order: compared, or just promoted behind an in-order piece
        copyLoop lim off p fuel q.rTail q left
      else
        let i := after pos q.ooq
        match q.ooq[i]? with
        | some sg =>
          if sg.off ≤ pos then copyLoop lim off p fuel sg.endOff q left
          else
            let stop := min (off + p.length) sg.off
            let r := q.copyPiece lim off p i pos stop left
            copyLoop lim off p fuel stop r.1 r.2
        | none => q.copyPiece lim off p i pos (off + p.length) left
    else (q, left)

/-- Copy every part of `p` (at `off`) that no segment holds. -/
def copyPieces (q : Queues) (lim : Int) (off : Nat) (p : List Byte) (left : Int) : Queues × Int :=
  copyLoop lim off p p.length off q left

/-- The held out-of-order bytes inside a frame's range: the new bytes all lie in `[s0, x)`, and
`ooq[a:b]` are the segments inside it, holding `bytes` payload bytes and charging `charge`. -/
structure HeldRange where
  s0 : Nat
  x : Nat
  a : Nat
  b : Nat
  bytes : Nat
  charge : Int

/-- The loop of `heldIn` over the segments from index `h.b` on. -/
def heldScan (stop : Nat) : List Seg → HeldRange → HeldRange
  | [], h => h
  | sg :: t, h =>
    if sg.off < stop then
      if sg.endOff > stop then { h with x := sg.off }
      else heldScan stop t
        { h with b := h.b + 1, bytes := h.bytes + sg.b.length, charge := h.charge + sg.segCap }
    else h

/-- The held range of `[start, stop)`: a segment straddling `start` moves `s0` to its end, one
straddling `stop` moves `x` to its start. -/
def heldIn (ooq : List Seg) (start stop : Nat) : HeldRange :=
  let i := after start ooq
  let (s0, i) := match ooq[i]? with
    | some sg => if sg.off < start then (sg.endOff, i + 1) else (start, i)
    | none => (start, i)
  heldScan stop (ooq.drop i) { s0 := s0, x := stop, a := i, b := i, bytes := 0, charge := 0 }

/-- The bytes of `[s0, x)` no segment holds. -/
def HeldRange.newBytes (h : HeldRange) : Nat := if h.s0 ≥ h.x then 0 else h.x - h.s0 - h.bytes

/-- Keeping a frame with a buffer of capacity `c` by reference costs no more than copying: the
segments it replaces charge as much, and it fills at least half its buffer. -/
def HeldRange.byRef (h : HeldRange) (c : Nat) : Bool :=
  decide (h.charge ≥ c) && decide (2 * (h.x - h.s0) ≥ c)

/-- The segment that refers to the frame's `[s0, x)`; it may grow to the end of the frame's
buffer, of capacity `c`. -/
def refSeg (f : DataFrame) (c : Nat) (hc : c ∈ f.buf) (h : HeldRange) : Seg :=
  { off := h.s0
    b := slice f.p (h.s0 - f.off) (h.x - f.off)
    cap := c - (h.s0 - f.off)
    bufCap := c
    run := false
    fits := by
      have h1 := f.buf_le c hc
      have h2 := length_slice_le f.p (h.s0 - f.off) (h.x - f.off)
      simp only [Bool.false_eq_true, if_false]
      omega }

/-- Keep the frame's `[s0, x)` by reference as one segment that replaces the held segments it
covers. In order it is always taken; out of order only while the charge stays within `lim`,
otherwise its `n` new bytes are dropped. -/
def keepRef (q : Queues) (lim : Int) (f : DataFrame) (c : Nat) (hc : c ∈ f.buf) (h : HeldRange)
    (n : Nat) (left : Int) : Queues × Int :=
  let sg := refSeg f c hc h
  if h.s0 = q.rTail then
    let q := q.releaseOOORange h.a h.b
    promote
      { q with
        inq := q.inq.push sg
        oooCap := q.oooCap + c
        rxBytes := q.rxBytes + (h.x - h.s0)
        rTail := h.x } left
  else if q.oooCap - h.charge + c > lim then
    ({ q with oooDropped := q.oooDropped + n }, left)
  else
    let q := q.releaseOOORange h.a h.b
    mergeFollowers { q with ooq := insertAt h.a sg q.ooq, oooCap := q.oooCap + c } h.a left

/-- Place the bytes of the frame no segment holds yet: by reference when it brings a buffer and
its new bytes reach the copy limit or a reference costs no more, else by copying. -/
def place (q : Queues) (lim : Int) (f : DataFrame) : Queues :=
  let h := heldIn q.ooq (max f.off q.rTail) (f.off + f.p.length)
  let n := h.newBytes
  match hb : f.buf with
  | some c =>
    if 0 < n ∧ (copyBudget < n ∨ h.byRef c = true) then
      (q.keepRef lim f c (by simp [hb]) h n copyBudget).1
    else (q.copyPieces lim f.off f.p (copyBudget - n)).1
  | none => (q.copyPieces lim f.off f.p (copyBudget - n)).1

/-- The loop of `shed`: while the charge exceeds `lim`, the highest segment goes. -/
def shedLoop (lim : Int) : Nat → Queues → Queues
  | 0, q => q
  | n + 1, q =>
    if q.oooCap > lim then
      match q.ooq.getLast? with
      | none => q
      | some sg =>
        shedLoop lim n
          { q with
            ooq := q.ooq.dropLast
            oooCap := q.oooCap - sg.segCap
            oooDropped := q.oooDropped + sg.b.length }
    else q

/-- Restore the receive cap after in-order data took room. -/
def shed (q : Queues) (lim : Int) : Queues := shedLoop lim q.ooq.length q

/-- The loop of `releaseConsumed`. -/
def consumeLoop (rRead : Nat) : Nat → Queues → Queues
  | 0, q => q
  | n + 1, q =>
    if 0 < q.inq.n ∧ (q.inq.get 0).endOff ≤ rRead then
      consumeLoop rRead n
        { q with inq := q.inq.popFront.2, oooCap := q.oooCap - q.inq.popFront.1.segCap }
    else q

/-- Release every in-order segment wholly below `rRead`. -/
def releaseConsumed (q : Queues) (rRead : Nat) : Queues := consumeLoop rRead q.inq.n q

/-- The in-order part of `releaseRecv`. -/
def releaseInq : Nat → Queues → Queues
  | 0, q => q
  | n + 1, q =>
    if 0 < q.inq.n then
      releaseInq n
        { q with inq := q.inq.popFront.2, oooCap := q.oooCap - q.inq.popFront.1.segCap }
    else q

/-- Release every received buffer and make the unread bytes unreadable. -/
def releaseRecv (q : Queues) (rRead : Nat) : Queues :=
  { (releaseInq q.inq.n q).releaseOOO with rTail := rRead }

end Queues

/-- The receive side of a session. -/
structure Rx extends Queues where
  /-- delivered to the application -/
  rRead : Nat
  /-- the largest right edge ever advertised -/
  rightEdge : Nat
  /-- bytes delivered to the application, discarded ones included -/
  delivered : Nat
  /-- bytes that arrived again -/
  dupBytes : Nat
  /-- the peer's FIN offset, once a FIN arrived -/
  peerFin : Option Nat
  peerFinDelivered : Bool
  /-- a passive session still waiting for its verdict -/
  pending : Bool
  /-- the application called Close -/
  closed : Bool
  /-- the session is over -/
  ended : Bool
  /-- after Close in-order bytes are consumed on arrival -/
  discard : Bool
  discardedAfterClose : Bool
  /-- a Read copies outside the lock -/
  rcopying : Bool
  /-- the bytes that Read viewed -/
  rview : List Byte
  /-- Close or the end ran during that copy: the Read releases at its commit -/
  rfreePending : Bool
  /-- counts the ACKs asked for; a lane that carried a lower one owes an ACK -/
  ackGen : Nat
  /-- `rRead` at the last bump -/
  ackBumped : Nat
  /-- the ACK delay is armed -/
  ackDelay : Bool
  /-- the next ACK carries FIN_DELIVERED -/
  ackFinDelivered : Bool
  /-- the next ACK carries DONE -/
  ackDone : Bool
  /-- the next in-order DATA asks for an ACK at once -/
  ackOnData : Bool

namespace Rx

/-- The receive side at session start: every offset is `firstOffset`. -/
def init (p : Params) (pending : Bool) : Rx :=
  { rTail := p.firstOffset, inq := Ring.empty, ooq := [], oooCap := 0, oooDropped := 0
    rxBytes := 0, rRead := p.firstOffset, rightEdge := p.firstOffset, delivered := 0
    dupBytes := 0, peerFin := none, peerFinDelivered := false, pending := pending
    closed := false, ended := false, discard := false, discardedAfterClose := false
    rcopying := false, rview := [], rfreePending := false, ackGen := 0, ackBumped := 0
    ackDelay := false, ackFinDelivered := false, ackDone := false, ackOnData := false }

/-- The cap on the receive charge that out-of-order data may fill. -/
def recvLimit (p : Params) (rx : Rx) : Int := if rx.pending then earlyRecvLimit else 2 * p.window

/-- Schedule an ACK at once. -/
def bumpNow (rx : Rx) : Rx :=
  { rx with ackGen := rx.ackGen + 1, ackBumped := rx.rRead, ackDelay := false }

/-- The delivery cadence after `rRead` advanced. -/
def ackCadence (p : Params) (rx : Rx) : Rx :=
  if p.ackEvery ≤ rx.rRead - rx.ackBumped then rx.bumpNow
  else if rx.ackBumped < rx.rRead ∧ rx.ackDelay = false then { rx with ackDelay := true }
  else rx

/-- Deliver the peer's FIN once `rRead` reached it. -/
def peerFinCheck (rx : Rx) : Rx :=
  if rx.peerFin = some rx.rRead ∧ rx.peerFinDelivered = false then
    bumpNow { rx with peerFinDelivered := true, ackFinDelivered := true }
  else rx

/-- Count the bytes that arrived again; a whole duplicate is answered at once, except in race. -/
def raceDup (p : Params) (n : Nat) (whole : Bool) (rx : Rx) : Rx :=
  let rx := { rx with dupBytes := rx.dupBytes + n }
  if whole = true ∧ p.mode ≠ .race then rx.bumpNow else rx

/-- Deliver every in-order byte without a reader; the number of bytes consumed comes first. -/
def consumeAll (p : Params) (rx : Rx) : Nat × Rx :=
  let d := rx.rTail - rx.rRead
  if d = 0 then (0, rx)
  else
    let rx := { rx with rRead := rx.rTail, delivered := rx.delivered + d }
    let rx :=
      if rx.rcopying then { rx with rfreePending := true }
      else { rx with toQueues := rx.toQueues.releaseConsumed rx.rRead }
    (d, (rx.ackCadence p).peerFinCheck)

/-- What follows a placement that moved `rTail`: a closed session consumes the bytes, an open
one sheds and acknowledges the first in-order DATA after an attach. -/
def afterInOrder (p : Params) (rx : Rx) : Rx :=
  if rx.discard then
    let (d, rx) := rx.consumeAll p
    let rx := if 0 < d then { rx with discardedAfterClose := true } else rx
    { rx with toQueues := rx.toQueues.shed (rx.recvLimit p) }
  else
    let rx := { rx with toQueues := rx.toQueues.shed (rx.recvLimit p) }
    if rx.ackOnData then bumpNow { rx with ackOnData := false } else rx

/-- The last part of `recvData`: place the frame's new bytes and deal with what became in
order. -/
def accept (p : Params) (f : DataFrame) (rx : Rx) : Rx :=
  let start := max f.off rx.rTail
  let stop := f.off + f.p.length
  let n := (Queues.heldIn rx.ooq start stop).newBytes
  let dup := (start - f.off) + (stop - start - n)
  let rx := if 0 < dup then rx.raceDup p dup false else rx
  let tail := rx.rTail
  let rx := { rx with toQueues := rx.toQueues.place (rx.recvLimit p) f }
  if rx.rTail = tail then rx else rx.afterInOrder p

/-- The receive path of one DATA frame inside the right edge. -/
def recvData (p : Params) (f : DataFrame) (rx : Rx) : Rx × Option Violation :=
  let stop := (f.off + f.p.length) % 2 ^ 64
  if f.p.length = 0 ∨ stop < f.off then (rx, some .dataLength)
  else if stop > rx.rightEdge then (rx, some .window)
  else if rx.peerFin.any (fun fin => stop > fin) then (rx, some .dataBeyondFin)
  else
    let a := max f.off rx.rRead
    let b := min stop rx.rTail
    -- bytes the application already read are dropped uncompared; held ones are compared
    if f.off < rx.rTail ∧ a < b ∧
        ringEqual rx.inq.toList a (slice f.p (a - f.off) (b - f.off)) = false then
      (rx, some p.conflictErr)
    else if f.off < rx.rTail ∧ stop ≤ rx.rTail then
      (rx.raceDup p (stop - f.off) true, none)
    else if listEqual f.off f.p rx.ooq = false then (rx, some p.conflictErr)
    else (rx.accept p f, none)

/-- DATA on a pending session, from a lane that may or may not carry early data. -/
def earlyData (p : Params) (early : Bool) (f : DataFrame) (rx : Rx) : Rx × Option Violation :=
  let stop := (f.off + f.p.length) % 2 ^ 64
  if early = false ∨ stop < f.off ∨ p.earlyEnd < stop then (rx, some .dataBeforeOpen)
  else recvData p f { rx with rightEdge := max rx.rightEdge p.earlyEnd }

/-- One DATA frame delivered by a lane: an ended session discards it, a pending one takes it as
early data only. -/
def data (p : Params) (early : Bool) (f : DataFrame) (rx : Rx) : Rx × Option Violation :=
  if rx.ended then (rx, none)
  else if rx.pending then earlyData p early f rx
  else recvData p f rx

/-- A FIN received on a lane. -/
def fin (off : Nat) (rx : Rx) : Rx × Option Violation :=
  match rx.peerFin with
  | some f =>
    if off ≠ f then (rx, some .finConflict)
    else (if rx.peerFinDelivered then rx.bumpNow else rx, none)
  | none =>
    if off < rx.highest then (rx, some .finBelowData)
    else if off > rx.rightEdge then (rx, some .finBeyondWindow)
    else (peerFinCheck { rx with peerFin := some off }, none)

/-- Raise the right edge to `rRead` plus the window advertisable at this budget usage. -/
def raiseEdge (p : Params) (used max : Int) (rx : Rx) : Rx :=
  let e := rx.rRead + (advertiseWindow p.fl p.window used max).toNat
  { rx with rightEdge := if e > rx.rightEdge then e else rx.rightEdge }

/-! ### Reading -/

/-- What a Read returns. -/
inductive ReadResult
  /-- bytes, possibly none for an empty buffer -/
  | ok (bs : List Byte)
  /-- the application closed the session -/
  | closed
  /-- the peer's FIN stands at the delivery point -/
  | eof
  /-- the session's end error -/
  | ended
  | deadline
  deriving DecidableEq, Repr

/-- At most this many in-order slices are viewed by one Read. -/
def maxViews : Nat := 8

/-- Collect up to `nv` slices of at most `want` bytes together, from offset `x` on. -/
def viewLoop : List Seg → Nat → Nat → Nat → List Byte
  | [], _, _, _ => []
  | sg :: t, nv, x, want =>
    if nv = 0 ∨ want = 0 then []
    else if sg.endOff ≤ x then viewLoop t nv x want
    else
      let v := (sg.b.drop (x - sg.off)).take want
      v ++ viewLoop t (nv - 1) (x + v.length) (want - v.length)

/-- The first critical section of a Read into a buffer of `len` bytes: it returns at once
(`some`), or views bytes to be copied, or waits. A Read that finds another one copying waits for
it. -/
def readView (len : Nat) (deadline : Bool) (rx : Rx) : Rx × Option ReadResult :=
  if rx.rcopying then (rx, none)
  else if len = 0 then (rx, some (if rx.closed then .closed else .ok []))
  else if rx.closed then (rx, some .closed)
  else if rx.peerFin = some rx.rRead then (rx, some .eof)
  else if rx.ended then (rx, some .ended)
  else if deadline then (rx, some .deadline)
  else if rx.rRead < rx.rTail then
    ({ rx with
      rview := viewLoop rx.inq.toList maxViews rx.rRead (min len (rx.rTail - rx.rRead))
      rcopying := true }, none)
  else (rx, none)

/-- The second critical section, after the copy: the bytes are delivered unless Close won. -/
def readCommit (p : Params) (rx : Rx) : Rx × Option ReadResult :=
  if rx.rcopying = false then (rx, none)
  else
    let bs := rx.rview
    let rx := { rx with rcopying := false, rview := [] }
    if rx.closed then
      (if rx.rfreePending then
        { rx with rfreePending := false, toQueues := rx.toQueues.releaseConsumed rx.rRead }
      else rx, some .closed)
    else
      let rx := { rx with rRead := rx.rRead + bs.length, delivered := rx.delivered + bs.length }
      let rx := { rx with toQueues := rx.toQueues.releaseConsumed rx.rRead }
      let rx :=
        if rx.ended = false then (rx.ackCadence p).peerFinCheck
        else if rx.rfreePending then
          { rx with rfreePending := false, toQueues := rx.toQueues.releaseRecv rx.rRead }
        else rx
      (rx, some (.ok bs))

/-! ### Close and the end -/

/-- The receive part of Close: discard mode, and the buffered bytes are consumed. -/
def close (p : Params) (rx : Rx) : Rx :=
  if rx.closed then rx else (consumeAll p { rx with closed := true, discard := true }).2

/-- The receive part of the session's end. -/
def finish (rx : Rx) : Rx :=
  if rx.ended then rx
  else
    let rx := { rx with ended := true }
    if rx.rcopying then { rx with rfreePending := true, toQueues := rx.toQueues.releaseOOO }
    else { rx with toQueues := rx.toQueues.releaseRecv rx.rRead }

end Rx

end Rendr

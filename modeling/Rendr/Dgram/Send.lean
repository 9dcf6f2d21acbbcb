import Rendr.Dgram.State

/-!
# The packet send path

`WriteTo`, Fill, hand-back, lane death, ageing and the end of a packet session's send side
(`pkt_app.go`, `pkt_fill.go`, `pkt_race.go`, `pkt_unsent.go`, `pkt_end.go`), and the step function
over its events.

What a Fill finds on its carrier is in its `Batch`: the clock reading `b.Now()`, taken before the
session lock, the room of the batch and the capacity of a stream lane. The clock readings a
routing step takes inside the lock (`time.Since(pk.base)`) are the batch's `walls`, one per call.
What the chunk pool answers a push is its `PushIn`.
-/

namespace Rendr.Dgram

/-! ### The batch of a Fill -/

/-- What a Fill reads of its batch and of its carrier. -/
structure Batch where
  /-- `b.Now()`, ns since the session's base. -/
  now : Int
  dg : Bool
  /-- `b.ControlOnly()`: a MUX writer's control pass. -/
  ctl : Bool
  /-- `fillControlLocked` lets data follow (apart from the session's end). -/
  follow : Bool
  /-- `b.HeldOut`: the response hold keeps the session's frames out. -/
  held : Bool
  /-- The largest body a datagram batch takes; the bytes a stream batch still takes. -/
  room : Nat
  /-- The frames the batch still takes. -/
  slots : Nat
  /-- The payload quota of the call, if it has one. -/
  quota : Option Nat
  /-- `Capacity − Inflight − Taken` of a stream lane. -/
  left : Int
  /-- `AddFin` finds room. -/
  finOk : Bool
  /-- The clock readings of the routing steps inside this Fill. -/
  walls : List Int
  deriving Repr

namespace Batch

/-- `wire.MaxPacketPayload`. -/
def maxPacketPayload : Nat := 65507

/-- `b.DgramRoom()`. -/
def dgramRoom (b : Batch) : Nat := if b.dg then b.room else min b.room maxPacketPayload

/-- `b.AddDgram` of a body of `n` bytes, with the caller's `left -= n`. -/
def addDgram (b : Batch) (n : Nat) : Option Batch :=
  if b.slots = 0 || b.dgramRoom < n then none
  else if b.quota.any fun q => b.ctl || q < n then none
  else if b.held then none
  else some { b with slots := b.slots - 1, room := if b.dg then b.room else b.room - n,
                     quota := b.quota.map (· - n), left := b.left - n }

/-- A stream lane's capacity does not hold `n` bytes more. -/
def capped (b : Batch) (n : Nat) : Bool := !b.dg && decide (b.left < n)

/-- The clock reading of the next routing step. -/
def wall (b : Batch) : Int := b.walls.headD b.now

/-- That reading was taken. -/
def tick (b : Batch) : Batch := { b with walls := b.walls.tail }

end Batch

namespace Snd

/-! ### Lanes and routing -/

/-- `pktHasDataLaneLocked`. -/
def pktHasDataLane (s : Snd) : Bool := s.lanes.any Lane.live

/-- `pktCarriableLocked`: a live data lane could carry `n` bytes at all. -/
def pktCarriable (s : Snd) (n : Nat) : Bool :=
  s.lanes.any fun l => l.live && (!l.dg || n ≤ l.dgramMax)

/-- `pktCanPlaceLocked`: lane `l` can place `n` bytes now. -/
def pktCanPlace (l : Lane) (n : Nat) : Bool :=
  !l.blocked && if l.dg then n ≤ l.dgramMax else (n : Int) ≤ l.spare

/-- Where a head older than MaxAge is counted while a data lane exists. -/
def lateDrop (s : Snd) (t : Int) : Drop := if t < s.noPathEnd then .noPath else .age

/-- The least position a live race data lane's cursor is at, if there is such a lane. -/
def raceLo (s : Snd) : Nat :=
  s.lanes.foldl (fun lo l => if l.live then min lo (max l.rpos s.tx.pos) else lo)
    (s.tx.pos + s.tx.q.length)

/-- The loop of `raceHeadLocked`, for a queue of at most `k` descriptors. -/
def raceHeadLoop (p : Params) (lo : Nat) (now : Int) : Nat → Snd → Snd
  | 0, s => s
  | k + 1, s =>
    match s.tx.q with
    | [] => s
    | d :: _ =>
      let aged := s.ageOn && decide (p.maxAge < now - d.at)
      if lo ≤ s.tx.pos && !aged then s
      else if s.headPlaced .tx then raceHeadLoop p lo now k (s.pop .tx)
      else if !aged && d.seq != 0 && s.pktCarriable d.dg.n then
        raceHeadLoop p lo now k s.raceRedoHead
      else
        raceHeadLoop p lo now k
          ((s.pop .tx).count (if !aged then .tooLarge else s.lateDrop d.at))

/-- `raceHeadLocked`. -/
def raceHead (s : Snd) (p : Params) (now : Int) : Snd :=
  if s.pktHasDataLane then raceHeadLoop p s.raceLo now s.tx.q.length s else s

/-- The largest and the smallest `DgramMax` of the live datagram data lanes (`0`: none). -/
def dgramBounds (s : Snd) : Nat × Nat :=
  let ms := (s.lanes.filter fun l => l.live && l.dg).map Lane.dgramMax
  (ms.foldl max 0, ms.tail.foldl min (ms.headD 0))

/-- A live stream data lane exists. -/
def streamLane (s : Snd) : Bool := s.lanes.any fun l => l.live && !l.dg

/-- A confirmed stream member awaits the SCHED that routes it. -/
def heldMember (s : Snd) : Bool :=
  s.lanes.any fun l => !l.dead && !l.data && !l.dg && l.awaitSched && l.member && !l.closeSent

/-- The routing summary of `pktRouteLocked`; a data lane no longer awaits its SCHED. -/
def routeMarks (s : Snd) (p : Params) : Snd :=
  { s with
    dgMax := s.dgramBounds.1, dgMin := s.dgramBounds.2
    mixed := p.mode == .bond && (s.streamLane || s.heldMember) &&
      s.lanes.any fun l => l.live && l.dg
    lanes := s.lanes.map fun l => if l.live then { l with awaitSched := false } else l }

/-- `pktRouteLocked` at clock reading `now`. -/
def pktRoute (s : Snd) (p : Params) (now : Int) : Snd :=
  let s1 := s.routeMarks p
  let s2 := if !s.streamLane && !s.heldMember then s1.releaseAll .big .tooLarge else s1
  if p.mode = .race then s2.raceHead p now else s2

/-- `pktOtherCarrierLocked`: the routing step, then whether a live data lane other than `i` can
place `n` bytes now or, with `ever`, carry them at all. -/
def pktOtherCarrier (s : Snd) (p : Params) (i n : Nat) (ever : Bool) (now : Int) : Snd × Bool :=
  let s1 := s.pktRoute p now
  let others := s1.lanes.zipIdx.filter fun x =>
    x.2 != i && x.1.live && (!x.1.dg || n ≤ x.1.dgramMax)
  (s1, others.any (fun x => pktCanPlace x.1 n) || (ever && !others.isEmpty))

/-! ### MaxAge -/

/-- `pktAgeQueueLocked`. -/
def pktAgeQueue (s : Snd) (p : Params) (w : Which) (now : Int) (noData : Bool) : Snd :=
  match (s.ring w).q with
  | [] => s
  | d :: _ =>
    let nd := noData || !s.pktHasDataLane
    if now - d.at ≤ p.maxAge || (!nd && !s.ageOn) then s
    else
      evictWhile w (fun _ d => p.maxAge < now - d.at)
        (fun d => if nd then .noPath else s.lateDrop d.at) (s.ring w).q.length s

/-- `pktAgeStartLocked`: the passive's MaxAge clock starts, and what is queued ages from now. -/
def pktAgeStart (s : Snd) (now : Int) : Snd :=
  let stamp := fun d : Desc => { d with «at» := max d.at now }
  { s with ageOn := true, tx.q := s.tx.q.map stamp, txBig.q := s.txBig.q.map stamp }

/-- `pktRedoAgeLocked`, for a redo list of at most `k` entries. -/
def pktRedoAge (p : Params) (now : Int) : Nat → Snd → Snd
  | 0, s => s
  | k + 1, s =>
    match s.redo with
    | [] => s
    | r :: _ => if now - r.at ≤ p.maxAge then s else pktRedoAge p now k (s.redoDrop .noPath)

/-- `pktAgeOutLocked`: the actor's ageing while no data lane exists. -/
def pktAgeOut (s : Snd) (p : Params) (now : Int) : Snd :=
  let s1 := pktRedoAge p now s.redo.length s
  (s1.pktAgeQueue p .tx now true).pktAgeQueue p .big now true

/-- `pktAgeBigLocked`: the actor's ageing of a held `txBig`. -/
def pktAgeBig (s : Snd) (p : Params) (now : Int) : Snd :=
  if s.ageOn then s.pktAgeQueue p .big now false else s

/-! ### WriteTo -/

/-- What the buffer pool answers a push. -/
structure PushIn where
  /-- `Bufs.TryGet` gives a big datagram its own buffer. -/
  ext : Bool
  /-- The newest chunk lacks room: a new one is asked for. -/
  need : Bool
  /-- The heads that leave because the chunk ring is full. -/
  spare : Nat
  /-- The pool gives the chunk, at the first and at the second request. -/
  get1 : Bool
  get2 : Bool
  /-- The write deadline passed. -/
  late : Bool
  deriving Repr

/-- The errors of `WriteTo`. -/
inductive WriteErr
  | closed
  | ended
  | exhausted
  | deadline
  | packetTooLarge
  deriving DecidableEq, Repr

/-- `pring.push` with `WriteTo`'s counting: the oldest leave while the queue is over its bounds;
a chunk the pool refuses costs the head once, a second refusal the new datagram. -/
def push (s : Snd) (p : Params) (w : Which) (d : Desc) (pin : PushIn) : Snd :=
  let s1 := evictWhile w
    (fun s _ => p.queue < s.charge w + pcharge d.dg.n || p.maxN ≤ (s.ring w).q.length)
    (fun _ => .queue) (s.ring w).q.length s
  if bigData ≤ d.dg.n || !pin.need then s1.append w d
  else
    let s2 := evictWhile w (fun _ _ => true) (fun _ => .queue) pin.spare s1
    if pin.get1 then s2.append w d
    else if (s2.ring w).q.isEmpty then s2.count .queue
    else
      let s3 := s2.evict w .queue
      if pin.get2 then s3.append w d else s3.count .queue

/-- `writeTo` of `body` at clock reading `now`. -/
def writeTo (s : Snd) (p : Params) (body : List UInt8) (now : Int) (pin : PushIn) :
    Snd × Except WriteErr Nat :=
  if s.closed || s.peerFinSet then (s, .error .closed)
  else if s.ended then (s, .error .ended)
  else if s.exhausted then (s, .error .exhausted)
  else if pin.late then (s, .error .deadline)
  else if p.maxPayload < body.length then (s, .error .packetTooLarge)
  else
    let s1 := { s with log := s.log ++ [body] }
    if bigData ≤ body.length && !pin.ext then (s1.count .queue, .ok body.length)
    else
      let w : Which := if s.mixed && s.dgMax < body.length then .big else .tx
      let wide := decide (0 < s.dgMin) && decide (s.dgMin < body.length)
      ((s1.pktAgeQueue p w now false).push p w ⟨⟨s.log.length, body⟩, now, wide, 0, 0⟩ pin,
        .ok body.length)

/-! ### Fill -/

/-- The redo list's head is placed on lane `i`. -/
def placeRedoHead (s : Snd) (i : Nat) (dg : Bool) : Snd :=
  match s.redo with
  | [] => s
  | r :: rest =>
    let s1 := { s with redo := rest }.pktPlaced i dg ⟨r.seq, r.dg⟩ r.at r.wide r.cell
    { s1 with pool := s1.pool.unref r.cell }

/-- The loop of `placeRedoLocked`; the last result is whether the Fill must stop. A pass takes
one entry from the redo list, and the routing step of a race session may move a queued
descriptor there, so `k` passes suffice for `k` queued or returned datagrams. -/
def placeRedoLoop (p : Params) (i : Nat) : Nat → Snd → Batch → Snd × Batch × Bool
  | 0, s, b => (s, b, false)
  | k + 1, s, b =>
    match s.redo with
    | [] => (s, b, false)
    | r :: _ =>
      if p.maxAge < b.now - r.at then placeRedoLoop p i k (s.redoDrop (s.lateDrop r.at)) b
      else if b.dg && decide (b.dgramRoom < r.dg.n) then
        let o := s.pktOtherCarrier p i r.dg.n r.wide b.wall
        if o.2 then (o.1, b.tick, p.mode != .race)
        else placeRedoLoop p i k (o.1.redoDrop .tooLarge) b.tick
      else if b.capped r.dg.n then (s, b, true)
      else
        match b.addDgram r.dg.n with
        | none => (s, b, true)
        | some b' => placeRedoLoop p i k (s.placeRedoHead i b.dg) b'

/-- `placeRedoLocked`. -/
def placeRedo (s : Snd) (p : Params) (i : Nat) (b : Batch) : Snd × Batch × Bool :=
  placeRedoLoop p i (s.redo.length + s.tx.q.length) s b

/-- The head of queue `w` is placed on lane `i` with the next seq. -/
def placeHead (s : Snd) (w : Which) (i : Nat) (dg : Bool) : Snd :=
  match (s.ring w).q with
  | [] => s
  | d :: _ =>
    { (s.pktPlaced i dg ⟨s.nextSeq, d.dg⟩ d.at d.wide 0).pop w with nextSeq := s.nextSeq + 1 }

/-- In a mixed bond a stream lane takes `tx`'s datagrams only while one of the largest fits its
capacity afterwards (`headroom`). -/
def crowded (s : Snd) (p : Params) (w : Which) (b : Batch) (n : Nat) : Bool :=
  !b.dg && s.mixed && w == .tx && decide (b.left - n < p.maxPayload + dgramOverhead)

/-- The inner loop of `placeDgramsLocked` on queue `w`, of at most `k` datagrams; the last result
is whether the Fill returns. -/
def placeQueue (p : Params) (i : Nat) (w : Which) : Nat → Snd → Batch → Snd × Batch × Bool
  | 0, s, b => (s, b, false)
  | k + 1, s, b =>
    match (s.ring w).q with
    | [] => (s, b, false)
    | d :: _ =>
      if p.maxAge < b.now - d.at then
        placeQueue p i w k ((s.pop w).count (s.lateDrop d.at)) b
      else if b.dg && decide (b.dgramRoom < d.dg.n) then
        let o := s.pktOtherCarrier p i d.dg.n d.wide b.wall
        if o.2 then (o.1, b.tick, true)
        else placeQueue p i w k ((o.1.pop w).count .tooLarge) b.tick
      else if b.capped d.dg.n || s.crowded p w b d.dg.n then (s, b, true)
      else if p.limit ≤ s.nextSeq then ({ s with exhausted := true }, b, true)
      else
        match b.addDgram d.dg.n with
        | none => (s, b, true)
        | some b' => placeQueue p i w k (s.placeHead w i b.dg) b'

/-- `placeDgramsLocked`: the returned DGRAMs, then on a stream lane `txBig`, then `tx`. -/
def placeDgrams (s : Snd) (p : Params) (i : Nat) (b : Batch) : Snd :=
  let r := s.placeRedo p i b
  if r.2.2 then r.1
  else if r.2.1.dg then (placeQueue p i .tx r.1.tx.q.length r.1 r.2.1).1
  else
    let r' := placeQueue p i .big r.1.txBig.q.length r.1 r.2.1
    if r'.2.2 then r'.1 else (placeQueue p i .tx r'.1.tx.q.length r'.1 r'.2.1).1

/-- The descriptor at index `j` of `tx` is placed on lane `i`: with the next seq and a fresh cell
the first time, as a copy afterwards. -/
def placeAt (s : Snd) (j i : Nat) (dg : Bool) : Snd :=
  match s.tx.q[j]? with
  | none => s
  | some d =>
    if d.seq = 0 then
      let a := s.pool.alloc ⟨0, true, s.nextSeq⟩
      let s1 := { s with pool := a.2, nextSeq := s.nextSeq + 1
                         tx.q := s.tx.q.set j { d with seq := s.nextSeq + 1, cell := a.1 } }
      s1.pktPlaced i dg ⟨s.nextSeq, d.dg⟩ d.at d.wide a.1
    else s.pktPlaced i dg ⟨d.seq - 1, d.dg⟩ d.at d.wide d.cell

/-- The loop of `raceFillDgramsLocked` over the `k` descriptors from index `j` on; the last
result is the index the lane's cursor stops at. -/
def raceFillLoop (p : Params) (i : Nat) : Nat → Nat → Snd → Batch → Snd × Nat
  | 0, j, s, _ => (s, j)
  | k + 1, j, s, b =>
    match s.tx.q[j]? with
    | none => (s, j)
    | some d =>
      if p.maxAge < b.now - d.at then raceFillLoop p i k (j + 1) s b
      else if b.dgramRoom < d.dg.n then
        if b.dg then raceFillLoop p i k (j + 1) s b else (s, j)
      else if b.capped d.dg.n then (s, j)
      else if d.seq = 0 ∧ p.limit ≤ s.nextSeq then ({ s with exhausted := true }, j)
      else
        match b.addDgram d.dg.n with
        | none => (s, j)
        | some b' => raceFillLoop p i k (j + 1) (s.placeAt j i b.dg) b'

/-- Lane `i`'s cursor. -/
def cursor (s : Snd) (i : Nat) : Nat := max ((s.lanes[i]?.map Lane.rpos).getD 0) s.tx.pos

/-- Lane `i`'s cursor moves to position `r`. -/
def setCursor (s : Snd) (i r : Nat) : Snd :=
  { s with lanes := s.lanes.modify i fun l => { l with rpos := r } }

/-- Lane `i` places from its cursor on, which then stands behind what it passed. -/
def racePass (s : Snd) (p : Params) (i : Nat) (b : Batch) : Snd :=
  let j := s.cursor i - s.tx.pos
  let f := raceFillLoop p i (s.tx.q.length - j) j s b
  f.1.setCursor i (s.tx.pos + f.2)

/-- `raceFillDgramsLocked`: the head step, the returned DGRAMs, the lane's own pass, and the head
step again. -/
def raceFillDgrams (s : Snd) (p : Params) (i : Nat) (b : Batch) : Snd :=
  let r := ({ s with tx.raced := true }.raceHead p b.now).placeRedo p i b
  if r.2.2 then r.1 else (r.1.racePass p i r.2.1).raceHead p b.now

/-- `fillDgramLocked`. -/
def fillDgram (s : Snd) (p : Params) (i : Nat) (b : Batch) : Snd :=
  if !s.ageOn && b.held then s
  else
    let s1 := if s.ageOn then s else s.pktAgeStart b.now
    if p.mode = .race then s1.raceFillDgrams p i b else s1.placeDgrams p i b

/-- `racePktFinDueLocked`: lane `i`'s cursor is at the end of the queue and every queued
datagram young by this reading has a placement that may have left. -/
def racePktFinDue (s : Snd) (p : Params) (i : Nat) (now : Int) : Bool :=
  s.finRequested && !s.finAcked && !((s.lanes[i]?.map Lane.finHere).getD false) &&
  s.txBig.q.isEmpty && s.redo.isEmpty && decide (s.tx.pos + s.tx.q.length ≤ s.cursor i) &&
  (!s.tx.raced || s.tx.q.all fun d =>
    !((d.seq == 0 || s.pc d.cell == 0) && decide (now - d.at ≤ p.maxAge)))

/-- The FIN is due in lane `i`'s Fill. -/
def finDue (s : Snd) (p : Params) (i : Nat) (now : Int) : Bool :=
  if p.mode = .race then s.racePktFinDue p i now
  else s.finRequested && !s.finAcked && s.finLane.isNone && s.tx.q.isEmpty && s.txBig.q.isEmpty &&
    s.redo.isEmpty

/-- The FIN's final seq is fixed at its first placement. -/
def fixFin (s : Snd) (now : Int) : Snd :=
  if s.finPlaced then s else { s with finOff := s.nextSeq, finPlaced := true, finNow := now }

/-- The FIN is on lane `i`. -/
def finOn (s : Snd) (i : Nat) : Snd :=
  { s with finLane := some i, lanes := s.lanes.modify i fun l => { l with finHere := true } }

/-- `fillPacketLocked` on lane `i`. -/
def fillPacket (s : Snd) (p : Params) (i : Nat) (b : Batch) : Snd :=
  match s.lanes[i]? with
  | none => s
  | some l =>
    if l.dead || !(b.follow && !s.ended && l.data) then s
    else
      let s1 := if b.ctl then s else s.fillDgram p i b
      if s1.finDue p i b.now then
        let s2 := s1.fixFin b.now
        if b.finOk then s2.finOn i else s2
      else s1

/-! ### Hand-back and lane death -/

/-- The returned DGRAM `f` with what lane `l`'s record knows of it; one the record does not hold
ages from now. -/
def handed (l : Lane) (f : Frame) (now : Int) : Redo :=
  match l.recFind f.seq with
  | some e => ⟨f.seq, f.dg, e.at, e.cell, e.wide⟩
  | none => ⟨f.seq, f.dg, now, 0, false⟩

/-- The record entry of seq `x` of lane `i`, which is `l`, gives its reference away. -/
def takeEntry (s : Snd) (i : Nat) (l : Lane) (x : Nat) : Snd :=
  { s with lanes := s.lanes.set i { l with recs := takeBack x l.recs }, backs := x :: s.backs }

/-- The counting of `pktUnsentLocked` for the returned DGRAM `r`: a copy fewer while another
placement may have left; else it leaves Sent, and the ring keeps it or the redo list takes it. -/
def uncount (s : Snd) (r : Redo) : Snd :=
  if r.cell = 0 then { s with ctr.sent := s.ctr.sent - 1 }.pktRedo r
  else
    let pool := s.pool.modify r.cell fun k => { k with pc := k.pc - 1 }
    if 0 < (pool.val r.cell).pc then
      { s with pool := pool.unref r.cell, copies := s.copies - 1 }
    else if (pool.val r.cell).queued then
      { s with pool := pool.unref r.cell, ctr.sent := s.ctr.sent - 1 }
    else { s with pool := pool, ctr.sent := s.ctr.sent - 1 }.pktRedo r

/-- `pktUnsentLocked`: lane `i`'s carrier hands back the DGRAM `f` it never wrote. -/
def pktUnsent (s : Snd) (i : Nat) (f : Frame) (now : Int) : Snd :=
  match s.lanes[i]? with
  | none => s
  | some l => (s.takeEntry i l f.seq).uncount (handed l f now)

/-- `pktLaneGoneLocked`: the record of dead lane `i` keeps its cells, the oldest of `maxDying`
earlier ones lets its own go. -/
def pktLaneGone (s : Snd) (i : Nat) : Snd :=
  if ((s.lanes[i]?.map Lane.recs).getD []).isEmpty || s.pool.size == 0 then s
  else
    let s1 := if s.dying.length = maxDying then
        { s.recRelease (s.dying.headD 0) with dying := s.dying.tail }
      else s
    { s1 with dying := s1.dying ++ [i] }

/-- Lane `i`, which is `l`, is declared dead; a FIN it carried is placed again. -/
def markDead (s : Snd) (i : Nat) (l : Lane) : Snd :=
  { s with lanes := s.lanes.set i { l with dead := true, data := false, finHere := false }
           finLane := if s.finLane = some i then none else s.finLane }

/-- The death step of lane `i` (`laneGoneLocked`). -/
def laneGone (s : Snd) (p : Params) (i : Nat) (now : Int) : Snd :=
  match s.lanes[i]? with
  | none => s
  | some l =>
    if l.dead then s
    else
      let s1 := (s.markDead i l).pktLaneGone i
      if s.ended then s1 else s1.pktRoute p now

/-! ### The end -/

/-- The send queues and the redo list are dropped. -/
def releaseQueues (s : Snd) : Snd :=
  ((s.releaseAll .tx .queue).releaseAll .big .queue).pktRedoRelease

/-- `pktCloseAppLocked`. -/
def close (s : Snd) : Snd :=
  if s.closed then s else { s with closed := true, finRequested := true }

/-- `pktFinLocked` on the send side: the peer's FIN closes both directions, and one that came
before ours was requested releases the send queues. -/
def peerFin (s : Snd) : Snd :=
  if s.peerFinSet then s
  else if s.finRequested then { s with peerFinSet := true }
  else { s with peerFinSet := true, finRequested := true, peerFirst := true }.releaseQueues

/-- `packLocked` with FIN_DELIVERED. -/
def ackFin (s : Snd) : Snd :=
  if s.finAcked || !s.finPlaced then s
  else
    { s with finAcked := true, finLane := none
             lanes := match s.finLane with
               | none => s.lanes
               | some i => s.lanes.modify i fun l => { l with finHere := false } }

/-- The session's end (`pktReleaseLocked`). -/
def finish (s : Snd) : Snd := { s with ended := true }.releaseQueues

/-! ### Events -/

/-- What can happen to the send side of a packet session. -/
inductive Ev
  | writeTo (body : List UInt8) (now : Int) (pin : PushIn)
  | fill (i : Nat) (b : Batch)
  | unsent (i : Nat) (f : Frame) (now : Int)
  | laneGone (i : Nat) (now : Int)
  /-- A lane is attached; a dialer's starts at the queue's head (`raceAttachLocked`). -/
  | attach (dg member atHead : Bool)
  /-- The actor changes the lanes' data marks, with or without a routing step. -/
  | routing (data : List Bool) (route : Bool) (now : Int)
  /-- `pktMemberConfirmedLocked`. -/
  | confirm (i : Nat) (now : Int)
  /-- The lane's state and its carrier's answers change. -/
  | port (i : Nat) (member blocked closeSent : Bool) (dgramMax : Nat) (spare : Int)
  | ageOut (now : Int)
  | ageBig (now : Int)
  /-- A no-path episode ends. -/
  | pathBack (now : Int)
  | close
  | peerFin
  | ackFin
  | finish

/-- One event. -/
def step (p : Params) (s : Snd) : Ev → Snd
  | .writeTo body now pin => (s.writeTo p body now pin).1
  | .fill i b => s.fillPacket p i b
  | .unsent i f now => s.pktUnsent i f now
  | .laneGone i now => s.laneGone p i now
  | .attach dg member atHead =>
    { s with lanes := s.lanes ++
        [⟨dg, false, false, member, false, if atHead then s.tx.pos else 0, [], false, 0, false,
          false, 0⟩] }
  | .routing data route now =>
    let s1 := { s with lanes := s.lanes.zipIdx.map fun x =>
      if x.1.dead then x.1 else { x.1 with data := (data[x.2]?).getD x.1.data } }
    if route && !s.ended then s1.pktRoute p now else s1
  | .confirm i now =>
    if p.mode = .bond ∧ s.ended = false then
      { s with lanes := s.lanes.modify i fun l => { l with awaitSched := true } }.pktRoute p now
    else s
  | .port i member blocked closeSent dgramMax spare =>
    { s with lanes := s.lanes.modify i fun l =>
        { l with member := member, blocked := blocked, closeSent := closeSent
                 dgramMax := dgramMax, spare := spare } }
  | .ageOut now => s.pktAgeOut p now
  | .ageBig now => s.pktAgeBig p now
  | .pathBack now => { s with noPathEnd := now }
  | .close => s.close
  | .peerFin => s.peerFin
  | .ackFin => s.ackFin
  | .finish => s.finish

/-- `initPacketLocked`: nothing queued, no lane. -/
def start (p : Params) : Snd where
  tx := ⟨[], 0, false⟩
  txBig := ⟨[], 0, false⟩
  pool := ⟨fun _ => ⟨0, false, 0⟩, fun _ => 0, 0, []⟩
  nextSeq := p.firstSeq
  ctr := ⟨0, 0, 0, 0, 0⟩
  copies := 0
  redo := []
  lanes := []
  dying := []
  finRequested := false
  finAcked := false
  finLane := none
  finPlaced := false
  finOff := 0
  ageOn := !p.passive
  peerFirst := false
  dgMax := 0
  dgMin := 0
  mixed := false
  noPathEnd := 0
  closed := false
  peerFinSet := false
  ended := false
  exhausted := false
  log := []
  frames := []
  backs := []
  finNow := 0

end Snd

end Rendr.Dgram

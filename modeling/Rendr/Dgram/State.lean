import Rendr.Lib.Pool

/-!
# The send side of a packet session: queues, cells and records

The state a packet session keeps for the datagrams its application wrote: the packed queues `tx`
and `txBig` (`pkt_queue.go`), the placement counts of a race session's datagrams (`pcell`), the
placement record of each datagram lane and the redo list of the datagrams a dying carrier handed
back (`pkt_unsent.go`), with the operations on them.

A descriptor ring is the list of its descriptors, head first, with the absolute position of the
head; the parallel arrays `seq` and `cell` of a race ring are fields of the descriptor. The
chunks that hold the bytes are left out: a descriptor holds its datagram, and what the chunk
pool answers is an input of `push`.

Three fields of the state are history, read by no operation: the datagrams accepted (`log`), the
DGRAM frames placed (`frames`) and the seqs handed back (`backs`).
-/

namespace Rendr.Dgram

/-- The session modes. -/
inductive Mode
  | selector
  | bond
  | race
  deriving DecidableEq, Repr

/-- What is fixed when the session starts. -/
structure Params where
  mode : Mode
  /-- `RolePassive`: MaxAge's clock waits for the first lane that can place. -/
  passive : Bool
  maxPayload : Nat
  /-- `Packet.Queue`: the bytes a queue may be charged. -/
  queue : Nat
  maxAge : Int
  firstSeq : Nat
  /-- `offsetLimit`: no seq reaches it. -/
  limit : Nat
  deriving Repr

/-- `pktChargeMin`: the least a queued datagram is charged. -/
def pktChargeMin : Nat := 64

/-- `maxRedo`: the most returned datagrams that wait for a lane. -/
def maxRedo : Nat := 256

/-- `recLen`: the length of a lane's placement record. -/
def recLen : Nat := 64

/-- `maxDying`: the dead lanes whose records keep their cells. -/
def maxDying : Nat := 16

/-- `BigData`: a datagram this long is copied into a buffer of its own. -/
def bigData : Nat := 16384

/-- `wire.DgramOverhead`. -/
def dgramOverhead : Nat := 25

/-- `Params.maxN`: the descriptors a queue may hold. -/
def Params.maxN (p : Params) : Nat := max (p.queue / pktChargeMin) 1

/-- `pcharge`: what a datagram of `n` bytes is charged. -/
def pcharge (n : Nat) : Nat := max n pktChargeMin

/-- A datagram the application wrote: the how-manieth one, and its bytes. -/
structure Dg where
  id : Nat
  body : List UInt8
  deriving DecidableEq, Repr

/-- Its length. -/
def Dg.n (g : Dg) : Nat := g.body.length

/-- `pdesc` with the race ring's `seq` and `cell` at its index: a queued datagram. -/
structure Desc where
  dg : Dg
  «at» : Int
  wide : Bool
  /-- `1 +` the seq it got at its first placement; `0`: never placed. -/
  seq : Nat
  /-- Its cell; `0`: never placed. -/
  cell : Nat
  deriving DecidableEq, Repr

/-- `pring`. `raced`: the arrays `seq` and `cell` were allocated (`raceInit`). -/
structure Ring where
  q : List Desc
  pos : Nat
  raced : Bool
  deriving Repr

/-- The two send queues. -/
inductive Which
  | tx
  | big
  deriving DecidableEq, Repr

/-- `pcell` without its reference count: the placements not handed back, whether the descriptor
is still queued, and the seq of its datagram. -/
structure Cell where
  pc : Int
  queued : Bool
  seq : Nat
  deriving DecidableEq, Repr

/-- A DGRAM frame. -/
structure Frame where
  seq : Nat
  dg : Dg
  deriving DecidableEq, Repr

/-- `pplace`: one DGRAM placement of a lane's record. `out`: its carrier did not hand it back. -/
structure Entry where
  seq : Nat
  «at» : Int
  cell : Nat
  wide : Bool
  out : Bool
  deriving DecidableEq, Repr

/-- `predo`: one returned DGRAM that waits for a lane. -/
structure Redo where
  seq : Nat
  dg : Dg
  «at» : Int
  cell : Nat
  wide : Bool
  deriving DecidableEq, Repr

/-- A lane, as far as the packet send path reads it. -/
structure Lane where
  /-- A datagram carrier. -/
  dg : Bool
  /-- `state == LaneDead`. -/
  dead : Bool
  /-- It may carry data (`lane.data`). -/
  data : Bool
  /-- `state == LaneMember`. -/
  member : Bool
  awaitSched : Bool
  /-- The race cursor: an absolute position of the `tx` ring. -/
  rpos : Nat
  /-- The placement record, newest first. -/
  recs : List Entry
  finHere : Bool
  /-- `port.DgramMax`, `port.WriteBlocked`, `port.CloseSent` and `Capacity − Inflight`. -/
  dgramMax : Nat
  blocked : Bool
  closeSent : Bool
  spare : Int
  deriving Repr

/-- `l.data && l.state != LaneDead`. -/
def Lane.live (l : Lane) : Bool := l.data && !l.dead

/-- `lane.recFind`: the newest entry of seq `x`. -/
def Lane.recFind (l : Lane) (x : Nat) : Option Entry := l.recs.find? fun e => e.seq == x

/-- Where a datagram that was not sent is counted. -/
inductive Drop
  | queue
  | age
  | tooLarge
  | noPath
  deriving DecidableEq, Repr

/-- The send-side counters of `PacketCounters`. -/
structure Ctr where
  sent : Nat
  dropQueue : Nat
  dropAge : Nat
  dropTooLarge : Nat
  dropNoPath : Nat
  deriving DecidableEq, Repr

/-- One datagram more in its drop counter. -/
def Ctr.count (c : Ctr) : Drop → Ctr
  | .queue => { c with dropQueue := c.dropQueue + 1 }
  | .age => { c with dropAge := c.dropAge + 1 }
  | .tooLarge => { c with dropTooLarge := c.dropTooLarge + 1 }
  | .noPath => { c with dropNoPath := c.dropNoPath + 1 }

/-- The drops of all four kinds. -/
def Ctr.drops (c : Ctr) : Nat := c.dropQueue + c.dropAge + c.dropTooLarge + c.dropNoPath

@[simp] lemma Ctr.count_sent (c : Ctr) (b : Drop) : (c.count b).sent = c.sent := by
  cases b <;> rfl

@[simp] lemma Ctr.count_drops (c : Ctr) (b : Drop) : (c.count b).drops = c.drops + 1 := by
  cases b <;> simp only [Ctr.count, Ctr.drops] <;> omega

/-- The send side of a packet session. -/
structure Snd where
  tx : Ring
  txBig : Ring
  pool : Pool Cell
  nextSeq : Nat
  ctr : Ctr
  copies : Nat
  redo : List Redo
  /-- Every lane ever attached; a lane's number is its index. -/
  lanes : List Lane
  /-- The dead lanes whose records keep their cells, oldest death first. -/
  dying : List Nat
  finRequested : Bool
  finAcked : Bool
  finLane : Option Nat
  finPlaced : Bool
  finOff : Nat
  ageOn : Bool
  peerFirst : Bool
  dgMax : Nat
  dgMin : Nat
  mixed : Bool
  noPathEnd : Int
  closed : Bool
  peerFinSet : Bool
  ended : Bool
  exhausted : Bool
  /-- The bodies of the datagrams `WriteTo` accepted. -/
  log : List (List UInt8)
  /-- The DGRAM frames placed, latest first, each with its lane. -/
  frames : List (Nat × Frame)
  /-- The seqs of the placements handed back. -/
  backs : List Nat
  /-- The clock reading of the Fill that fixed the FIN's final seq. -/
  finNow : Int

namespace Snd

/-- The queue `w`. -/
def ring (s : Snd) : Which → Ring
  | .tx => s.tx
  | .big => s.txBig

/-- The state with another queue `w`. -/
def setRing (s : Snd) (w : Which) (r : Ring) : Snd :=
  match w with
  | .tx => { s with tx := r }
  | .big => { s with txBig := r }

/-- One datagram more in a drop counter. -/
def count (s : Snd) (b : Drop) : Snd := { s with ctr := s.ctr.count b }

/-- The placements of the datagram of seq `x` that were not handed back. -/
def out (s : Snd) (x : Nat) : Int :=
  (s.frames.countP fun f => f.2.seq == x : Int) - (s.backs.count x : Int)

/-- `cellAt(c).pc`. -/
def pc (s : Snd) (c : Nat) : Int := (s.pool.val c).pc

/-- No placement of the queued datagram `d` may have left. -/
def unplaced (s : Snd) (d : Desc) : Bool := d.seq == 0 || s.pc d.cell ≤ 0

/-! ### The descriptor ring -/

/-- `pring.headPlaced`: a placement of the head may have left. A ring without the race arrays
has no seq on any descriptor. -/
def headPlaced (s : Snd) (w : Which) : Bool :=
  match (s.ring w).q with
  | [] => false
  | d :: _ => !s.unplaced d

/-- `pring.pop`: the head leaves, and its reference on its cell goes. -/
def pop (s : Snd) (w : Which) : Snd :=
  match (s.ring w).q with
  | [] => s
  | d :: rest =>
    let s' := s.setRing w { s.ring w with q := rest, pos := (s.ring w).pos + 1 }
    if d.cell = 0 then s'
    else { s' with pool := (s.pool.modify d.cell fun k => { k with queued := false }).unref d.cell }

/-- `pring.evict`, with the caller's counting: the head leaves and is counted as a drop unless a
placement of it may have left. -/
def evict (s : Snd) (w : Which) (b : Drop) : Snd :=
  if s.headPlaced w then s.pop w else (s.pop w).count b

/-- The heads `more` asks for are evicted one after the other: at most `k`, the length of the
queue for a loop that runs until it is empty. -/
def evictWhile (w : Which) (more : Snd → Desc → Bool) (b : Desc → Drop) : Nat → Snd → Snd
  | 0, s => s
  | k + 1, s =>
    match (s.ring w).q with
    | [] => s
    | d :: _ => if more s d then evictWhile w more b k (s.evict w (b d)) else s

/-- `pring.releaseAll` with the caller's counting. -/
def releaseAll (s : Snd) (w : Which) (b : Drop) : Snd :=
  evictWhile w (fun _ _ => true) (fun _ => b) (s.ring w).q.length s

/-- `q.charge`. -/
def charge (s : Snd) (w : Which) : Nat := ((s.ring w).q.map fun d => pcharge d.dg.n).sum

/-- The tail of `pring.push`: a descriptor more. -/
def append (s : Snd) (w : Which) (d : Desc) : Snd :=
  s.setRing w { s.ring w with q := (s.ring w).q ++ [d] }

/-! ### Cells and records -/

/-- `lane.record` on lane `i`: the entry `recLen` placements old goes with its reference. -/
def record (s : Snd) (i : Nat) (e : Entry) : Snd :=
  match s.lanes[i]? with
  | none => s
  | some l =>
    let pool := match l.recs[recLen - 1]? with
      | none => s.pool
      | some old => s.pool.unref old.cell
    { s with pool := pool.ref e.cell
             lanes := s.lanes.set i { l with recs := e :: l.recs.take (recLen - 1) } }

/-- `pktPlacedLocked`: the DGRAM `f` of a datagram enqueued at `t` was placed on lane `i`. -/
def pktPlaced (s : Snd) (i : Nat) (dg : Bool) (f : Frame) (t : Int) (wide : Bool) (c : Nat) : Snd :=
  let s1 :=
    if c = 0 then { s with ctr.sent := s.ctr.sent + 1 }
    else
      let s' := if s.pc c = 0 then { s with ctr.sent := s.ctr.sent + 1 }
        else { s with copies := s.copies + 1 }
      { s' with pool := s.pool.modify c fun k => { k with pc := k.pc + 1 } }
  let s2 := { s1 with frames := (i, f) :: s.frames }
  if dg then s2.record i ⟨f.seq, t, c, wide, true⟩ else s2

/-- The record with the newest entry of seq `x` marked handed back, its reference on its cell
moved away. -/
def takeBack (x : Nat) : List Entry → List Entry
  | [] => []
  | e :: es => if e.seq == x then { e with cell := 0, out := false } :: es else e :: takeBack x es

/-- `recRelease`: the references of a whole record go. -/
def recRelease (s : Snd) (i : Nat) : Snd :=
  match s.lanes[i]? with
  | none => s
  | some l =>
    { s with pool := l.recs.foldl (fun pool e => pool.unref e.cell) s.pool
             lanes := s.lanes.set i { l with recs := l.recs.map fun e => { e with cell := 0 } } }

/-! ### The redo list -/

/-- `redoPush` from the back: an entry goes behind the ones that are not younger. -/
def redoInsert (r : Redo) : List Redo → List Redo
  | [] => [r]
  | x :: xs => if r.at < x.at then x :: redoInsert r xs else r :: x :: xs

/-- `redoPush`: the redo list is kept in enqueue-time order. -/
def redoPush (r : Redo) (l : List Redo) : List Redo := (redoInsert r l.reverse).reverse

/-- `pktRedoLocked`: the returned DGRAM joins the redo list, or is counted DropQueue when
nothing queued is worth sending any more or the list is full. -/
def pktRedo (s : Snd) (r : Redo) : Snd :=
  if s.ended || s.peerFirst || maxRedo ≤ s.redo.length then
    { s with pool := s.pool.unref r.cell }.count .queue
  else { s with redo := redoPush r s.redo }

/-- `redoPop().release` and a drop counter: the oldest returned DGRAM is given up. -/
def redoDrop (s : Snd) (b : Drop) : Snd :=
  match s.redo with
  | [] => s
  | r :: rest => { s with redo := rest, pool := s.pool.unref r.cell }.count b

/-- `raceRedoHeadLocked`: the head, every placement of which was handed back, joins the redo
list with a reference on its cell. -/
def raceRedoHead (s : Snd) : Snd :=
  match s.tx.q with
  | [] => s
  | d :: _ =>
    ({ s with pool := s.pool.ref d.cell }.pop .tx).pktRedo ⟨d.seq - 1, d.dg, d.at, d.cell, d.wide⟩

/-- `pktRedoReleaseLocked`: the redo list is dropped. -/
def pktRedoRelease (s : Snd) : Snd := s.redo.foldl (fun s _ => s.redoDrop .queue) s

end Snd

end Rendr.Dgram

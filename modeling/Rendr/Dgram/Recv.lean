import Rendr.Dgram.Send
import Rendr.Wire.Window

/-!
# A packet session

The receive path of a packet session (`pkt_recv.go`, `pkt_end.go`, `pkt_pack.go` and the reading
half of `pkt_app.go`) over the send side of `Rendr.Dgram.Send`: accepting a DGRAM, the peer's FIN
and PACKs, placing PACKs, `ReadFrom` and the end.

The flags both halves read (`closed`, `ended`) are the send side's; the peer's FIN is kept with its
final seq, and as a flag also by the send side. Four fields of the receive side are history: the
seqs the window took (`seen`), what `ReadFrom` returned (`reads`), the PACKs placed (`packs`) and
the violations returned to carriers (`errs`).
-/

namespace Rendr.Dgram

open Wire (SeqWindow)
open Snd (PushIn)

/-- `wire.Pack` with its FIN_DELIVERED flag. -/
structure Pack where
  received : Nat
  highestSeq : Nat
  finDelivered : Bool
  deriving DecidableEq, Repr

/-- The violations of a delivering carrier. -/
inductive Err
  | dataBeforeOpen
  | dgramTooLarge
  | dgramBeyondLimit
  | dgramBeyondFin
  | finConflict
  | finBelowData
  | finBeyondWindow
  | packBeyondSent
  | finDeliveredEarly
  deriving DecidableEq, Repr

/-- One datagram `ReadFrom` returned to a caller with room for `room` bytes. -/
structure Got where
  dg : Dg
  room : Nat
  deriving DecidableEq, Repr

/-- The bytes in the caller's buffer. -/
def Got.bytes (g : Got) : List UInt8 := g.dg.body.take g.room

/-- `io.ErrShortBuffer`: the rest of the datagram was discarded. -/
def Got.short (g : Got) : Bool := decide (g.room < g.dg.n)

/-- The receive-side counters of `PacketCounters`. -/
structure RcvCtr where
  received : Nat
  duplicates : Nat
  dropLate : Nat
  dropRecvQueue : Nat
  peerReceived : Nat
  deriving DecidableEq, Repr

/-- The receive side of a packet session. -/
structure Rcv where
  rx : List Dg
  dedup : SeqWindow
  rxHigh : Nat
  rxCount : Nat
  /-- `peerFinSet` and `peerFin`. -/
  peerFin : Option Nat
  peerFinDelivered : Bool
  /-- `pendingLocked`: the verdict is still open. -/
  pending : Bool
  /-- `pk.rcopy`: the datagram a `ReadFrom` detached and has not returned yet. -/
  rcopy : Option Dg
  peerHi : Nat
  ctr : RcvCtr
  seen : List Nat
  reads : List Got
  packs : List Pack
  errs : List Err

/-- A packet session: its two halves. -/
structure Sess where
  snd : Snd
  rcv : Rcv

/-! ### The receive queue -/

/-- The heads leave while the queue is over its bounds. -/
def rxEvict (p : Params) (c : Nat) : List Dg → List Dg
  | [] => []
  | g :: gs =>
    if p.queue < ((g :: gs).map fun g => pcharge g.n).sum + c ∨ p.maxN ≤ (g :: gs).length then
      rxEvict p c gs
    else g :: gs

/-- `pring.push` on the receive queue: what is queued then. A datagram of its own buffer (`ext`)
needs no chunk; a chunk the pool refuses costs the head once, a second refusal the new one. -/
def rxPush (p : Params) (q : List Dg) (g : Dg) (pin : PushIn) : List Dg :=
  let q1 := rxEvict p (pcharge g.n) q
  if pin.ext || !pin.need then q1 ++ [g]
  else
    let q2 := q1.drop pin.spare
    if pin.get1 then q2 ++ [g]
    else if q2.isEmpty then q2
    else if pin.get2 then q2.tail ++ [g]
    else q2.tail

namespace Sess

/-- The end of the peer's direction is delivered (`pktDeliverFinLocked`). -/
def pktDeliverFin (e : Sess) : Sess := { e with rcv.peerFinDelivered := true }

/-- `pktFinCheckLocked`: the peer's FIN is delivered once nothing more can come. `waited`: the
straggler bound `finWaitAt` passed. -/
def pktFinCheck (e : Sess) (p : Params) (waited : Bool) : Sess :=
  match e.rcv.peerFin with
  | none => e
  | some final =>
    if e.rcv.peerFinDelivered || e.snd.ended || !e.rcv.rx.isEmpty then e
    else if decide (final - p.firstSeq ≤ e.rcv.rxCount) || waited then e.pktDeliverFin
    else e

/-- `acceptDatagramLocked`: a new seq is counted and its datagram queued. -/
def acceptDatagram (e : Sess) (p : Params) (f : Frame) (pin : PushIn) : Sess :=
  let r := { e.rcv with
    ctr.received := e.rcv.ctr.received + 1
    rxHigh := if e.rcv.rxCount = 0 ∨ e.rcv.rxHigh < f.seq then f.seq else e.rcv.rxHigh
    rxCount := e.rcv.rxCount + 1 }
  if e.snd.closed then { e with rcv := r }
  else
    let q := rxPush p r.rx f.dg pin
    { e with rcv := { r with
      rx := q
      ctr.dropRecvQueue := r.ctr.dropRecvQueue + (r.rx.length + 1 - q.length) } }

/-- The window is asked for the seq of `f`: the state with its answer remembered. -/
def offer (e : Sess) (f : Frame) : Sess × Wire.WindowVerdict :=
  let a := e.rcv.dedup.accept f.seq
  ({ e with rcv.dedup := a.1
            rcv.seen := if a.2 = .new then f.seq :: e.rcv.seen else e.rcv.seen }, a.2)

/-- `datagramLocked`. -/
def datagram (e : Sess) (p : Params) (f : Frame) (pin : PushIn) : Sess × Option Err :=
  if e.snd.ended then (e, none)
  else if e.rcv.pending then (e, some .dataBeforeOpen)
  else if p.maxPayload < f.dg.n then (e, some .dgramTooLarge)
  else if p.limit ≤ f.seq then (e, some .dgramBeyondLimit)
  else if e.rcv.peerFin.any (· ≤ f.seq) then (e, some .dgramBeyondFin)
  else
    match e.offer f with
    | (e', .duplicate) => ({ e' with rcv.ctr.duplicates := e.rcv.ctr.duplicates + 1 }, none)
    | (e', .late) => ({ e' with rcv.ctr.dropLate := e.rcv.ctr.dropLate + 1 }, none)
    | (e', .new) =>
      -- a straggler after io.EOF was decided
      if e.rcv.peerFinDelivered then
        ({ e' with rcv.ctr.dropLate := e.rcv.ctr.dropLate + 1 }, none)
      else (e'.acceptDatagram p f pin, none)

/-- `pktFinLocked`. -/
def pktFin (e : Sess) (p : Params) (final : Nat) : Sess × Option Err :=
  match e.rcv.peerFin with
  | some old => (e, if final = old then none else some .finConflict)
  | none =>
    if final < p.firstSeq ∨ (0 < e.rcv.rxCount ∧ final ≤ e.rcv.rxHigh) then (e, some .finBelowData)
    else if p.limit < final then (e, some .finBeyondWindow)
    else
      let e1 : Sess := { snd := e.snd.peerFin, rcv := { e.rcv with peerFin := some final } }
      -- `finWaitAt` is ahead of this call's clock reading
      ((if e.snd.closed then e1.pktDeliverFin else e1).pktFinCheck p false, none)

/-- `packLocked`. -/
def pack (e : Sess) (p : Params) (k : Pack) : Sess × Option Err :=
  if e.snd.nextSeq - p.firstSeq < k.received then (e, some .packBeyondSent)
  else if 0 < k.received ∧ (e.snd.nextSeq ≤ k.highestSeq ∨ k.highestSeq < p.firstSeq) then
    (e, some .packBeyondSent)
  else if k.finDelivered && !e.snd.finPlaced then (e, some .finDeliveredEarly)
  else
    ({ snd := if k.finDelivered then e.snd.ackFin else e.snd
       rcv := { e.rcv with
         peerHi := if 0 < k.received then max e.rcv.peerHi k.highestSeq else e.rcv.peerHi
         ctr.peerReceived := max e.rcv.ctr.peerReceived k.received } }, none)

/-- `plane.Control` of a FIN or a PACK: nothing after the end, and nothing before the verdict. -/
def control (e : Sess) (deliver : Sess → Sess × Option Err) : Sess × Option Err :=
  if e.snd.ended then (e, none)
  else if e.rcv.pending then (e, some .dataBeforeOpen)
  else deliver e

/-- The PACK of what was received so far (`placePackLocked`, `placeGoLocked`). -/
def packNow (e : Sess) (flags : Bool) : Pack :=
  ⟨e.rcv.rxCount, if 0 < e.rcv.rxCount then e.rcv.rxHigh else 0, flags && e.rcv.peerFinDelivered⟩

/-! ### The application -/

/-- `readFrom` up to its copy: the head is detached. -/
def readFrom (e : Sess) (late : Bool) : Sess :=
  if e.snd.closed || e.snd.ended || late || e.rcv.rcopy.isSome then e
  else
    match e.rcv.rx with
    | [] => e
    | g :: gs => { e with rcv.rx := gs, rcv.rcopy := some g }

/-- The commit of `readFrom` for a caller with room for `room` bytes: a Close in between won. -/
def readDone (e : Sess) (p : Params) (room : Nat) (waited : Bool) : Sess :=
  match e.rcv.rcopy with
  | none => e
  | some g =>
    let e1 : Sess := { e with rcv.rcopy := none }
    if e.snd.closed then e1
    else
      let e2 : Sess := { e1 with rcv.reads := ⟨g, room⟩ :: e.rcv.reads }
      if e.rcv.rx.isEmpty && !e.snd.ended then e2.pktFinCheck p waited else e2

/-- `pktCloseAppLocked`. -/
def close (e : Sess) : Sess :=
  if e.snd.closed then e
  else
    let e1 : Sess := { snd := e.snd.close, rcv := { e.rcv with rx := [] } }
    if e.rcv.peerFin.isSome && !e.rcv.peerFinDelivered then e1.pktDeliverFin else e1

/-- The session's end (`pktReleaseLocked`). -/
def finish (e : Sess) : Sess where
  snd := e.snd.finish
  rcv := { e.rcv with rx := []
                      ctr.dropRecvQueue := e.rcv.ctr.dropRecvQueue + e.rcv.rx.length }

/-- A violation is reported to the delivering carrier. -/
def report (r : Sess × Option Err) : Sess :=
  { r.1 with rcv.errs := r.2.toList ++ r.1.rcv.errs }

/-- The send-side events that are not a step of the whole session. -/
def sendsOnly : Snd.Ev → Bool
  | .unsent .. | .close | .peerFin | .ackFin | .finish => false
  | _ => true

/-- What can happen to a packet session besides the frames it receives and the datagrams its
carriers hand back. -/
inductive Ev
  | send (ev : Snd.Ev)
  | placePack (flags : Bool)
  /-- The verdict came. -/
  | opened
  | readFrom (late : Bool)
  | readDone (room : Nat) (waited : Bool)
  /-- The actor's check at `finWaitAt`. -/
  | finWait
  | close
  | finish

/-- One such event. -/
def step (p : Params) (e : Sess) : Ev → Sess
  | .send ev => if sendsOnly ev then { e with snd := e.snd.step p ev } else e
  | .placePack flags => { e with rcv.packs := e.packNow flags :: e.rcv.packs }
  | .opened => { e with rcv.pending := false }
  | .readFrom late => e.readFrom late
  | .readDone room waited => e.readDone p room waited
  | .finWait => e.pktFinCheck p true
  | .close => e.close
  | .finish => e.finish

/-- `initPacketLocked` with the dedup window `w`. -/
def start (p : Params) (w : SeqWindow) : Sess where
  snd := Snd.start p
  rcv := { rx := [], dedup := w, rxHigh := 0, rxCount := 0, peerFin := none
           peerFinDelivered := false, pending := p.passive, rcopy := none, peerHi := 0
           ctr := ⟨0, 0, 0, 0, 0⟩, seen := [], reads := [], packs := [], errs := [] }

end Sess

end Rendr.Dgram

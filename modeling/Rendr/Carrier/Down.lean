import Mathlib.Logic.Function.Basic
import Rendr.Lib.Run
import Rendr.Mux.Batch
import Rendr.Wire.Dgram

/-!
# The death notice of a MUX trunk

`down.go` with the parts of `conn.go`, `batch.go` and the two writers it rests on: the index of a
Runtime's established trunks (`TrunkSet`), the DOWNs a trunk owes its peer (`downQueue`), the
death of a trunk (`setDeath`), the DOWN that arrives (`onDown`) and the reservation of a reliable
session frame behind the pending DOWNs (`addSessionRel`).

Every lock section and every atomic operation is a step of its own: the goroutine that ends a
trunk looks at the death record, copies its targets, serves them one at a time in any order,
publishes the record and leaves the set, and everything else may happen in between. The writer of
a trunk reserves one frame a step, so a death falls anywhere inside its round.

A trunk is named by a number (the pointer of the source); its CarrierID, its pair and its kind
never change and are a parameter of the model (`Info`).
-/

open Rendr.Wire Rendr.Octets

namespace Rendr.Carrier.Down

export Rendr.Mux (Batch)

/-! ### Causes and frames -/

/-- `Cause`: why a carrier ended. -/
inductive Cause
  | none
  | pingTimeout
  | writeStall
  | transportError
  | protocolViolation
  | instanceMismatch
  | goAway
  | localClose
  | retired
  | quality
  | peerDown
  deriving DecidableEq, Repr

namespace Cause

/-- `Death`. -/
def death (c : Cause) : Bool := c != none && c != retired && c != quality

/-- `sendsDown`. -/
def sendsDown (c : Cause) : Bool := c.death && c != goAway && c != peerDown

end Cause

/-- The reliable session frames. A PACK stands here for one that asks for reliable delivery. -/
inductive Kind
  | openFrame
  | joinFrame
  | openAck
  | joinAck
  | fin
  | rst
  | sched
  | pack
  deriving DecidableEq, Repr

namespace Kind

/-- The length of the frame's payload without its variable part. -/
def fixedLen : Kind → Nat
  | openFrame => openFixedLen
  | joinFrame => joinLen
  | openAck => openAckFixedLen
  | joinAck => joinAckLen
  | fin => finLen
  | rst => rstFixedLen
  | sched => schedFixedLen
  | pack => packLen

/-- `relFirst`. -/
def relFirst : Kind → Bool
  | openFrame | joinFrame | openAck | joinAck => true
  | fin | rst | sched | pack => false

/-- `relKeeps`, for the session frames; a DOWN uses all the room. -/
def relKeeps (k : Kind) : Bool := !k.relFirst

/-- The frames a stream batch reserves without `addSessionRel`: the first frame of a view, whose
payload is referenced as a body (`addFirst`), and every PACK (`AddPack`). -/
def direct : Kind → Bool
  | openFrame | joinFrame | pack => true
  | openAck | joinAck | fin | rst | sched => false

end Kind

/-- What a reserved frame is. -/
inductive What
  | down (id : UInt32)
  | session (k : Kind)
  /-- Any other frame: DATA, DGRAM, ACK, PING, PONG, RACK, DETACH, CLOSE, GOAWAY. -/
  | other
  deriving DecidableEq, Repr

/-- A reserved frame. `cseq` is the sequence number of its REL on a datagram trunk; the writer
stamps the RELs of a round in the order of their reservation (`relSealLocked`). -/
structure Frame where
  what : What
  cseq : Option Nat
  deriving DecidableEq, Repr

/-! ### A trunk and its writer -/

/-- What never changes about a trunk: its CarrierID, its pair (`trunkPair`: the peer Runtime and
the direction), whether it is a MUX trunk and whether it carries datagrams. -/
structure Info where
  id : UInt32
  pair : Nat
  mux : Bool
  dgram : Bool
  deriving DecidableEq, Repr

/-- Where the writer is in its round (`writeRound`, `dgWriteRound`). -/
inductive Pc
  | idle
  /-- The batch is reset; the carrier control comes next. -/
  | begun
  /-- The endpoints fill the batch (`fillRound`). -/
  | filling
  /-- The endpoints fill the batch of a trunk whose first response is not placed yet. -/
  | heldFilling
  /-- The round in which the hold ended, after the endpoints. -/
  | tail
  deriving DecidableEq, Repr

/-- A trunk, with the frames its writer reserved over its life. -/
structure Trunk where
  /-- The published death record. -/
  death : Option Cause
  closeSent : Bool
  peerClosed : Bool
  /-- `st.retiring`. -/
  retiring : Bool
  /-- `w.held`: the first response is not placed yet. -/
  held : Bool
  /-- The pending DOWNs, oldest first, and those an overflow dropped. -/
  downs : List UInt32
  dropped : List UInt32
  pc : Pc
  /-- `b.downs` is set: reliable session frames of this round go behind the pending DOWNs. -/
  fence : Bool
  batch : Batch
  frames : List Frame
  /-- The sequence number of the next REL. -/
  cseq : Nat
  deriving DecidableEq, Repr

/-- `downCap`. -/
def downCap : Nat := 32

namespace Trunk

/-- A frame of the answer `r` of the batch: reserved, or refused. -/
def put (t : Trunk) (w : What) (rel : Bool) (r : Batch × Bool) : Trunk × Bool :=
  if r.2 then
    ({ t with
        batch := r.1
        frames := t.frames ++ [⟨w, if rel then some t.cseq else none⟩]
        cseq := if rel then t.cseq + 1 else t.cseq }, true)
  else ({ t with batch := r.1 }, false)

/-- `addReliable`. -/
def addReliable (t : Trunk) (w : What) (keeps : Bool) (len : Nat) : Trunk × Bool :=
  t.put w t.batch.dgram (t.batch.addReliable keeps len)

/-- The loop of `downQueue.place` over the pending IDs. -/
def placeLoop : List UInt32 → Trunk → Trunk
  | [], t => { t with downs := [] }
  | id :: ids, t =>
    match t.addReliable (.down id) false downLen with
    | (t', true) => placeLoop ids t'
    | (t', false) => { t' with downs := id :: ids }

/-- `downQueue.place`. -/
def place (t : Trunk) : Trunk := placeLoop t.downs t

/-- `addSessionRel`, for a payload of `len` bytes. -/
def addSessionRel (t : Trunk) (k : Kind) (len : Nat) : Trunk × Bool :=
  (if t.fence then t.place else t).addReliable (.session k) k.relKeeps len

/-- The reservation of a reliable session frame with `x` bytes beyond its fixed part: `addFirst`,
`AddPack`, `AddOpenAck`, `AddJoinAck`, `AddFin`, `AddRst`, `AddSched`, `addLast`. -/
def addSession (t : Trunk) (k : Kind) (x : Nat) : Trunk × Bool :=
  let len := k.fixedLen + x
  if t.batch.dgram || !k.direct then t.addSessionRel k len
  else if k = .pack then t.put (.session k) false (t.batch.addControl len)
  else t.put (.session k) false (t.batch.addFirst len)

/-- `queueDown`. -/
def queueDown (t : Trunk) (id : UInt32) : Trunk :=
  if t.death.isSome || t.closeSent then t
  else if id ∈ t.downs then t
  else if t.downs.length = downCap then
    { t with downs := t.downs.tail ++ [id], dropped := t.dropped ++ t.downs.head?.toList }
  else { t with downs := t.downs ++ [id] }

/-- `retiringForDown`. -/
def retiringForDown (t : Trunk) : Bool := t.closeSent || t.peerClosed || t.retiring

/-- The other frames a round reserves. -/
inductive Op
  /-- A control frame of the given length (`addControl`). -/
  | control (len : Nat)
  /-- DETACH, CLOSE or GOAWAY (`addReliable`). -/
  | reliable (len : Nat)
  /-- DATA or DGRAM, whose head is outside the control arena. -/
  | data
  deriving DecidableEq, Repr

/-- The reservation of another frame. -/
def addOther (t : Trunk) : Op → Trunk
  | .control len => (t.put .other false (t.batch.addControl len)).1
  | .reliable len => (t.addReliable .other true len).1
  | .data =>
    if Mux.maxBatchFrames ≤ t.batch.n ∨ Mux.controlArena ≤ t.batch.ctl then t
    else (t.put .other false ({ t.batch with n := t.batch.n + 1 }, true)).1

/-- The start of a round. `room` and `keep` are the free REL frames and those kept for first
frames. A writer whose trunk ended or whose CLOSE is written starts none; on a datagram trunk the
rounds after the CLOSE carry no new frame. -/
def beginRound (i : Info) (t : Trunk) (room keep : Nat) : Trunk :=
  if t.pc = .idle ∧ t.death = none ∧ t.closeSent = false then
    { t with
      pc := if t.held then .heldFilling else .begun
      fence := i.mux && !t.held
      batch := ⟨i.dgram, 0, 0, 0, room, keep, 0⟩ }
  else t

/-- The DOWNs of the carrier control (`appendCarrierControl`, `dgControlLocked`), and those that
follow the response which ended the hold. -/
def control (i : Info) (t : Trunk) : Trunk :=
  match t.pc with
  | .begun => { (if i.mux then t.place else t) with pc := .filling }
  | .tail => if i.mux then t.place else t
  | _ => t

/-- A session frame, while the endpoints fill the batch. -/
def session (t : Trunk) (k : Kind) (x : Nat) : Trunk :=
  if t.pc = .filling ∨ t.pc = .heldFilling then (t.addSession k x).1 else t

/-- The first response of a held trunk was placed. -/
def release (t : Trunk) : Trunk :=
  if t.pc = .heldFilling then { t with held := false, pc := .tail } else t

/-- The write of the round; `close`: it carried our CLOSE, which only a retiring trunk places. -/
def finish (t : Trunk) (close : Bool) : Trunk :=
  if t.pc = .idle then t
  else { t with pc := .idle, fence := false, closeSent := t.closeSent || (close && t.retiring) }

end Trunk

/-! ### The set of trunks, and their deaths -/

/-- Where a `setDeath` is. -/
inductive Stage
  | called
  /-- The record was not set; the targets are copied next. -/
  | checked
  /-- The targets that still get their DOWN, and then the publication. -/
  | queueing (left : List Nat)
  /-- It published the record; the trunk leaves the set next. -/
  | won
  | done
  deriving DecidableEq, Repr

/-- A goroutine inside `setDeath`. -/
structure Dying where
  trunk : Nat
  cause : Cause
  stage : Stage
  /-- The trunk whose received DOWN caused it. -/
  via : Option Nat
  deriving DecidableEq, Repr

/-- A Runtime's trunks, the established ones (`TrunkSet`) and the deaths in progress. -/
structure Net where
  trunks : Nat → Trunk
  reg : List Nat
  dying : List Dying

/-- What a DOWN is a violation for (`onDown`). -/
inductive Violation
  /-- "DOWN: " and the codec's error. -/
  | malformed (e : WireErr)
  /-- "DOWN on a dedicated carrier". -/
  | dedicated
  /-- "DOWN naming the trunk it arrives on". -/
  | itself
  deriving DecidableEq, Repr

variable (info : Nat → Info)

/-- The key of a trunk in the set. -/
def key (t : Nat) : Nat × UInt32 := ((info t).pair, (info t).id)

namespace Net

/-- A trunk replaced. -/
def set (s : Net) (u : Nat) (t : Trunk) : Net := { s with trunks := Function.update s.trunks u t }

/-- The stage of a death replaced. -/
def stage (s : Net) (i : Nat) (g : Dying) (st : Stage) : Net :=
  { s with dying := s.dying.set i { g with stage := st } }

/-- The section of `TrunkSet.add`. -/
def add (s : Net) (t : Nat) : Net :=
  if (info t).mux then
    { s with reg := t :: s.reg.filter fun u => key info u ≠ key info t }
  else s

/-- `TrunkSet.remove`. -/
def remove (s : Net) (t : Nat) : Net := { s with reg := s.reg.filter fun u => u ≠ t }

/-- The section of `TrunkSet.down`: the other trunks of the pair, when the trunk is in the set. -/
def targets (s : Net) (t : Nat) : List Nat :=
  if t ∈ s.reg then s.reg.filter fun u => (info u).pair = (info t).pair ∧ u ≠ t else []

/-- `TrunkSet.lookup`. -/
def lookup (s : Net) (t : Nat) (id : UInt32) : Option Nat :=
  s.reg.find? fun u => (info u).pair = (info t).pair ∧ (info u).id = id

/-- `onDown` on trunk `t`: a violation, or the trunk to kill. -/
def onDown (s : Net) (t : Nat) (p : Bytes) : Except Violation (Option Nat) :=
  match parseDown p with
  | .error e => .error (.malformed e)
  | .ok id =>
    if !(info t).mux then .error .dedicated
    else if id = (info t).id then .error .itself
    else .ok ((s.lookup info t id).filter fun u => !(s.trunks u).retiringForDown)

/-- A call of `setDeath`. -/
def kill (s : Net) (t : Nat) (c : Cause) (via : Option Nat) : Net :=
  { s with dying := s.dying ++ [⟨t, c, .called, via⟩] }

/-- The next step of the death `i`; `u`: the target served. -/
def die (s : Net) (i u : Nat) : Net :=
  match s.dying[i]? with
  | none => s
  | some g =>
    match g.stage with
    | .called =>
      if (s.trunks g.trunk).death.isSome then s.stage i g .done
      else if (info g.trunk).mux && g.cause.sendsDown then s.stage i g .checked
      else s.stage i g (.queueing [])
    | .checked => s.stage i g (.queueing (s.targets info g.trunk))
    | .queueing [] =>
      let t := s.trunks g.trunk
      if t.death.isSome then s.stage i g .done
      else (s.set g.trunk { t with death := some g.cause }).stage i g
        (if (info g.trunk).mux then .won else .done)
    | .queueing left =>
      if u ∈ left then
        (s.set u ((s.trunks u).queueDown (info g.trunk).id)).stage i g (.queueing (left.erase u))
      else s
    | .won => (s.remove g.trunk).stage i g .done
    | .done => s

/-- What happens to a Runtime's trunks. -/
inductive Ev
  /-- `TrunkSet.add`, and its look at the death record afterwards. -/
  | add (t : Nat)
  | added (t : Nat)
  /-- A `setDeath` begins, and a death goes on. -/
  | setDeath (t : Nat) (c : Cause)
  | die (i u : Nat)
  /-- A DOWN arrives on trunk `t`. -/
  | onDown (t : Nat) (p : Bytes)
  /-- A planned retirement begins; the peer's CLOSE arrives. -/
  | retire (t : Nat)
  | peerClose (t : Nat)
  /-- The writer of trunk `u`. -/
  | beginRound (u room keep : Nat)
  | control (u : Nat)
  | session (u : Nat) (k : Kind) (x : Nat)
  | other (u : Nat) (op : Trunk.Op)
  | release (u : Nat)
  | finish (u : Nat) (close : Bool)
  deriving DecidableEq, Repr

/-- One step. -/
def step (s : Net) : Ev → Net
  | .add t => s.add info t
  | .added t => if (s.trunks t).death.isSome then s.remove t else s
  | .setDeath t c => s.kill t c none
  | .die i u => s.die info i u
  | .onDown t p =>
    match s.onDown info t p with
    | .error _ => s.kill t .protocolViolation none
    | .ok none => s
    | .ok (some u) => s.kill u .peerDown (some t)
  | .retire t => s.set t { s.trunks t with retiring := true }
  | .peerClose t => s.set t { s.trunks t with peerClosed := true }
  | .beginRound u room keep => s.set u ((s.trunks u).beginRound (info u) room keep)
  | .control u => s.set u ((s.trunks u).control (info u))
  | .session u k x => s.set u ((s.trunks u).session k x)
  | .other u op => if (s.trunks u).pc = .idle then s else s.set u ((s.trunks u).addOther op)
  | .release u => s.set u (s.trunks u).release
  | .finish u close => s.set u ((s.trunks u).finish close)

/-- The start: no trunk established; the passive's trunks are held. -/
def start (held : Nat → Bool) : Net where
  trunks u := ⟨none, false, false, false, held u, [], [], .idle, false, ⟨false, 0, 0, 0, 0, 0, 0⟩, [], 0⟩
  reg := []
  dying := []

end Net

end Rendr.Carrier.Down

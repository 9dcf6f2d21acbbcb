import Rendr.Carrier.DgRead

/-!
# The flow table of a shared UDP socket

`udpflow.Source` demultiplexes one socket into flows by the ID of the flow header. A datagram of an
unknown ID creates a flow only when it is a complete first datagram (`checkH1`), the ID has no
tombstone, the table has room and the address has fewer admitting flows of the class than its quota
(`admitH1`). A flow leaves the admitting count at its positive verdict or source proof (`unadmit`)
and at its removal (`remove`), which leaves a tombstone (`addTombLocked`).

A step (`Run.step`) is one section under `Source.mu`: the demux goroutine's lookup, its admission,
and the flows' own calls. Each step carries the time since the one before it.
-/

namespace Rendr.UdpFlow

open Rendr.Octets Wire

/-- `Limits`, as configured. -/
structure Limits where
  maxFlows : Int
  perSource : Int
  perSourceJoin : Int
  inbox : Int
  tombstoneTTL : Int
  tombstones : Int
  deriving DecidableEq, Repr

def maxFlowsCap : Int := 65536

/-- `normalized`: every unset bound at its default, times in nanoseconds. -/
def Limits.normalized (l : Limits) : Limits where
  maxFlows := if l.maxFlows ≤ 0 ∨ maxFlowsCap < l.maxFlows then maxFlowsCap else l.maxFlows
  perSource := if l.perSource ≤ 0 then 32 else l.perSource
  perSourceJoin := if l.perSourceJoin ≤ 0 then 32 else l.perSourceJoin
  inbox := if l.inbox ≤ 0 then 512 else l.inbox
  tombstoneTTL := if l.tombstoneTTL ≤ 0 then 12000000000 else l.tombstoneTTL
  tombstones := if l.tombstones ≤ 0 then 4096 else l.tombstones

/-- `classOpen`, `classJoin`. -/
inductive Class
  | opens
  | joins
  deriving DecidableEq, Repr

/-- The configured bound of a class. -/
def Limits.bound (l : Limits) : Class → Int
  | .opens => l.perSource
  | .joins => l.perSourceJoin

/-- `quota`: the bound as an `int32`. -/
def Limits.quota (l : Limits) (c : Class) : Int := (l.bound c).bmod 4294967296

/-! ### The first datagram -/

/-- The stateless answers. -/
inductive Refusal
  | version
  | feature
  | capacity
  deriving DecidableEq, Repr

/-- The fseq and the cseq of a first frame; fseq 0 stands for the PREFACE's own. -/
structure Firsts where
  fseq : UInt32
  cseq : UInt32
  deriving DecidableEq, Repr

/-- The class of the one frame behind the PREFACE. -/
def frameClass (F : Firsts) (fr : Wire.Frame) : Option Class :=
  if fr.header.type = typeRel then
    match parseRel fr.payload with
    | .error _ => none
    | .ok r =>
      if r.head.cseq ≠ F.cseq then none
      else if r.head.type = typeOpen then some .opens
      else if r.head.type = typeJoin then some .joins
      else none
  else if fr.header.type = typePing then
    if fr.payload.length = pingFixedLen then some .joins else none
  else none

/-- `checkH1`: the class and carrier ID of a valid first datagram, else the answer, if any. -/
def checkH1 (F : Firsts) (rb : Bytes) : Except (Option (Refusal × UInt32)) (Class × UInt32) :=
  if Carrier.Dg.Rd.isPreface rb then
    let pre := rb.take prefaceLen
    let rest := rb.drop prefaceLen
    match parsePreface pre with
    | .error (.major, _) => .error (some (.version, get32 pre 32))
    | .error (.feature, some p) => .error (some (.feature, p.carrierID))
    | .error _ => .error none
    | .ok p =>
      if p.kind ≠ kindDatagram then .error none
      else
        match decodeFrame rest with
        | .error _ => .error none
        | .ok (fr, n) =>
          if n ≠ rest.length then .error none
          else if fr.header.fseq ≠ (if F.fseq = 0 then get32 pre 36 else F.fseq) then .error none
          else
            match frameClass F fr with
            | none => .error none
            | some cls => .ok (cls, p.carrierID)
  else .error none

/-! ### Tombstones -/

structure Tomb where
  id : UInt64
  till : Int
  deriving DecidableEq, Repr

/-- The tombstones: `tq` from `tqHead` on, oldest first, and the map `tombs`. -/
structure Tombs where
  tq : List Tomb
  till : UInt64 → Option Int

/-- The map without the entry of `t`, unless a newer tombstone of the ID replaced it. -/
def without (m : UInt64 → Option Int) (t : Tomb) : UInt64 → Option Int :=
  if m t.id = some t.till then Function.update m t.id none else m

namespace Tombs

/-- `forgetTombLocked`; an empty queue is never asked. -/
def forget (q : Tombs) : Tombs :=
  match q.tq with
  | [] => q
  | t :: tq => ⟨tq, without q.till t⟩

/-- The first loop of `addTombLocked`. -/
def expire (now : Int) : List Tomb → (UInt64 → Option Int) → Tombs
  | [], m => ⟨[], m⟩
  | t :: tq, m => if now < t.till then ⟨t :: tq, m⟩ else expire now tq (without m t)

/-- The oldest tombstone is forgotten when all are remembered. -/
def makeRoom (lim : Limits) (q : Tombs) : Tombs :=
  if lim.tombstones ≤ q.tq.length then q.forget else q

/-- The tombstone `t` is the newest. -/
def push (q : Tombs) (t : Tomb) : Tombs := ⟨q.tq ++ [t], Function.update q.till t.id (some t.till)⟩

/-- `addTombLocked`. -/
def add (lim : Limits) (q : Tombs) (id : UInt64) (now : Int) : Tombs :=
  ((expire now q.tq q.till).makeRoom lim).push ⟨id, now + lim.tombstoneTTL⟩

/-- The answer of `tombLocked`. -/
def holds (q : Tombs) (id : UInt64) (now : Int) : Bool :=
  match q.till id with
  | none => false
  | some u => decide (now < u)

/-- `tombLocked` drops an entry that it finds expired. -/
def drop (q : Tombs) (id : UInt64) (now : Int) : Tombs :=
  if q.holds id now then q else ⟨q.tq, Function.update q.till id none⟩

end Tombs

/-! ### The source -/

/-- A flow; `admitting` is guarded by `Source.mu`. -/
structure Flow where
  id : UInt64
  ip : Nat
  cls : Class
  admitting : Bool
  deriving DecidableEq, Repr

/-- `Source`. A flow is the index of its record in `made`, as a pointer is. -/
structure Source where
  stopped : Bool
  closing : Bool
  made : List Flow
  flows : List (UInt64 × Nat)
  perIP : Nat → Class → Int
  admitting : Int
  tombs : Tombs
  dropped : Nat
  quotaDrops : Nat

namespace Source

/-- `s.flows[id]`. -/
def find (s : Source) (id : UInt64) : Option Nat :=
  (s.flows.find? fun e => e.1 == id).map Prod.snd

def drop (s : Source) : Source := { s with dropped := s.dropped + 1 }

/-- The count of an address and class changes by `d`. -/
def bump (p : Nat → Class → Int) (ip : Nat) (cls : Class) (d : Int) : Nat → Class → Int :=
  fun ip' cls' => if ip' = ip ∧ cls' = cls then p ip' cls' + d else p ip' cls'

/-- The new flow of `admitH1`. -/
def enter (s : Source) (id : UInt64) (ip : Nat) (cls : Class) : Source :=
  { s with
    made := s.made ++ [⟨id, ip, cls, true⟩]
    flows := (id, s.made.length) :: s.flows.filter fun e => e.1 != id
    perIP := bump s.perIP ip cls 1
    admitting := s.admitting + 1 }

/-- The refusals of `admitH1` under the lock, in its order; `none` creates the flow. -/
inductive Gate
  | stopped
  | tomb
  | quota
  | pass
  deriving DecidableEq, Repr

def gate (lim : Limits) (s : Source) (id : UInt64) (ip : Nat) (cls : Class) (now : Int) : Gate :=
  if s.stopped then .stopped
  else if s.tombs.holds id now then .tomb
  else if lim.maxFlows ≤ s.flows.length ∨ lim.quota cls ≤ s.perIP ip cls then .quota
  else .pass

/-- `admitH1`, with its stateless answer. -/
def admitH1 (lim : Limits) (F : Firsts) (s : Source) (id : UInt64) (rb : Bytes) (ip : Nat)
    (now : Int) : Source × Option (Refusal × UInt32) :=
  match checkH1 F rb with
  | .error ans => (s.drop, ans)
  | .ok (cls, cid) =>
    match s.gate lim id ip cls now with
    | .stopped => (s.drop, if s.closing then none else some (.capacity, cid))
    | .tomb => (s.drop, none)
    | .quota =>
      ({ s with tombs := s.tombs.drop id now, quotaDrops := s.quotaDrops + 1 }.drop, none)
    | .pass => ({ s with tombs := s.tombs.drop id now }.enter id ip cls, none)

/-- `unadmit`, and its part of `remove`. -/
def unadmitFlow (s : Source) (n : Nat) : Source :=
  match s.made[n]? with
  | none => s
  | some f =>
    if f.admitting then
      { s with
        made := s.made.set n { f with admitting := false }
        perIP := bump s.perIP f.ip f.cls (-1)
        admitting := s.admitting - 1 }
    else s

/-- The table part of `remove`. -/
def unlist (lim : Limits) (s : Source) (n : Nat) (now : Int) : Source :=
  match s.made[n]? with
  | none => s
  | some f =>
    if s.find f.id = some n then
      { s with
        flows := s.flows.filter fun e => e.1 != f.id
        tombs := s.tombs.add lim f.id now }
    else s

/-- A stopped source without flows closes its socket. -/
def closeLast (s : Source) : Source :=
  if s.stopped && s.flows.isEmpty then { s with closing := true } else s

/-- `remove`. -/
def remove (lim : Limits) (s : Source) (n : Nat) (now : Int) : Source :=
  ((s.unlist lim n now).unadmitFlow n).closeLast

/-- `NewSource`. -/
def new : Source where
  stopped := false
  closing := false
  made := []
  flows := []
  perIP := fun _ _ => 0
  admitting := 0
  tombs := ⟨[], fun _ => none⟩
  dropped := 0
  quotaDrops := 0

end Source

/-! ### Runs -/

/-- A run: the source, the datagram of an unknown flow that the demux goroutine holds, the flows
whose `Close` began and those whose removal is done, the clock, and what happened: the IDs removed
from the table with their times, newest first, and the flows that left the admitting count. -/
structure Run where
  src : Source
  held : Option (UInt64 × Bytes × Nat)
  closed : List Nat
  removed : List Nat
  clock : Int
  gone : List (UInt64 × Int)
  left : List Nat

inductive Ev
  /-- The demux goroutine reads a datagram and looks its flow up. -/
  | receive (d : Bytes) (ip : Nat)
  /-- `admitH1` of the datagram it holds. -/
  | admitHeld (delay : Nat)
  /-- `Admitted` or `SourceProven`. -/
  | unadmitFlow (n : Nat)
  /-- The two sections of `Close`. -/
  | close (n : Nat)
  | remove (n delay : Nat)
  | stop
  | abort
  deriving Repr

namespace Run

/-- The flow leaves the admitting count now. -/
def leaves (r : Run) (n : Nat) : List Nat :=
  match r.src.made[n]? with
  | none => []
  | some f => if f.admitting then [n] else []

/-- The ID that the flow's removal takes out of the table. -/
def frees (r : Run) (n : Nat) (now : Int) : List (UInt64 × Int) :=
  match r.src.made[n]? with
  | none => []
  | some f => if r.src.find f.id = some n then [(f.id, now)] else []

/-- The lookup of `route`. -/
def route (r : Run) (d : Bytes) (ip : Nat) : Run :=
  match parseFlowHeader d with
  | .error _ => { r with src := r.src.drop }
  | .ok f =>
    if f.rest = [] then { r with src := r.src.drop }
    else if (r.src.find f.flow).isSome then r
    else { r with held := some (f.flow, f.rest, ip) }

/-- One section. -/
def step (lim : Limits) (F : Firsts) (r : Run) : Ev → Run
  | .receive d ip => if r.held.isSome then r else r.route d ip
  | .admitHeld delay =>
    match r.held with
    | none => r
    | some (id, rb, ip) =>
      { r with
        src := (r.src.admitH1 lim F id rb ip (r.clock + delay)).1
        held := none
        clock := r.clock + delay }
  | .unadmitFlow n => { r with src := r.src.unadmitFlow n, left := r.leaves n ++ r.left }
  | .close n => if n ∈ r.closed ∨ r.src.made.length ≤ n then r else { r with closed := n :: r.closed }
  | .remove n delay =>
    if n ∈ r.closed ∧ n ∉ r.removed then
      { r with
        src := r.src.remove lim n (r.clock + delay)
        removed := n :: r.removed
        clock := r.clock + delay
        gone := r.frees n (r.clock + delay) ++ r.gone
        left := r.leaves n ++ r.left }
    else r
  | .stop => { r with src := { r.src with stopped := true }.closeLast }
  | .abort => { r with src := { r.src with stopped := true, closing := true } }

/-- A new source at the time `t0`. -/
def start (t0 : Int) : Run where
  src := Source.new
  held := none
  closed := []
  removed := []
  clock := t0
  gone := []
  left := []

end Run

end Rendr.UdpFlow

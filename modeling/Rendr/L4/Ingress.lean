import Rendr.Lib.Dense
import Rendr.Lib.Run

/-!
# The UDP ingress

A `PortForward` maps the clients of its UDP sockets to flows. Each `ServeUDP` call has a table of
its flows, a reader and one goroutine for each flow (`portforward_udp.go`, `flowtable.go`). A flow
opens its session, writes what was queued meanwhile, is open until its session ends, and may be held
after a failed open or an early end. All calls share the MaxFlows units (`flows`) and the opening
stage's units.

A step is one section under a table's mutex, with what the goroutine does around it that no other
goroutine sees. What the sessions answer, the clocks and the victim that a full table picks are
values of the event; the victim is any open or held flow of the table. A flow is the index of its
record in `made`, as a pointer is. Each datagram has its arrival number; `wrote` are the numbers of
those a flow wrote to its session, `closed` the flows whose `done` was closed, and `released` and
`handed` those whose unit was released or handed to a newcomer.
-/

namespace Rendr.L4

/-- A client datagram. -/
structure Dgram where
  n : Nat
  len : Nat
  deriving DecidableEq, Repr

/-- `ingressOpeningMax`, `ingressQueueLen`, `ingressQueueBytes`. -/
def ingressOpeningMax : Int := 256
def ingressQueueLen : Nat := 8
def ingressQueueBytes : Nat := 16384

/-- The size of the pool class that holds `n` octets (`ingressClasses`, `ingressClass`). -/
def ingressClass (n : Nat) : Nat :=
  if n ≤ 512 then 512 else if n ≤ 2048 then 2048 else if n ≤ 16384 then 16384 else 65536

inductive FlowState
  | opening
  | opened
  | held
  /-- The zero state of a flow that is gone. -/
  | unset
  deriving DecidableEq, Repr

/-- Where a flow's goroutine is. -/
inductive Phase
  | dialing
  /-- The flush writes what it took of the queue; the session may have ended. -/
  | flushing (batch : List Dgram) (ended : Bool)
  | pumping
  /-- The flush met the stop. -/
  | stopping
  /-- The unit is to be released, then the hold waited out, or not. -/
  | owing (hold : Bool)
  | holding
  | finished
  deriving DecidableEq, Repr

/-- `ingressFlow`. -/
structure Flow where
  serve : Nat
  client : Nat
  state : FlowState
  gone : Bool
  evicted : Bool
  peerEnd : Bool
  first : Option Dgram
  firstQ : Option Dgram
  q : List Dgram
  qBytes : Nat
  maxPayload : Nat
  phase : Phase
  wrote : List Nat
  deriving DecidableEq, Repr

namespace Flow

/-- The loop of `push`: the queue, its charge and the datagrams dropped. -/
def makeRoom (charge : Nat) : List Dgram → Nat → List Dgram × Nat × Nat
  | [], b => ([], b, 0)
  | d :: q, b =>
    if (d :: q).length = ingressQueueLen ∨ ingressQueueBytes < b + charge then
      let r := makeRoom charge q (b - ingressClass d.len)
      (r.1, r.2.1, r.2.2 + 1)
    else (d :: q, b, 0)

/-- `push`, and the datagrams it dropped. -/
def push (f : Flow) (d : Dgram) : Flow × Nat :=
  if ingressQueueBytes < ingressClass d.len then (f, 1)
  else
    let r := makeRoom (ingressClass d.len) f.q f.qBytes
    ({ f with q := r.1 ++ [d], qBytes := r.2.1 + ingressClass d.len }, r.2.2)

/-- What `takeQueue` returns. -/
def queued (f : Flow) : List Dgram := f.firstQ.toList ++ f.q

/-- What `takeQueue` leaves. -/
def takeQueue (f : Flow) : Flow := { f with firstQ := none, q := [], qBytes := 0 }

end Flow

/-- The reader of a serve. -/
inductive Reader
  | idle
  /-- It writes a datagram to the session of an open flow. -/
  | writing (p : Nat) (d : Dgram) (src : Nat)
  /-- It is to release a unit: one it took, or that of a flow it removed. -/
  | owing (p : Option Nat)
  | exited
  deriving DecidableEq, Repr

/-- `udpServe` with its `flowTable`. -/
structure Serve where
  reader : Reader
  /-- The context is done. -/
  ctx : Bool
  stopped : Bool
  returned : Bool
  m : List (Nat × Nat)
  all : List Nat
  deriving DecidableEq, Repr

/-- The counters of the datagrams. -/
structure Counters where
  toSession : Nat
  tooLarge : Nat
  dropFull : Nat
  dropOpening : Nat
  dropOpenQueue : Nat
  dropOpenAge : Nat
  dropHeld : Nat
  deriving DecidableEq, Repr

def Counters.total (c : Counters) : Nat :=
  c.toSession + c.tooLarge + c.dropFull + c.dropOpening + c.dropOpenQueue + c.dropOpenAge +
    c.dropHeld

/-- `PortForward`: the units, the gauges of the states, the flows of all serves and the serves. -/
structure PortForward where
  flows : Int
  gauge : FlowState → Int
  c : Counters
  made : List Flow
  idx : Nat → Nat
  serves : List Serve
  next : Nat
  closed : List Nat
  released : List Nat
  handed : List Nat

/-- `newEntry`; `bare` is the metadata of the serve's OPEN without a first datagram. -/
def newEntry (bare : Nat) (i src : Nat) (d : Dgram) : Flow where
  serve := i
  client := src
  state := .opening
  gone := false
  evicted := false
  peerEnd := false
  first := if 0 < d.len ∧ bare + d.len ≤ 438 then some d else none
  firstQ := if 0 < d.len ∧ bare + d.len ≤ 438 then none else some d
  q := []
  qBytes := 0
  maxPayload := 0
  phase := .dialing
  wrote := []

namespace PortForward

def setFlow (s : PortForward) (p : Nat) (f : Flow) : PortForward := { s with made := s.made.set p f }

def setServe (s : PortForward) (i : Nat) (v : Serve) : PortForward :=
  { s with serves := s.serves.set i v }

/-- A gauge changes; a flow that is gone has none. -/
def bump (s : PortForward) (st : FlowState) (d : Int) : PortForward :=
  if st = .unset then s else { s with gauge := Function.update s.gauge st (s.gauge st + d) }

/-- `setState`: to open or held. -/
def setState (s : PortForward) (p : Nat) (f : Flow) (st : FlowState) : PortForward :=
  ((s.bump f.state (-1)).bump st 1).setFlow p { f with state := st }

/-- `flowTable.put`. -/
def put (s : PortForward) (i : Nat) (v : Serve) (src p : Nat) : PortForward :=
  { s with
    idx := Function.update s.idx p v.all.length
    serves := s.serves.set i { v with m := (src, p) :: v.m, all := v.all ++ [p] } }

/-- `flowTable.del` of the entry of the client. -/
def del (s : PortForward) (i : Nat) (v : Serve) (src p : Nat) : PortForward :=
  { s with
    idx := (swapRemove v.all s.idx p).2
    serves := s.serves.set i
      { v with m := v.m.filter fun e => e.1 != src, all := (swapRemove v.all s.idx p).1 } }

/-- `remove` of the flow `p`, in the table of its serve. -/
def remove (s : PortForward) (p : Nat) (f : Flow) : PortForward :=
  if f.gone then s
  else
    match s.serves[f.serve]? with
    | none => s
    | some v =>
      ((s.bump f.state (-1)).setFlow p { f with state := .unset, gone := true }).del
        f.serve v f.client p

/-- `t.m[src]`. -/
def find (v : Serve) (src : Nat) : Option Nat := (v.m.find? fun e => e.1 == src).map Prod.snd

def count (s : PortForward) (g : Counters → Counters) : PortForward := { s with c := g s.c }

/-- A new opening flow of the client, with the datagram as its first, whose units are taken. -/
def enter (s : PortForward) (bare i src : Nat) (d : Dgram) : PortForward :=
  match s.serves[i]? with
  | none => s
  | some v =>
    { (s.bump .opening 1).put i v src s.made.length with
      made := s.made ++ [newEntry bare i src d] }

/-- The flow may be a victim. -/
def mayReplace (s : PortForward) (i p : Nat) : Bool :=
  match s.made[p]? with
  | none => false
  | some f => f.serve == i && !f.gone && (f.state == .held || f.state == .opened)

/-- The victim's place is taken: it leaves the table, its unit is the newcomer's, `done` closes. -/
def evict (s : PortForward) (p : Nat) : PortForward :=
  match s.made[p]? with
  | none => s
  | some f =>
    { s.remove p { f with evicted := f.state == .opened } with
      handed := p :: s.handed, closed := p :: s.closed }

/-- The reader of serve `i` owes a unit. -/
def owe (s : PortForward) (i : Nat) (p : Option Nat) : PortForward :=
  match s.serves[i]? with
  | none => s
  | some v => s.setServe i { v with reader := .owing p }

/-- `admit`, with the victim that a full table picks. -/
def admitFlow (max : Int) (s : PortForward) (bare i src : Nat) (d : Dgram) (pick : Option Nat) :
    PortForward :=
  if s.flows < max then
    if s.gauge .opening < ingressOpeningMax then
      { s with flows := s.flows + 1 }.enter bare i src d
    else
      ({ s with flows := s.flows + 1 }.owe i none).count fun c =>
        { c with dropOpening := c.dropOpening + 1 }
  else
    match pick with
    | none => s.count fun c => { c with dropFull := c.dropFull + 1 }
    | some p =>
      if s.mayReplace i p then
        if s.gauge .opening < ingressOpeningMax then (s.evict p).enter bare i src d
        else s.count fun c => { c with dropOpening := c.dropOpening + 1 }
      else s.count fun c => { c with dropFull := c.dropFull + 1 }

/-- `datagram` of a client that may have an entry. -/
def datagram (max : Int) (s : PortForward) (bare i : Nat) (v : Serve) (src : Nat) (d : Dgram)
    (pick : Option Nat) : PortForward :=
  match find v src with
  | none => s.admitFlow max bare i src d pick
  | some p =>
    match s.made[p]? with
    | none => s
    | some f =>
      match f.state with
      | .opening =>
        (s.setFlow p (f.push d).1).count fun c =>
          { c with dropOpenQueue := c.dropOpenQueue + (f.push d).2 }
      | .held => s.count fun c => { c with dropHeld := c.dropHeld + 1 }
      | _ => s.setServe i { v with reader := .writing p d src }

/-- `replace`, for the flow `p` whose session ended; `early`: the far end closed it early. -/
def replace (max : Int) (s : PortForward) (bare i : Nat) (v : Serve) (p : Nat) (f : Flow) (src : Nat)
    (d : Dgram) (early : Bool) (pick : Option Nat) : PortForward :=
  if find v src ≠ some p then s.datagram max bare i v src d pick
  else if f.state = .held then s.count fun c => { c with dropHeld := c.dropHeld + 1 }
  else if early then
    (s.setState p { f with peerEnd := true } .held).count fun c =>
      { c with dropHeld := c.dropHeld + 1 }
  else if s.gauge .opening < ingressOpeningMax then
    { s.remove p f with handed := p :: s.handed }.enter bare i src d
  else
    ((s.remove p f).owe i (some p)).count fun c => { c with dropOpening := c.dropOpening + 1 }

end PortForward

/-- The result of a WriteTo. -/
inductive Written
  | ok
  | tooLarge
  /-- The session ended, by the far end's early close or not. -/
  | failed (early : Bool)
  deriving DecidableEq, Repr

inductive Ev
  /-- A `ServeUDP` call begins. -/
  | serve
  | recv (i src len : Nat) (pick : Option Nat)
  | wrote (i : Nat) (w : Written) (pick : Option Nat)
  | readerReleases (i : Nat)
  | halt (i : Nat)
  | readerExits (i : Nat)
  | shutdown (i : Nat)
  | returns (i : Nat)
  /-- The open succeeded; the first datagram rode it, or not. -/
  | opened (p maxPayload : Nat) (rode : Bool)
  /-- The open failed; `stopping` as it read the context before the section. -/
  | openFailed (p : Nat) (closed stopping : Bool)
  | flush (p : Nat)
  | flushOne (p : Nat) (aged : Bool) (w : Written)
  /-- The section of `end`; `early`: the far end closed it early. -/
  | endFlow (p : Nat) (early : Bool)
  | unhold (p : Nat)
  | flowReleases (p : Nat)
  deriving DecidableEq, Repr

namespace PortForward

/-- `halt`. -/
def haltServe (s : PortForward) (i : Nat) : PortForward :=
  match s.serves[i]? with
  | none => s
  | some v => s.setServe i { v with ctx := true }

/-- The serve's context is done. -/
def isHalted (s : PortForward) (i : Nat) : Bool :=
  match s.serves[i]? with
  | none => false
  | some v => v.ctx

/-- The serve's flag of its table. -/
def isStopped (s : PortForward) (i : Nat) : Bool :=
  match s.serves[i]? with
  | none => false
  | some v => v.stopped

/-- The reader of serve `i` handles a WriteTo's result. -/
def readerWrote (max : Int) (s : PortForward) (bare i : Nat) (v : Serve) (p : Nat) (d : Dgram)
    (src : Nat) (w : Written) (pick : Option Nat) : PortForward :=
  match s.made[p]? with
  | none => s
  | some f =>
    let v := { v with reader := .idle }
    let s := s.setServe i v
    match w with
    | .ok =>
      (s.setFlow p { f with wrote := f.wrote ++ [d.n] }).count fun c =>
        { c with toSession := c.toSession + 1 }
    | .tooLarge => s.count fun c => { c with tooLarge := c.tooLarge + 1 }
    | .failed early => s.replace max bare i v p f src d early pick

/-- The first datagram after a successful open: sent, or at the head of the queue. -/
def flowOpened (s : PortForward) (p : Nat) (f : Flow) (maxPayload : Nat) (rode : Bool) :
    PortForward :=
  let f := { f with maxPayload := maxPayload, phase := .flushing [] false }
  match f.first with
  | none => s.setFlow p f
  | some d =>
    if rode then
      (s.setFlow p { f with first := none, wrote := f.wrote ++ [d.n] }).count fun c =>
        { c with toSession := c.toSession + 1 }
    else s.setFlow p { f with first := none, firstQ := some d }

/-- `openFailed`. -/
def flowOpenFailed (s : PortForward) (p : Nat) (f : Flow) (stopping : Bool) : PortForward :=
  let n := f.queued.length + f.first.toList.length
  let f' := { f.takeQueue with first := none }
  if stopping || s.isStopped f.serve then
    (s.remove p { f' with phase := .owing (!stopping) }).count fun c =>
      { c with dropOpenQueue := c.dropOpenQueue + n }
  else
    (s.setState p { f' with phase := .holding } .held).count fun c =>
      { c with dropHeld := c.dropHeld + n }

/-- A turn of the flush under the lock. -/
def flowFlush (s : PortForward) (p : Nat) (f : Flow) (ended : Bool) : PortForward :=
  if s.isStopped f.serve then
    (s.setFlow p { f.takeQueue with phase := .stopping }).count fun c =>
      { c with dropOpenQueue := c.dropOpenQueue + f.queued.length }
  else if f.queued = [] then s.setState p { f.takeQueue with phase := .pumping } .opened
  else s.setFlow p { f.takeQueue with phase := .flushing f.queued ended }

/-- One datagram of the flush. -/
def flowFlushOne (s : PortForward) (p : Nat) (f : Flow) (d : Dgram) (batch : List Dgram)
    (ended aged : Bool) (w : Written) : PortForward :=
  let f' := { f with phase := .flushing batch ended }
  if f.maxPayload < d.len then
    (s.setFlow p f').count fun c => { c with tooLarge := c.tooLarge + 1 }
  else if ended then
    (s.setFlow p f').count fun c => { c with dropOpenQueue := c.dropOpenQueue + 1 }
  else if aged then
    (s.setFlow p f').count fun c => { c with dropOpenAge := c.dropOpenAge + 1 }
  else
    match w with
    | .ok =>
      (s.setFlow p { f' with wrote := f.wrote ++ [d.n] }).count fun c =>
        { c with toSession := c.toSession + 1 }
    | .tooLarge => (s.setFlow p f').count fun c => { c with tooLarge := c.tooLarge + 1 }
    | .failed _ =>
      (s.setFlow p { f' with phase := .flushing batch true }).count fun c =>
        { c with dropOpenQueue := c.dropOpenQueue + 1 }

/-- The section of `end`. -/
def flowEnds (s : PortForward) (p : Nat) (f : Flow) (early : Bool) : PortForward :=
  if f.gone then s.setFlow p { f with phase := .finished }
  else if f.state = .held then s.setFlow p { f with phase := .holding }
  else if !s.isStopped f.serve && early then s.setState p { f with phase := .holding } .held
  else
    { s.remove p { f with phase := .finished } with
      flows := s.flows - 1, released := p :: s.released }

/-- The section of `hold`. -/
def flowUnhold (s : PortForward) (p : Nat) (f : Flow) : PortForward :=
  if f.gone then s.setFlow p { f with phase := .finished }
  else s.remove p { f with phase := .owing false }

/-- The flow's record, and the serve's. -/
def onFlow (s : PortForward) (p : Nat) (g : Flow → PortForward) : PortForward :=
  match s.made[p]? with
  | none => s
  | some f => g f

def onServe (s : PortForward) (i : Nat) (g : Serve → PortForward) : PortForward :=
  match s.serves[i]? with
  | none => s
  | some v => g v

/-- Whether a goroutine of the serve still runs. -/
def running (s : PortForward) (i : Nat) : Bool :=
  s.made.any fun f => f.serve == i && f.phase != .finished

/-- One step; `bare` is the length of the metadata of each serve. -/
def step (max : Int) (bare : Nat → Nat) (s : PortForward) : Ev → PortForward
  | .serve => { s with serves := s.serves ++ [⟨.idle, false, false, false, [], []⟩] }
  | .recv i src len pick =>
    -- the reader looks at the context before it hands a datagram over, so one may follow the halt
    s.onServe i fun v =>
      if v.reader = .idle then
        { s with next := s.next + 1 }.datagram max (bare i) i v src ⟨s.next, len⟩ pick
      else s
  | .wrote i w pick =>
    s.onServe i fun v =>
      match v.reader with
      | .writing p d src => s.readerWrote max (bare i) i v p d src w pick
      | _ => s
  | .readerReleases i =>
    s.onServe i fun v =>
      match v.reader with
      | .owing p =>
        { s.setServe i { v with reader := .idle } with
          flows := s.flows - 1, released := p.toList ++ s.released }
      | _ => s
  | .halt i => s.haltServe i
  | .readerExits i =>
    s.onServe i fun v =>
      if v.reader = .idle ∧ v.ctx = true then s.setServe i { v with reader := .exited } else s
  | .shutdown i =>
    s.onServe i fun v =>
      if v.reader = .exited then s.setServe i { v with stopped := true } else s
  | .returns i =>
    s.onServe i fun v =>
      if v.stopped && !s.running i then s.setServe i { v with returned := true } else s
  | .opened p maxPayload rode =>
    s.onFlow p fun f => if f.phase = .dialing then s.flowOpened p f maxPayload rode else s
  | .openFailed p closed stopping =>
    s.onFlow p fun f =>
      if f.phase = .dialing then
        let s := if closed then s.haltServe f.serve else s
        if stopping && !s.isHalted f.serve then s else s.flowOpenFailed p f stopping
      else s
  | .flush p =>
    s.onFlow p fun f =>
      match f.phase with
      | .flushing [] ended => s.flowFlush p f ended
      | _ => s
  | .flushOne p aged w =>
    s.onFlow p fun f =>
      match f.phase with
      | .flushing (d :: batch) ended => s.flowFlushOne p f d batch ended aged w
      | _ => s
  | .endFlow p early =>
    s.onFlow p fun f =>
      if f.phase = .pumping ∨ f.phase = .stopping then s.flowEnds p f early else s
  | .unhold p =>
    s.onFlow p fun f => if f.phase = .holding then s.flowUnhold p f else s
  | .flowReleases p =>
    s.onFlow p fun f =>
      match f.phase with
      | .owing hold =>
        { s.setFlow p { f with phase := if hold then .holding else .finished } with
          flows := s.flows - 1, released := p :: s.released }
      | _ => s

/-- `maxFlows`: MaxFlows with its default, DefaultMaxFlows. -/
def maxFlows (m : Int) : Int := if m ≤ 0 then 4096 else m

/-- A new PortForward. -/
def new : PortForward where
  flows := 0
  gauge := fun _ => 0
  c := ⟨0, 0, 0, 0, 0, 0, 0⟩
  made := []
  idx := fun _ => 0
  serves := []
  next := 0
  closed := []
  released := []
  handed := []

end PortForward

end Rendr.L4

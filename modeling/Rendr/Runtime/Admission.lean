import Mathlib.Tactic
import Rendr.Lib.Run

/-!
# Admission of sessions

The Runtime's session table (`tables.go`), the path of an OPEN through it (`admitOpen`) and the
Listener's backlog (`listener.go`). A step is one lock section or one atomic operation: an OPEN's
admission takes a MaxSessions unit, takes a backlog slot, inserts its session, binds the slot,
starts the session and queues it in steps of their own, and gives back what it took in steps of
their own; lookups, ends, prunes, Accepts and other admissions come in between.

An admission is a token that the steps move from list to list, so where a token is says what it
holds. A map is the list of its entries; the key of a live entry is that of no tombstone. Sessions
are numbers, given out in order.
-/

namespace Rendr.Admission

/-- The key of a session: the dialer's instance and the SID, or the SID of an own dialer session. -/
structure Key where
  inst : Nat
  sid : Nat
  dialer : Bool
  deriving DecidableEq, Repr

def dialerKey (sid : Nat) : Key := ⟨0, sid, true⟩

/-- The categories of a live session. -/
inductive Category
  | none
  | opened
  | pending
  | lingering
  | orphaned
  deriving DecidableEq, Repr

/-- A live entry; `id` is its generation. -/
structure Entry where
  id : Nat
  key : Key
  ttl : Nat
  sess : Nat
  /-- A session is set: false only for a dialer placeholder. -/
  attached : Bool
  pending : Bool
  lingering : Bool
  orphaned : Bool
  deriving DecidableEq, Repr

def Entry.category (e : Entry) : Category :=
  if !e.attached then .none
  else if e.pending then .pending
  else if e.lingering then .lingering
  else if e.orphaned then .orphaned
  else .opened

/-- A tombstone. -/
structure Tomb where
  id : Nat
  key : Key
  expiry : Nat
  deriving DecidableEq, Repr

/-! ### The tombstone index -/

/-- The index: the list by insertion and the heap by expiry. -/
structure Index where
  list : List Tomb
  heap : List Tomb
  n : Nat
  deriving DecidableEq, Repr

/-- The top of the heap. -/
def heapMin : List Tomb → Option Tomb
  | [] => none
  | t :: ts =>
    match heapMin ts with
    | none => some t
    | some m => some (if m.expiry < t.expiry then m else t)

/-- `removeLocked`. -/
def Index.remove (x : Index) (t : Tomb) : Index :=
  { list := x.list.erase t, heap := x.heap.erase t, n := x.n - 1 }

/-- The loop of `pruneLocked`, with the victims. -/
def Index.pruneLoop (now : Nat) : Nat → Index → List Tomb → Index × List Tomb
  | 0, x, vs => (x, vs)
  | fuel + 1, x, vs =>
    match heapMin x.heap with
    | none => (x, vs)
    | some t => if t.expiry ≤ now then pruneLoop now fuel (x.remove t) (vs ++ [t]) else (x, vs)

/-- `prune`. -/
def Index.prune (x : Index) (now : Nat) : Index × List Tomb := x.pruneLoop now x.heap.length []

/-- The loop of `push` that evicts the oldest beyond the limit. -/
def Index.evictLoop (limit : Nat) : Nat → Index → List Tomb → Index × List Tomb
  | 0, x, vs => (x, vs)
  | fuel + 1, x, vs =>
    match x.list with
    | [] => (x, vs)
    | t :: _ => if limit < x.n then evictLoop limit fuel (x.remove t) (vs ++ [t]) else (x, vs)

/-- `push`. -/
def Index.push (x : Index) (limit now : Nat) (t : Tomb) : Index × List Tomb :=
  let (x, vs) := x.prune now
  let x : Index := { list := x.list ++ [t], heap := t :: x.heap, n := x.n + 1 }
  x.evictLoop limit x.list.length vs

/-! ### The Listener -/

/-- A session that holds a backlog slot. -/
structure Item where
  s : Nat
  kind : Bool
  queued : Bool
  deriving DecidableEq, Repr

/-- The backlog of one session kind; `list` is what Accept takes from. -/
structure Queue where
  n : Int
  reserved : Int
  list : List Nat
  deriving DecidableEq, Repr

structure Listener where
  closed : Bool
  q : Bool → Queue
  pending : List Item

/-! ### The state -/

/-- An OPEN being admitted. -/
structure Run where
  ln : Nat
  kind : Bool
  key : Key
  ttl : Nat
  deriving DecidableEq, Repr

structure Config where
  maxSessions : Nat
  /-- `AcceptBacklog` of each Listener. -/
  backlog : Nat → Nat

/-- `maxUnits`. -/
def Config.maxUnits (cfg : Config) : Nat := max cfg.maxSessions 1

/-- The limit of the tombstone index. -/
def Config.limit (cfg : Config) : Nat := min (2 * cfg.maxUnits) (2 ^ 63 - 1)

/-- The Runtime's admission state. -/
structure State where
  units : Int
  cnt : Category → Int
  live : List Entry
  /-- The tombstones of the shards. -/
  tombs : List Tomb
  index : Index
  /-- Tombstones to index next, and tombstones the index gave up. -/
  pushing : List Tomb
  dropping : List Tomb
  ln : Nat → Listener
  nextId : Nat
  nextSess : Nat
  /-- Dials that hold a unit and place their entry next. -/
  placing : List Nat
  /-- Admissions with a unit; with a unit to give back; with a unit and a slot; with both to give
  back; with the unit left to give back. -/
  unitHeld : List Run
  refused : List Run
  bothHeld : List Run
  lostBoth : List Run
  lostUnit : List Run
  /-- Admissions that inserted a session and bind it next, and that queue it next. -/
  inserted : List (Run × Nat)
  started : List (Run × Nat)

/-- How a Registry call changes an entry. -/
inductive Change
  | opened
  | lingering (on : Bool)
  | orphaned (on : Bool)
  deriving DecidableEq, Repr

def Change.apply : Change → Entry → Entry
  | .opened, e => { e with pending := false }
  | .lingering on, e => { e with lingering := on }
  | .orphaned on, e => { e with orphaned := on }

inductive Ev
  | lookup (k : Key) (now : Nat)
  /-- The steps of an admission. -/
  | reserve (r : Run)
  | slot (r : Run)
  | giveUnit (r : Run)
  | insert (r : Run) (now : Nat)
  | giveSlot (r : Run)
  | bind (r : Run) (s : Nat)
  | enqueue (r : Run) (s : Nat)
  /-- Backlog slots: a Registry call frees one, Accept takes the oldest, the Listener closes. -/
  | leavePending (ln s : Nat)
  | next (ln : Nat) (kind : Bool)
  | close (ln : Nat)
  /-- The steps of a Dial. -/
  | placeReserve (sid : Nat)
  | placeInsert (sid : Nat)
  | attach (sid s : Nat)
  /-- Registry calls, and the index. -/
  | update (k : Key) (s : Nat) (c : Change)
  | ended (k : Key) (s now : Nat)
  | push (t : Tomb) (now : Nat)
  | prune (now : Nat)
  | drop (t : Tomb)
  deriving DecidableEq, Repr

/-- A category's counter moves by `d`. -/
def addCnt (cnt : Category → Int) (c : Category) (d : Int) : Category → Int :=
  if c = .none then cnt else Function.update cnt c (cnt c + d)

/-- `move`. -/
def moveCnt (cnt : Category → Int) (old cur : Category) : Category → Int :=
  if old = cur then cnt else addCnt (addCnt cnt old (-1)) cur 1

namespace State

/-- The live entry of a key. -/
def liveAt (s : State) (k : Key) : Option Entry := s.live.find? fun e => e.key = k

def tombAt (s : State) (k : Key) : Option Tomb := s.tombs.find? fun t => t.key = k

/-- `getLocked`: the tombstones afterwards, without an expired one of the key, and whether the key
is found. -/
def get (s : State) (k : Key) (now : Nat) : List Tomb × Bool :=
  match s.liveAt k with
  | some _ => (s.tombs, true)
  | none =>
    match s.tombAt k with
    | none => (s.tombs, false)
    | some t => if now < t.expiry then (s.tombs, true) else (s.tombs.erase t, false)

/-- A live entry is replaced. -/
def replace (s : State) (e e' : Entry) : State :=
  { s with live := e' :: s.live.erase e, cnt := moveCnt s.cnt e.category e'.category }

/-- A new live entry, which consumes a unit. -/
def addEntry (s : State) (e : Entry) : State :=
  { s with live := e :: s.live, nextId := s.nextId + 1, cnt := addCnt s.cnt e.category 1 }

/-- A live entry leaves, with its unit. -/
def removeEntry (s : State) (e : Entry) : State :=
  { s with
    live := s.live.erase e
    units := s.units - 1
    cnt := moveCnt s.cnt e.category .none }

/-- A Listener changes. -/
def updLn (s : State) (l : Nat) (f : Listener → Listener) : State :=
  { s with ln := Function.update s.ln l (f (s.ln l)) }

end State

/-- A queue changes. -/
def Listener.updQ (ln : Listener) (k : Bool) (f : Queue → Queue) : Listener :=
  { ln with q := Function.update ln.q k (f (ln.q k)) }

/-- `unlinkLocked`: a session leaves the accept list. -/
def Listener.unlink (ln : Listener) (it : Item) : Listener :=
  { ln.updQ it.kind fun q => { q with list := q.list.erase it.s } with
    pending := { it with queued := false } :: ln.pending.erase it }

namespace State

variable (cfg : Config)

/-- One step. -/
def step (s : State) : Ev → State
  | .lookup k now => { s with tombs := (s.get k now).1 }
  | .reserve r =>
    if (cfg.maxUnits : Int) ≤ s.units then s
    else { s with units := s.units + 1, unitHeld := r :: s.unitHeld }
  | .slot r =>
    if r ∈ s.unitHeld then
      let s : State := { s with unitHeld := s.unitHeld.erase r }
      let ln := s.ln r.ln
      if ln.closed ∨ (cfg.backlog r.ln : Int) ≤ (ln.q r.kind).n + (ln.q r.kind).reserved then
        { s with refused := r :: s.refused }
      else
        { s with bothHeld := r :: s.bothHeld }.updLn r.ln
          (·.updQ r.kind fun q => { q with reserved := q.reserved + 1 })
    else s
  | .giveUnit r =>
    if r ∈ s.refused then { s with refused := s.refused.erase r, units := s.units - 1 }
    else if r ∈ s.lostUnit then { s with lostUnit := s.lostUnit.erase r, units := s.units - 1 }
    else s
  | .insert r now =>
    if r ∈ s.bothHeld then
      -- the session is made before the insert, and dropped when it loses
      let n := s.nextSess
      let t : State :=
        { s with bothHeld := s.bothHeld.erase r, tombs := (s.get r.key now).1, nextSess := n + 1 }
      if (s.get r.key now).2 then { t with lostBoth := r :: t.lostBoth }
      else { t with inserted := (r, n) :: t.inserted }.addEntry
        ⟨s.nextId, r.key, r.ttl, n, true, !r.key.dialer, false, false⟩
    else s
  | .giveSlot r =>
    if r ∈ s.lostBoth then
      { s with lostBoth := s.lostBoth.erase r, lostUnit := r :: s.lostUnit }.updLn r.ln
        (·.updQ r.kind fun q => { q with reserved := q.reserved - 1 })
    else s
  | .bind r x =>
    if (r, x) ∈ s.inserted then
      { s with inserted := s.inserted.erase (r, x), started := (r, x) :: s.started }.updLn r.ln
        fun ln => { ln.updQ r.kind fun q => { q with reserved := q.reserved - 1, n := q.n + 1 } with
          pending := ⟨x, r.kind, false⟩ :: ln.pending }
    else s
  | .enqueue r x =>
    if (r, x) ∈ s.started then
      let s : State := { s with started := s.started.erase (r, x) }
      match (s.ln r.ln).pending.find? fun it => it.s = x with
      | none => s
      | some it =>
        if it.queued ∨ (s.ln r.ln).closed then s
        else s.updLn r.ln fun ln =>
          { ln.updQ it.kind fun q => { q with list := q.list ++ [x] } with
            pending := { it with queued := true } :: ln.pending.erase it }
    else s
  | .leavePending l x =>
    match (s.ln l).pending.find? fun it => it.s = x with
    | none => s
    | some it => s.updLn l fun ln =>
      let ln := if it.queued then ln.unlink it else ln
      { ln.updQ it.kind fun q => { q with n := q.n - 1 } with
        pending := ln.pending.erase { it with queued := false } }
  | .next l k =>
    if (s.ln l).closed then s
    else
      match ((s.ln l).q k).list with
      | [] => s
      | x :: _ =>
        match (s.ln l).pending.find? fun it => it.s = x with
        | none => s
        | some it => s.updLn l (·.unlink it)
  | .close l => s.updLn l fun ln => { ln with closed := true }
  | .placeReserve sid =>
    if (cfg.maxUnits : Int) ≤ s.units then s
    else { s with units := s.units + 1, placing := sid :: s.placing }
  | .placeInsert sid =>
    if sid ∈ s.placing then
      let s : State := { s with placing := s.placing.erase sid }
      if (s.liveAt (dialerKey sid)).isSome ∨ (s.tombAt (dialerKey sid)).isSome then
        { s with units := s.units - 1 }
      else s.addEntry ⟨s.nextId, dialerKey sid, 0, 0, false, false, false, false⟩
    else s
  | .attach sid x =>
    match s.liveAt (dialerKey sid) with
    | none => s
    | some e => if e.attached then s else s.replace e { e with sess := x, attached := true }
  | .update k x c =>
    match s.liveAt k with
    | none => s
    | some e => if e.attached ∧ e.sess = x then s.replace e (c.apply e) else s
  | .ended k x now =>
    match s.liveAt k with
    | none => s
    | some e =>
      if e.attached ∧ e.sess ≠ x then s
      else if k.dialer ∨ e.ttl = 0 then s.removeEntry e
      else
        let t : Tomb := ⟨e.id, k, now + e.ttl⟩
        let s := s.removeEntry e
        { s with tombs := t :: s.tombs, pushing := t :: s.pushing }
  | .push t now =>
    if t ∈ s.pushing then
      let (x, vs) := s.index.push cfg.limit now t
      { s with pushing := s.pushing.erase t, index := x, dropping := vs ++ s.dropping }
    else s
  | .prune now =>
    let (x, vs) := s.index.prune now
    { s with index := x, dropping := vs ++ s.dropping }
  | .drop t =>
    if t ∈ s.dropping then
      { s with dropping := s.dropping.erase t, tombs := s.tombs.filter fun x => x.id ≠ t.id }
    else s

/-- An empty Runtime. -/
def start : State where
  units := 0
  cnt _ := 0
  live := []
  tombs := []
  index := ⟨[], [], 0⟩
  pushing := []
  dropping := []
  ln _ := ⟨false, fun _ => ⟨0, 0, []⟩, []⟩
  nextId := 0
  nextSess := 1
  placing := []
  unitHeld := []
  refused := []
  bothHeld := []
  lostBoth := []
  lostUnit := []
  inserted := []
  started := []

end State

end Rendr.Admission

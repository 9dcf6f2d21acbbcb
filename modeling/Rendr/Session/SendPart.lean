import Rendr.Lib.Trace
import Rendr.Session.Pull
import Rendr.Session.Step

/-!
# The send side and its moves

What the invariants of the send side read of a session (`SendPart`), and the elementary moves every
critical section of a session is made of: a round is reserved or committed, the front advances, a
lane is created, routed, leaves or is removed, the early span gets its verdict, a frame is placed.
A move has a guard, the facts the code has checked when it makes it, and may emit frames.

`Sends` are the sequences of moves with the frames they emit. The functions of a session are
described by such sequences once, in `SendStep`; every invariant of the send side is then a matter
of the moves.
-/

namespace Rendr

/-- What the send side's invariants read of a lane. -/
structure SendLane where
  born : Bool
  data : Bool
  dead : Bool
  infl : SpanList
  rnext : Nat
  lastAck : Nat
  first : Option First
  early : Bool

def Lane.send (ln : Lane) : SendLane :=
  ⟨ln.born, ln.data, decide (ln.state = .dead), ln.infl, ln.rnext, ln.lastAck, ln.first, ln.early⟩

/-- What the send side's invariants read of a session. -/
@[ext] structure SendPart where
  sBase : Nat
  sNext : Nat
  endOff : Nat
  resEnd : Nat
  peerLimit : Nat
  retx : SpanList
  rescue : RescueSlot
  rescuedBase : Option Nat
  interleaved : Bool
  finReq : Bool
  finOff : Nat
  wround : Option (List Byte)
  buf : Nat → Byte
  order : List LaneId
  active : Option LaneId
  phase : Phase
  early : Option Nat
  openWin : Nat
  earlyOpen : Bool
  adopting : List (LaneId × AdoptKind)
  lanes : LaneId → SendLane

namespace Session

def sendPart (s : Session) : SendPart where
  sBase := s.tx.sBase
  sNext := s.tx.sNext
  endOff := s.tx.endOff
  resEnd := s.tx.resEnd
  peerLimit := s.tx.peerLimit
  retx := s.tx.retx
  rescue := s.tx.rescue
  rescuedBase := s.rescuedBase
  interleaved := s.tx.interleaved
  finReq := s.tx.fin.requested
  finOff := s.tx.fin.off
  wround := s.tx.wround
  buf := s.tx.buf
  order := s.order
  active := s.active
  phase := s.phase
  early := s.early
  openWin := s.openWin
  earlyOpen := s.earlyOpen
  adopting := s.adopting
  lanes := fun l => (s.lanes l).send

end Session

namespace SendPart

/-- Change one lane of the send part. -/
def setLane (v : SendPart) (l : LaneId) (ln : SendLane) : SendPart :=
  { v with lanes := fun i => if i = l then ln else v.lanes i }

variable (v : SendPart)

@[simp] lemma setLane_self (l : LaneId) (ln : SendLane) :
    (v.setLane l ln).lanes l = ln := if_pos rfl

lemma setLane_ne {l i : LaneId} (ln : SendLane) (h : i ≠ l) :
    (v.setLane l ln).lanes i = v.lanes i := if_neg h

lemma setLane_setLane (l : LaneId) (a b : SendLane) :
    (v.setLane l a).setLane l b = v.setLane l b := by
  unfold setLane
  congr 1
  funext i
  by_cases hi : i = l <;> simp [hi]

lemma setLane_eq (l : LaneId) : v.setLane l (v.lanes l) = v := by
  unfold setLane
  have : (fun i => if i = l then v.lanes l else v.lanes i) = v.lanes := by
    funext i
    by_cases hi : i = l <;> simp [hi]
  rw [this]

/-- Another data lane exists. -/
def Other (v : SendPart) (l : LaneId) : Prop := ∃ o ∈ v.order, o ≠ l ∧ (v.lanes o).data = true

/-- The stream bytes `[off, off + n)`. -/
def bytesAt (v : SendPart) (off n : Nat) : List Byte := (List.range n).map fun i => v.buf (off + i)

end SendPart

namespace Session

lemma setLane_sendPart_eq (s : Session) (l : LaneId) (f : Lane → Lane) :
    (s.setLane l f).sendPart = s.sendPart.setLane l (f (s.lanes l)).send := by
  unfold Session.sendPart Session.setLane SendPart.setLane
  congr 1
  funext i
  by_cases h : i = l <;> simp [h]

lemma setLane_sendPart (s : Session) (l : LaneId) {f : Lane → Lane}
    (hf : ∀ ln, (f ln).send = ln.send) : (s.setLane l f).sendPart = s.sendPart := by
  rw [setLane_sendPart_eq, hf]
  exact s.sendPart.setLane_eq l

end Session

/-- A session that has no lanes yet: a passive before its first OPEN, a dialer before its
verdict. -/
def Params.Unborn (p : Params) (ph : Phase) : Prop :=
  ph = .absent ∨ (p.role = .dialer ∧ ph = .pending)

/-- An elementary move of the send side. -/
inductive Mv
  /-- a Write reserves a round -/
  | reserve (bs : List Byte)
  /-- the round's copy is done -/
  | commit
  /-- the round is dropped after the end -/
  | drop
  /-- our FIN is requested -/
  | request
  /-- the early span is fixed -/
  | span (k : Nat)
  | phase (ph : Phase)
  | adopting (ad : List (LaneId × AdoptKind))
  | openWin (w : Nat)
  /-- the peer advertises a right edge -/
  | limit (n : Nat)
  /-- the front advances -/
  | advance (front : Nat)
  | lastAck (l : LaneId) (d : Nat)
  /-- a first response waits on the lane -/
  | first (l : LaneId) (fr : First)
  /-- a lane's record is created and attached; `early` if its OPEN announced early data -/
  | attach (l : LaneId) (early : Bool)
  | reorder (o : List LaneId)
  /-- an attached lane becomes a data lane -/
  | route (l : LaneId)
  /-- an attached lane becomes the selector's data lane -/
  | activate (l : LaneId)
  /-- the selector has no data lane -/
  | idle
  /-- a lane leaves the data set and its spans are requeued -/
  | leave (l : LaneId) (dead : Bool) (active : Option LaneId) (retx : SpanList)
  /-- a lane that left is removed -/
  | detach (l : LaneId)
  /-- a race lane's cursor is set to the front -/
  | cursor (l : LaneId)
  /-- a race lane's cursor is raised to the front -/
  | lift (l : LaneId)
  /-- a rescue of the stuck head that `l` holds is set -/
  | rescue (l : LaneId) (sp : Span)
  /-- the rescue duplicate is out; `own` if its holder sent it -/
  | rescueDone (own : Option LaneId)
  /-- the verdict on the early span: `kw` bytes of it are in flight on the winner -/
  | verdict (l : LaneId) (kw : Nat)
  /-- nothing is unacknowledged: the interleaving is over -/
  | settle
  | interleave
  /-- `k` bytes of the rescue duplicate -/
  | again (l : LaneId) (k : Nat)
  /-- `k` bytes from the head of the queue -/
  | replay (l : LaneId) (k : Nat)
  /-- `k` new bytes, with nothing queued if `clear` -/
  | fresh (l : LaneId) (k : Nat) (clear : Bool)
  /-- `k` bytes at a race lane's cursor -/
  | race (l : LaneId) (k : Nat)
  /-- a race cursor passes queued bytes -/
  | trim (x : Nat)
  | finOut (l : LaneId)
  | ackOut (finDelivered done : Bool) (delivered window : Nat)
  | firstOut (l : LaneId) (fr : First)
  | schedOut
  /-- the session ends: nothing is queued and no lane carries data any more -/
  | finish

/-- The frame of a first response. -/
def First.frame : First → Frame
  | .openAck w => .openAck w
  | .joinAck rx => .joinAck rx

namespace Mv

/-- A data lane puts `[off, off + k)` in flight. -/
def place (v : SendPart) (l : LaneId) (off k : Nat) : SendPart :=
  v.setLane l { v.lanes l with infl := (v.lanes l).infl.add off k }

/-- The head of the retransmission queue. -/
def head (v : SendPart) : Span := v.retx.s.headD ⟨0, 0⟩

/-- What a move changes. -/
def apply (p : Params) (v : SendPart) : Mv → SendPart
  | reserve bs => { v with resEnd := v.resEnd + bs.length, wround := some bs }
  | commit =>
    { v with
      wround := none
      buf := Session.putBytes v.buf v.endOff (v.wround.getD [])
      endOff := v.endOff + (v.wround.getD []).length }
  | drop => { v with wround := none }
  | request => { v with finReq := true, finOff := v.resEnd }
  | span k => { v with early := some k }
  | phase ph => { v with phase := ph }
  | adopting ad => { v with adopting := ad }
  | openWin w => { v with openWin := w }
  | limit n => { v with peerLimit := max v.peerLimit n }
  | advance front =>
    { v with
      sBase := front
      retx := v.retx.trimBelow front
      rescue := Session.advanceRescue front v.rescue
      lanes := fun i =>
        if i ∈ v.order then { v.lanes i with infl := (v.lanes i).infl.trimBelow front }
        else v.lanes i }
  | lastAck l d => v.setLane l { v.lanes l with lastAck := d }
  | first l fr => v.setLane l { v.lanes l with first := some fr }
  | attach l early =>
    { v.setLane l { (Lane.new true .member).send with early := early } with
      earlyOpen := v.earlyOpen || early
      order := if l ∈ v.order then v.order else v.order ++ [l] }
  | reorder o => { v with order := o }
  | route l => v.setLane l { v.lanes l with data := true, dead := false }
  | activate l =>
    { v.setLane l { v.lanes l with data := true, dead := false } with active := some l }
  | idle => { v with active := none }
  | leave l dead a retx =>
    { v.setLane l
        { v.lanes l with
          data := false, dead := dead, infl := .empty
          rnext := if p.mode = .race then v.sBase else (v.lanes l).rnext } with
      active := a
      retx := retx }
  | detach l =>
    { v with
      order := v.order.erase l
      rescue := if v.rescue.holder = some l then .none else v.rescue }
  | cursor l => v.setLane l { v.lanes l with rnext := v.sBase }
  | lift l => v.setLane l { v.lanes l with rnext := max (v.lanes l).rnext v.sBase }
  | rescue l sp => { v with rescue := ⟨true, sp, some l⟩, rescuedBase := some v.sBase }
  | rescueDone own =>
    { v with rescue := match own with
        | some l => ⟨false, ⟨0, 0⟩, some l⟩
        | none => .none }
  | verdict l kw =>
    { v.setLane l
        { v.lanes l with
          infl := (v.lanes l).infl.add p.firstOffset kw
          rnext := if p.mode = .race then p.firstOffset + kw else (v.lanes l).rnext } with
      sNext := max v.sNext (p.firstOffset + v.early.getD 0)
      retx :=
        if p.mode ≠ .race ∧ kw < v.early.getD 0 then
          v.retx.add (p.firstOffset + kw) (v.early.getD 0 - kw)
        else v.retx }
  | settle => { v with interleaved := if v.sBase = v.sNext then false else v.interleaved }
  | interleave => { v with interleaved := true }
  | again l k =>
    { place v l v.rescue.sp.off k with
      rescue := { v.rescue with sp := ⟨v.rescue.sp.off + k, v.rescue.sp.n - k⟩ } }
  | replay l k => { place v l (head v).off k with retx := v.retx.takeFront k }
  | fresh l k _ => { place v l v.sNext k with sNext := v.sNext + k }
  | race l k =>
    { v.setLane l
        { v.lanes l with
          infl := (v.lanes l).infl.add (v.lanes l).rnext k
          rnext := (v.lanes l).rnext + k } with
      sNext := max v.sNext ((v.lanes l).rnext + k) }
  | trim x => { v with retx := v.retx.trimBelow x }
  | finOut _ => v
  | ackOut _ _ _ _ => v
  | firstOut l _ => v.setLane l { v.lanes l with first := none }
  | schedOut => v
  | finish =>
    { v with
      active := none
      retx := .empty
      rescue := .none
      lanes := fun i =>
        if i ∈ v.order ∧ (v.lanes i).dead = false then { v.lanes i with data := false }
        else v.lanes i }

/-- What the code has checked, or has at hand, when it makes a move. -/
def Guard (p : Params) (v : SendPart) : Mv → Prop
  | reserve bs => v.wround = none ∧ v.finReq = false ∧ v.resEnd + bs.length < 2 ^ 64 ∧ bs ≠ []
  | commit => v.wround ≠ none
  | drop => True
  | request => v.finReq = false
  | span k => v.early = none ∧ p.role = .dialer ∧ v.phase = .pending ∧
      k ≤ v.endOff - p.firstOffset ∧ k ≤ p.earlyMax ∧
      (k ≠ 0 → p.earlyReturn = true ∧ p.firstOffset = 0)
  | phase ph => ¬ p.Unborn ph ∧ v.phase ≠ .opn
  | adopting ad => v.phase = .absent → ∀ a ∈ ad, a ∈ v.adopting
  | openWin _ => True
  | limit _ => True
  | advance front => v.sBase < front ∧ front ≤ v.sNext
  | lastAck l d => (v.lanes l).lastAck ≤ d
  | first _ _ => True
  | attach l _ => (v.lanes l).born = false ∧ ¬ p.Unborn v.phase
  | reorder o => o.Perm v.order
  | route l => l ∈ v.order
  | activate l => l ∈ v.order
  | idle => True
  | leave l _ a retx => (a = v.active ∨ a = none) ∧
      (∀ x ∈ retx, x ∈ v.retx ∨ x ∈ (v.lanes l).infl ∧ v.sBase ≤ x) ∧
      (p.mode ≠ .race → ∀ x, v.sBase ≤ x → x ∈ v.retx ∨ x ∈ (v.lanes l).infl → x ∈ retx)
  | detach l => (v.lanes l).data = false
  | cursor _ => p.mode = .race
  | lift l => p.mode = .race ∧ (v.lanes l).data = true
  | rescue l sp => p.mode = .bond ∧ v.rescue.set = false ∧ l ∈ v.order ∧ sp.off = v.sBase ∧
      0 < sp.n ∧ ∀ x, sp.off ≤ x → x < sp.endOff → x ∈ (v.lanes l).infl
  | rescueDone own => v.rescue.set = true ∧ v.rescue.sp.n = 0 ∧
      ∀ l ∈ own, v.rescue.holder = some l
  | verdict l kw => (v.lanes l).data = true ∧ v.sBase = p.firstOffset ∧ v.sNext = p.firstOffset ∧
      kw ≤ v.early.getD 0
  | settle => True
  | interleave => p.mode = .bond
  | again l k => (v.lanes l).data = true ∧ v.rescue.set = true ∧ 0 < k ∧ k ≤ p.segment ∧
      k ≤ v.rescue.sp.n ∧ (p.mode = .bond → v.interleaved = true ∨ ¬ v.Other l)
  | replay l k => (v.lanes l).data = true ∧ p.mode ≠ .race ∧ v.retx.s ≠ [] ∧ 0 < k ∧
      k ≤ p.segment ∧ k ≤ (head v).n ∧ (p.mode = .bond → v.interleaved = true ∨ ¬ v.Other l)
  | fresh l k clear => (v.lanes l).data = true ∧ p.mode ≠ .race ∧ 0 < k ∧ k ≤ p.segment ∧
      v.sNext + k ≤ min v.endOff v.peerLimit ∧ (clear = true ↔ v.retx.s = []) ∧
      (p.mode = .bond → v.interleaved = true ∨ ¬ v.Other l)
  | race l k => (v.lanes l).data = true ∧ p.mode = .race ∧ 0 < k ∧ k ≤ p.segment ∧
      v.sBase ≤ (v.lanes l).rnext ∧ (v.lanes l).rnext + k ≤ min v.endOff v.peerLimit
  | trim _ => p.mode = .race
  | finOut l => (v.lanes l).data = true ∧ v.finReq = true ∧
      (p.mode ≠ .race → v.retx.s = [] ∧ v.finOff ≤ v.sNext) ∧
      (p.mode = .race → v.finOff ≤ max (v.lanes l).rnext v.sBase)
  | ackOut _ _ _ _ => True
  | firstOut l fr => (v.lanes l).first = some fr
  | schedOut => p.role = .dialer
  | finish => True

/-- The frames a move places. -/
def out (v : SendPart) : Mv → List Frame
  | again _ k => [.data v.rescue.sp.off (v.bytesAt v.rescue.sp.off k)]
  | replay _ k => [.data (head v).off (v.bytesAt (head v).off k)]
  | fresh _ k _ => [.data v.sNext (v.bytesAt v.sNext k)]
  | race l k => [.data (v.lanes l).rnext (v.bytesAt (v.lanes l).rnext k)]
  | finOut _ => [.fin v.finOff]
  | ackOut fd dn d w => [.ack fd dn d w]
  | firstOut _ fr => [fr.frame]
  | schedOut => [.sched]
  | _ => []

/-- What a move does to the handshake fields of lane `l`, from `b` to `a`. -/
inductive Hands (l : LaneId) (m : Mv) (b a : SendLane) : Prop
  | same (born : a.born = b.born) (first : a.first = b.first) (lastAck : a.lastAck = b.lastAck)
    (early : a.early = b.early)
  | attach (e : Bool) (hm : m = .attach l e)
    (ha : a = { (Lane.new true .member).send with early := e })
  | lastAck (d : Nat) (hm : m = .lastAck l d) (ha : a = { b with lastAck := d })
  | first (fr : First) (hm : m = .first l fr) (ha : a = { b with first := some fr })
  | firstOut (fr : First) (hm : m = .firstOut l fr) (ha : a = { b with first := none })

lemma apply_hands (p : Params) (v : SendPart) (m : Mv) (l : LaneId) :
    Hands l m (v.lanes l) ((m.apply p v).lanes l) := by
  -- one lane changes
  have hset : ∀ {j : LaneId} {ln : SendLane} {m : Mv},
      (l = j → Hands l m (v.lanes l) ln) → Hands l m (v.lanes l) ((v.setLane j ln).lanes l) := by
    intro j ln m h
    by_cases hl : l = j
    · subst hl
      rw [SendPart.setLane_self]
      exact h rfl
    · rw [SendPart.setLane_ne _ _ hl]
      exact .same rfl rfl rfl rfl
  have hkeep : ∀ {j : LaneId} {ln : SendLane} {m : Mv}, ln.born = (v.lanes j).born →
      ln.first = (v.lanes j).first → ln.lastAck = (v.lanes j).lastAck →
      ln.early = (v.lanes j).early → Hands l m (v.lanes l) ((v.setLane j ln).lanes l) :=
    fun h1 h2 h3 h4 => hset fun hl => .same (hl ▸ h1) (hl ▸ h2) (hl ▸ h3) (hl ▸ h4)
  cases m with
  | attach j e => exact hset fun hl => .attach e (hl ▸ rfl) rfl
  | lastAck j d => exact hset fun hl => .lastAck d (hl ▸ rfl) (hl ▸ rfl)
  | first j fr => exact hset fun hl => .first fr (hl ▸ rfl) (hl ▸ rfl)
  | firstOut j fr => exact hset fun hl => .firstOut fr (hl ▸ rfl) (hl ▸ rfl)
  | advance front =>
    show Hands l _ _ (if l ∈ v.order then _ else v.lanes l)
    split <;> exact .same rfl rfl rfl rfl
  | finish =>
    show Hands l _ _ (if l ∈ v.order ∧ _ then _ else v.lanes l)
    split <;> exact .same rfl rfl rfl rfl
  | route j | activate j | leave j d a r | cursor j | lift j | verdict j kw | again j k | replay j k
  | fresh j k c | race j k => exact hkeep rfl rfl rfl rfl
  | _ => exact .same rfl rfl rfl rfl

end Mv

/-- The send side as a machine. -/
def sendMachine (p : Params) : Machine SendPart Mv Frame where
  guard := Mv.Guard p
  apply := Mv.apply p
  out := Mv.out

/-- A sequence of moves from `ok` takes `v` to `v'` and places the frames `fs`. -/
abbrev Sends (p : Params) (ok : Mv → Prop) (v : SendPart) (fs : List Frame) (v' : SendPart) : Prop :=
  (sendMachine p).Steps ok v fs v'

end Rendr

import Mathlib.Tactic
import Rendr.Lib.Run

/-!
# Forwarding a session to a connection

`Forward` (`forward.go`) runs a pump for each direction and the reaper. A step is one call of an
actor on the session, on `local` or on the shared record, with what the call returned as a value of
the event; so the pumps, the session's end, the join timer and the context come in any order. The
hold of pump B's first Read only delays it.

* `Dir` — one direction: what its pump read and what the other side accepted of it.
* `Inv` — the invariant of the two pumps and the reaper.
* `forward_ends` — no failure becomes a clean end, along every run.
-/

namespace Rendr.L4.Forward

open Function List

/-- The size of the pumps' buffers, `maxEmptyReads`. -/
def bufLen : Nat := 32768
def maxEmptyReads : Nat := 100

/-- The error of a call that read. -/
inductive End
  | eof
  | failed
  deriving DecidableEq, Repr

inductive Err
  /-- What the call returned. -/
  | returned
  | badCount
  | noProgress
  | shortWrite
  | noDrain
  | ctx
  deriving DecidableEq, Repr

/-- The recorded cause: `sessErr` or `localErr`. -/
inductive Cause
  | sess (e : Err)
  | loc (e : Err)
  deriving DecidableEq, Repr

/-- The messages of the aborts; the last goes with AbortShutdown, the others with AbortReset. -/
inductive Abort
  | localRead
  | localWrite
  | session
  | cancelled
  deriving DecidableEq, Repr

/-- What an actor has still to do after a failure: `fail`, `Abort`, `closeLocal`, `resetConn`. -/
inductive Todo
  | record (c : Cause) (m : Option Abort)
  | abort (m : Abort)
  | close
  | reset
  deriving DecidableEq, Repr

inductive PC
  | reading (empty : Nat)
  | writing (rest : List UInt8) (e : Option End)
  /-- Before CloseWrite. -/
  | closing
  | failing (t : Todo)
  /-- Before the signal on `done`. -/
  | signal
  | finished
  deriving DecidableEq, Repr

/-- One direction: the bytes read and accepted, `toSession` or `toLocal`, whether the EOF was read,
the calls of CloseWrite, and `eofA` or `eofB`. -/
structure Dir where
  pc : PC
  read : List UInt8
  sent : List UInt8
  moved : Int
  eof : Bool
  cw : Nat
  fin : Bool
  deriving DecidableEq, Repr

def failLocal (m : Abort) (e : Err) : PC := .failing (.record (.loc e) (some m))

def failSession (e : Err) : PC := .failing (.record (.sess e) (some .session))

/-- After the bytes of a Read: its error decides. -/
def next (fail : PC) : Option End → PC
  | none => .reading 0
  | some .eof => .closing
  | some .failed => fail

namespace Dir

/-- The bytes of a Read and its error. -/
def got (d : Dir) (bs : List UInt8) (e : Option End) (fail : PC) : Dir :=
  { d with
    read := d.read ++ bs
    eof := e == some .eof
    pc := if bs = [] then next fail e else .writing bs e }

/-- `pumpA`: local.Read returned. -/
def readA (d : Dir) (empty : Nat) (n : Int) (buf : List UInt8) (e : Option End) : Dir :=
  if n < 0 ∨ (bufLen : Int) < n then { d with pc := failLocal .localRead .badCount }
  else if n = 0 ∧ e = none then
    if maxEmptyReads ≤ empty + 1 then { d with pc := failLocal .localRead .noProgress }
    else { d with pc := .reading (empty + 1) }
  else d.got (buf.take n.toNat) e (failLocal .localRead .returned)

/-- `pumpA`: c.Write returned. -/
def writeA (d : Dir) (bs : List UInt8) (e : Option End) (w : Nat) (err : Bool) : Dir :=
  { d with
    sent := d.sent ++ bs.take w
    moved := d.moved + w
    pc :=
      if err then failSession .returned
      else if w ≠ bs.length then failSession .shortWrite
      else next (failLocal .localRead .returned) e }

/-- `pumpA`: c.CloseWrite returned. -/
def closeWriteA (d : Dir) (err : Bool) : Dir :=
  if err then { d with cw := d.cw + 1, pc := failSession .returned }
  else { d with cw := d.cw + 1, fin := true, pc := .signal }

/-- `pumpB`: c.Read returned. -/
def readB (d : Dir) (n : Nat) (buf : List UInt8) (e : Option End) : Dir :=
  d.got (buf.take n) e (failSession .returned)

/-- `writeFull` in `pumpB`: local.Write returned. -/
def writeB (d : Dir) (p : List UInt8) (e : Option End) (k : Int) (err : Bool) : Dir :=
  if k < 0 ∨ (p.length : Int) < k then { d with pc := failLocal .localWrite .badCount }
  else
    { d with
      sent := d.sent ++ p.take k.toNat
      moved := d.moved + k
      pc :=
        if err then failLocal .localWrite .returned
        else if k = 0 then failLocal .localWrite .shortWrite
        else if p.drop k.toNat = [] then next (failSession .returned) e
        else .writing (p.drop k.toNat) e }

/-- `pumpB` at the session's EOF: local.CloseWrite where it is offered. -/
def closeWriteB (offered : Bool) (d : Dir) (err : Bool) : Dir :=
  if offered then
    if err then { d with cw := d.cw + 1, pc := failLocal .localWrite .returned }
    else { d with cw := d.cw + 1, fin := true, pc := .signal }
  else { d with fin := true, pc := .signal }

end Dir

/-- The channels `reap` still selects on. -/
structure Chans where
  ended : Bool
  join : Bool
  cancelled : Bool
  deriving DecidableEq, Repr

inductive Reaper
  | select (pending : Nat) (ch : Chans)
  | acting (t : Todo) (pending : Nat) (ch : Chans)
  /-- After the loop: the last Abort, Close, `closeLocal`, and the close of local. -/
  | abort
  | close (clean : Bool)
  | last (clean : Bool)
  | closing (clean : Bool)
  | returned
  deriving DecidableEq, Repr

/-- `local → session` and `session → local`. -/
inductive Side
  | a
  | b
  deriving DecidableEq, Repr

/-- `forwarder`, with the closes of local (`true`: a reset), the aborts of the session, and at its
Close whether it was aborted. -/
structure Forwarder where
  dir : Side → Dir
  signals : Nat
  failed : Bool
  cause : Option Cause
  localDone : Bool
  closes : List Bool
  aborts : List Abort
  closed : Option Bool
  reaper : Reaper

inductive Ev
  | readA (n : Int) (buf : List UInt8) (e : Option End)
  | writeA (w : Nat) (err : Bool)
  | closeWriteA (err : Bool)
  | readB (n : Nat) (buf : List UInt8) (e : Option End)
  | writeB (k : Int) (err : Bool)
  | closeWriteB (err : Bool)
  /-- The pump's next step on the shared record. -/
  | pump (x : Side)
  /-- The reaper takes a signal. -/
  | done
  /-- The session ended: with io.EOF, or with another error. -/
  | ended (clean : Bool)
  | join
  | cancelled
  /-- The reaper's next step. -/
  | reap
  deriving DecidableEq, Repr

namespace Forwarder

def setDir (f : Forwarder) (x : Side) (d : Dir) : Forwarder :=
  { f with dir := update f.dir x d }

/-- `result().Clean`. -/
def clean (f : Forwarder) : Bool := !f.failed && (f.dir .a).fin && (f.dir .b).fin

/-- One step of a failure, and what is still to do. -/
def perform (f : Forwarder) : Todo → Forwarder × Option Todo
  | .record c m =>
    (if f.failed then f else { f with failed := true, cause := some c },
      some (m.elim .close .abort))
  | .abort m => ({ f with aborts := f.aborts ++ [m] }, some .close)
  | .close => if f.localDone then (f, none) else ({ f with localDone := true }, some .reset)
  | .reset => ({ f with closes := f.closes ++ [true] }, none)

def pump (f : Forwarder) (x : Side) : Forwarder :=
  match (f.dir x).pc with
  | .failing t =>
    (f.perform t).1.setDir x { f.dir x with pc := (f.perform t).2.elim .signal .failing }
  | .signal => { f.setDir x { f.dir x with pc := .finished } with signals := f.signals + 1 }
  | _ => f

/-- The head of the loop: it ends when both pumps did, and the verdict follows. -/
def loop (f : Forwarder) (pending : Nat) (ch : Chans) : Forwarder :=
  if pending = 0 then { f with reaper := if f.clean then .close true else .abort }
  else { f with reaper := .select pending ch }

/-- The reaper's own steps. -/
def reap (f : Forwarder) : Forwarder :=
  match f.reaper with
  | .select .. => f
  | .acting t n ch =>
    match (f.perform t).2 with
    | none => (f.perform t).1.loop n ch
    | some t' => { (f.perform t).1 with reaper := .acting t' n ch }
  | .abort => { f with aborts := f.aborts ++ [.session], reaper := .close false }
  | .close clean => { f with closed := some (f.aborts ≠ []), reaper := .last clean }
  | .last clean =>
    if f.localDone then { f with reaper := .returned }
    else { f with localDone := true, reaper := .closing clean }
  | .closing clean => { f with closes := f.closes ++ [!clean], reaper := .returned }
  | .returned => f

/-- One step; `offered`: local has CloseWrite. -/
def step (offered : Bool) (f : Forwarder) : Ev → Forwarder
  | .readA n buf e =>
    match (f.dir .a).pc with
    | .reading k =>
      if buf.length = bufLen then f.setDir .a ((f.dir .a).readA k n buf e) else f
    | _ => f
  | .writeA w err =>
    match (f.dir .a).pc with
    | .writing bs e => if w ≤ bs.length then f.setDir .a ((f.dir .a).writeA bs e w err) else f
    | _ => f
  | .closeWriteA err =>
    match (f.dir .a).pc with
    | .closing => f.setDir .a ((f.dir .a).closeWriteA err)
    | _ => f
  | .readB n buf e =>
    match (f.dir .b).pc with
    | .reading _ =>
      if buf.length = bufLen ∧ n ≤ bufLen then f.setDir .b ((f.dir .b).readB n buf e) else f
    | _ => f
  | .writeB k err =>
    match (f.dir .b).pc with
    | .writing p e => f.setDir .b ((f.dir .b).writeB p e k err)
    | _ => f
  | .closeWriteB err =>
    match (f.dir .b).pc with
    | .closing => f.setDir .b ((f.dir .b).closeWriteB offered err)
    | _ => f
  | .pump x => f.pump x
  | .done =>
    match f.reaper with
    | .select n ch =>
      if 0 < f.signals then { f with signals := f.signals - 1 }.loop (n - 1) ch else f
    | _ => f
  | .ended eof =>
    match f.reaper with
    | .select n ch =>
      if ch.ended then
        -- `drain` takes the signals that are there
        if n - f.signals = 0 then { f with signals := 0 }.loop 0 { ch with ended := false }
        else if eof then
          { f with
            signals := 0, reaper := .select (n - f.signals) { ch with ended := false, join := true } }
        else
          { f with
            signals := 0
            reaper := .acting (.record (.sess .returned) none) (n - f.signals)
              { ch with ended := false } }
      else f
    | _ => f
  | .join =>
    match f.reaper with
    | .select n ch =>
      if ch.join then
        { f with reaper := .acting (.record (.loc .noDrain) none) n { ch with join := false } }
      else f
    | _ => f
  | .cancelled =>
    match f.reaper with
    | .select n ch =>
      if ch.cancelled then
        { f with
          reaper := .acting (.record (.sess .ctx) (some .cancelled)) n { ch with cancelled := false } }
      else f
    | _ => f
  | .reap => f.reap

/-- A Forward call begins. -/
def new : Forwarder where
  dir := fun _ => ⟨.reading 0, [], [], 0, false, 0, false⟩
  signals := 0
  failed := false
  cause := none
  localDone := false
  closes := []
  aborts := []
  closed := none
  reaper := .select 2 ⟨true, false, true⟩

end Forwarder

/-! ### One direction -/

/-- **One direction**: what was accepted is what was read up to where the pump is, and CloseWrite
comes once, after the EOF and all bytes before it. -/
structure Dir.Ok (called : Bool) (d : Dir) : Prop where
  accepted : d.sent <+: d.read
  moved : d.moved = d.sent.length
  cw_le : d.cw ≤ 1
  all : d.cw = 1 ∨ d.fin = true → d.eof = true ∧ d.sent = d.read
  fin : d.fin = true → called = true → d.cw = 1
  at_pc : match d.pc with
    | .reading _ => d.sent = d.read ∧ d.cw = 0 ∧ d.fin = false
    | .writing rest e => d.sent ++ rest = d.read ∧ d.cw = 0 ∧ d.fin = false ∧ d.eof = (e == some .eof)
    | .closing => d.sent = d.read ∧ d.cw = 0 ∧ d.fin = false ∧ d.eof = true
    | _ => True

/-- Where a call leaves its pump: it runs on, and a failure is still to be recorded. -/
def PC.Fresh (q : PC) : Prop := q ≠ .finished ∧ ∀ t, q = .failing t → ∃ c m, t = .record c m

lemma PC.Fresh.fail (c : Cause) (m : Option Abort) : PC.Fresh (.failing (.record c m)) :=
  ⟨nofun, fun t ht => by cases ht; exact ⟨c, m, rfl⟩⟩

variable {n : Nat}

namespace Dir.Ok

variable {called : Bool} {d : Dir}

/-- The pump goes to where it only ends. -/
lemma leaves (h : d.Ok called) (c : Cause) (m : Option Abort) :
    Dir.Ok called { d with pc := .failing (.record c m) } ∧ PC.Fresh (.failing (.record c m)) :=
  ⟨{ h with at_pc := trivial }, .fail c m⟩

/-- Before CloseWrite, with a part of the bytes accepted or all of them. -/
lemma early {rest : List UInt8} (hs : d.sent ++ rest = d.read) (hm : d.moved = d.sent.length)
    (hcw : d.cw = 0) (hfin : d.fin = false)
    (hat : match d.pc with
      | .reading _ => d.sent = d.read ∧ d.cw = 0 ∧ d.fin = false
      | .writing rest e =>
        d.sent ++ rest = d.read ∧ d.cw = 0 ∧ d.fin = false ∧ d.eof = (e == some .eof)
      | .closing => d.sent = d.read ∧ d.cw = 0 ∧ d.fin = false ∧ d.eof = true
      | _ => True) : d.Ok called := by
  refine ⟨hs ▸ prefix_append _ _, hm, by omega, fun hc => ?_, fun hf => ?_, hat⟩
  · rcases hc with hc | hc
    · omega
    · rw [hfin] at hc
      cases hc
  · rw [hfin] at hf
    cases hf

variable {e : Option End}

/-- All bytes of the Read were accepted: its error decides. -/
lemma advance {c : Cause} {m : Option Abort} (hs : d.sent = d.read) (hm : d.moved = d.sent.length)
    (hcw : d.cw = 0) (hfin : d.fin = false) (heof : d.eof = (e == some .eof))
    (hpc : d.pc = next (.failing (.record c m)) e) : d.Ok called ∧ d.pc.Fresh := by
  have hs' : d.sent ++ [] = d.read := by rw [append_nil, hs]
  rcases e with _ | _ | _
  · exact ⟨early hs' hm hcw hfin (by rw [hpc]; exact ⟨hs, hcw, hfin⟩),
      by rw [hpc]; exact ⟨nofun, by rintro _ ⟨⟩⟩⟩
  · exact ⟨early hs' hm hcw hfin (by rw [hpc]; exact ⟨hs, hcw, hfin, heof⟩),
      by rw [hpc]; exact ⟨nofun, by rintro _ ⟨⟩⟩⟩
  · exact ⟨early hs' hm hcw hfin (by rw [hpc]; trivial), by rw [hpc]; exact .fail c m⟩

/-- Some bytes of the Read wait, or the pump ends in the middle of them. -/
lemma partly {rest : List UInt8} (hs : d.sent ++ rest = d.read) (hm : d.moved = d.sent.length)
    (hcw : d.cw = 0) (hfin : d.fin = false)
    (hpc : (∃ c m, d.pc = .failing (.record c m)) ∨
      ∃ e, d.pc = .writing rest e ∧ d.eof = (e == some .eof)) : d.Ok called ∧ d.pc.Fresh := by
  rcases hpc with ⟨c, m, hpc⟩ | ⟨e, hpc, heof⟩
  · exact ⟨early hs hm hcw hfin (by rw [hpc]; trivial), by rw [hpc]; exact .fail c m⟩
  · exact ⟨early hs hm hcw hfin (by rw [hpc]; exact ⟨hs, hcw, hfin, heof⟩),
      by rw [hpc]; exact ⟨nofun, by rintro _ ⟨⟩⟩⟩

section

variable (h : d.Ok called)
include h

lemma got {k : Nat} (hpc : d.pc = .reading k) (bs : List UInt8) (e : Option End) (c : Cause)
    (m : Option Abort) : (d.got bs e (.failing (.record c m))).Ok called ∧
      (d.got bs e (.failing (.record c m))).pc.Fresh := by
  have hat := h.at_pc
  rw [hpc] at hat
  obtain ⟨hs, hcw, hfin⟩ := hat
  unfold Dir.got
  split
  next hbs =>
    subst hbs
    exact advance (by simpa using hs) h.moved hcw hfin rfl rfl
  · exact partly (by rw [hs]) h.moved hcw hfin (.inr ⟨e, rfl, rfl⟩)

lemma readA {k : Nat} (hpc : d.pc = .reading k) (n : Int) (buf : List UInt8) (e : Option End) :
    (d.readA k n buf e).Ok called ∧ (d.readA k n buf e).pc.Fresh := by
  unfold Dir.readA
  split
  · exact h.leaves ..
  split
  · split
    · exact h.leaves ..
    · have hat := h.at_pc
      rw [hpc] at hat
      exact ⟨{ h with at_pc := hat }, nofun, by rintro _ ⟨⟩⟩
  · exact h.got hpc _ e _ _

/-- `w` bytes of those that wait were accepted. -/
lemma wrote {p : List UInt8} (hpc : d.pc = .writing p e) {w : Nat} (hw : w ≤ p.length) {v : Int}
    (hv : v = w) {q : PC}
    (hq : (∃ c m, q = .failing (.record c m)) ∨ (p.drop w = [] ∧
      ∃ c m, q = next (.failing (.record c m)) e) ∨ q = .writing (p.drop w) e) :
    Dir.Ok called { d with sent := d.sent ++ p.take w, moved := d.moved + v, pc := q } ∧ q.Fresh := by
  have hat := h.at_pc
  rw [hpc] at hat
  obtain ⟨hs, hcw, hfin, heof⟩ := hat
  have hm : d.moved + v = ((d.sent ++ p.take w).length : Int) := by
    rw [h.moved, length_append, length_take, hv]
    push_cast
    omega
  have hpart : d.sent ++ p.take w ++ p.drop w = d.read := by
    rw [append_assoc, take_append_drop, hs]
  rcases hq with ⟨c, m, rfl⟩ | ⟨hnil, c, m, rfl⟩ | rfl
  · exact partly hpart hm hcw hfin (.inl ⟨c, m, rfl⟩)
  · rw [hnil, append_nil] at hpart
    exact advance hpart hm hcw hfin heof rfl
  · exact partly hpart hm hcw hfin (.inr ⟨e, rfl, heof⟩)

lemma writeA {bs : List UInt8} (hpc : d.pc = .writing bs e) {w : Nat} (hw : w ≤ bs.length)
    (err : Bool) : (d.writeA bs e w err).Ok called ∧ (d.writeA bs e w err).pc.Fresh := by
  refine h.wrote hpc hw rfl ?_
  split
  · exact .inl ⟨_, _, rfl⟩
  split
  · exact .inl ⟨_, _, rfl⟩
  next hne =>
    rw [not_not] at hne
    exact .inr (.inl ⟨drop_eq_nil_of_le (by omega), _, _, rfl⟩)

lemma writeB {p : List UInt8} (hpc : d.pc = .writing p e) (k : Int) (err : Bool) :
    (d.writeB p e k err).Ok called ∧ (d.writeB p e k err).pc.Fresh := by
  unfold Dir.writeB
  split
  · exact h.leaves ..
  refine h.wrote hpc (by omega) (by omega) ?_
  split
  · exact .inl ⟨_, _, rfl⟩
  split
  · exact .inl ⟨_, _, rfl⟩
  · split
    · exact .inr (.inl ⟨by assumption, _, _, rfl⟩)
    · exact .inr (.inr rfl)

/-- CloseWrite is called, or needs no call, after the EOF. -/
lemma shut (hpc : d.pc = .closing) {fin : Bool} {q : PC}
    (hn : n = d.cw + 1 ∨ n = d.cw ∧ called = false)
    (hq : q = .signal ∨ ∃ c m, q = .failing (.record c m)) :
    Dir.Ok called { d with cw := n, fin := fin, pc := q } ∧ q.Fresh := by
  have hat := h.at_pc
  rw [hpc] at hat
  obtain ⟨hs, hcw, hfin, heof⟩ := hat
  refine ⟨⟨h.accepted, h.moved, by dsimp only; omega, fun _ => ⟨heof, hs⟩, fun _ hc => ?_, ?_⟩, ?_⟩
  · rcases hn with hn | ⟨-, hn⟩
    · dsimp only
      omega
    · rw [hn] at hc
      cases hc
  · rcases hq with rfl | ⟨c, m, rfl⟩ <;> trivial
  · rcases hq with rfl | ⟨c, m, rfl⟩
    · exact ⟨nofun, by rintro _ ⟨⟩⟩
    · exact .fail c m

lemma closeWriteA (hpc : d.pc = .closing) (err : Bool) :
    (d.closeWriteA err).Ok called ∧ (d.closeWriteA err).pc.Fresh := by
  unfold Dir.closeWriteA
  split
  · exact h.shut hpc (.inl rfl) (.inr ⟨_, _, rfl⟩)
  · exact h.shut hpc (.inl rfl) (.inl rfl)

lemma closeWriteB (hpc : d.pc = .closing) (err : Bool) :
    (d.closeWriteB called err).Ok called ∧ (d.closeWriteB called err).pc.Fresh := by
  unfold Dir.closeWriteB
  split
  · split
    · exact h.shut hpc (.inl rfl) (.inr ⟨_, _, rfl⟩)
    · exact h.shut hpc (.inl rfl) (.inl rfl)
  next hc => exact h.shut hpc (.inr ⟨rfl, by simpa using hc⟩) (.inl rfl)

end

end Dir.Ok

/-! ### The pumps and the reaper -/

def PC.live : PC → Nat
  | .finished => 0
  | _ => 1

def Todo.resets : Todo → Nat
  | .reset => 1
  | _ => 0

def PC.resets : PC → Nat
  | .failing t => t.resets
  | _ => 0

def Reaper.resets : Reaper → Nat
  | .acting t _ _ => t.resets
  | .closing _ => 1
  | _ => 0

/-- `fail` was called. -/
def Todo.recorded : Todo → Bool
  | .record .. => false
  | _ => true

namespace Forwarder

/-- Before the last Close: local was closed by resets, after a failure was recorded. -/
structure Running (f : Forwarder) : Prop where
  blamed : f.localDone = true → f.failed = true
  resets : ∀ c ∈ f.closes, c = true

/-- Both pumps ended. -/
def Over (f : Forwarder) : Prop := ∀ x, (f.dir x).pc = .finished

/-- The session was closed, and aborted before unless the end is clean. -/
def Closed (f : Forwarder) : Prop := ∃ b, f.closed = some b ∧ (f.clean = false → b = true)

def live (f : Forwarder) : Nat := (f.dir .a).pc.live + (f.dir .b).pc.live

/-- Where the reaper is. -/
def ReaperOk (f : Forwarder) : Prop :=
  match f.reaper with
  | .select n _ => n = f.live + f.signals ∧ 0 < n ∧ f.Running
  | .acting t n _ =>
    n = f.live + f.signals ∧ 0 < n ∧ f.Running ∧ (t.recorded = true → f.failed = true)
  | .abort => f.Over ∧ f.Running ∧ f.clean = false
  | .close c => f.Over ∧ f.Running ∧ c = f.clean ∧ (c = false → f.aborts ≠ [])
  | .last c => f.Over ∧ f.Running ∧ c = f.clean ∧ f.Closed
  | .closing c => f.Over ∧ f.closes = [] ∧ c = f.clean ∧ f.Closed
  | .returned => f.Over ∧ f.closes = [!f.clean] ∧ f.Closed

/-- **The invariant of a Forward call.** -/
structure Inv (offered : Bool) (f : Forwarder) : Prop where
  dirs : ∀ x, (f.dir x).Ok (x == .a || offered)
  blamed : ∀ x t, (f.dir x).pc = .failing t → t.recorded = true → f.failed = true
  closers : f.closes.length + ((f.dir .a).pc.resets + (f.dir .b).pc.resets) + f.reaper.resets =
    if f.localDone then 1 else 0
  reaper : f.ReaperOk

variable {offered : Bool} {f : Forwarder} {x : Side} {d : Dir} {t : Todo}

/-- While a pump runs the reaper is in its loop, and stays there. -/
lemma looping (hr : f.ReaperOk) (hx : (f.dir x).pc ≠ .finished) :
    f.Running ∧ ∀ g : Forwarder, g.reaper = f.reaper → g.live + g.signals = f.live + f.signals →
      g.Running → (f.failed = true → g.failed = true) → g.ReaperOk := by
  unfold ReaperOk at hr
  split at hr <;> rename_i hre
  · refine ⟨hr.2.2, fun g he hn hrun _ => ?_⟩
    unfold ReaperOk
    rw [he, hre]
    exact ⟨hr.1.trans hn.symm, hr.2.1, hrun⟩
  · refine ⟨hr.2.2.1, fun g he hn hrun hf => ?_⟩
    unfold ReaperOk
    rw [he, hre]
    exact ⟨hr.1.trans hn.symm, hr.2.1, hrun, fun ht => hf (hr.2.2.2 ht)⟩
  all_goals exact absurd (hr.1 x) hx

/-- What the sums over the two directions become. -/
lemma update_sum (dir : Side → Dir) (x : Side) (d : Dir) (w : PC → Nat) :
    w (update dir x d .a).pc + w (update dir x d .b).pc + w (dir x).pc =
      w (dir .a).pc + w (dir .b).pc + w d.pc := by
  cases x with
  | a | b =>
    rw [update_self, update_of_ne (by decide)]
    omega

/-- **What a step of a failure does.** -/
lemma perform_spec (f : Forwarder) (hr : f.Running) (ht : t.recorded = true → f.failed = true) :
    (f.perform t).1.Running ∧ (f.failed = true → (f.perform t).1.failed = true) ∧
    (∀ t', (f.perform t).2 = some t' → t'.recorded = true → (f.perform t).1.failed = true) ∧
    (f.perform t).1.dir = f.dir ∧ (f.perform t).1.signals = f.signals ∧
    (f.perform t).1.reaper = f.reaper ∧
    (f.perform t).1.closes.length + ((f.perform t).2.elim 0 Todo.resets) +
        (if f.localDone then 1 else 0) =
      f.closes.length + t.resets + if (f.perform t).1.localDone then 1 else 0 := by
  cases t with
  | record c m =>
    have hfail : (f.perform (.record c m)).1.failed = true := by
      unfold perform
      dsimp only
      split
      · assumption
      · rfl
    have hsame : (f.perform (.record c m)).1.localDone = f.localDone ∧
        (f.perform (.record c m)).1.closes = f.closes ∧ (f.perform (.record c m)).1.dir = f.dir ∧
        (f.perform (.record c m)).1.signals = f.signals ∧
        (f.perform (.record c m)).1.reaper = f.reaper := by
      unfold perform
      dsimp only
      split <;> exact ⟨rfl, rfl, rfl, rfl, rfl⟩
    obtain ⟨h1, h2, h3, h4, h5⟩ := hsame
    refine ⟨⟨fun _ => hfail, h2 ▸ hr.resets⟩, fun _ => hfail, fun _ _ _ => hfail, h3, h4, h5, ?_⟩
    rw [h1, h2]
    cases m <;> rfl
  | abort m => exact ⟨⟨hr.blamed, hr.resets⟩, id, fun _ _ _ => ht rfl, rfl, rfl, rfl, rfl⟩
  | close =>
    have hfail := ht rfl
    unfold perform
    by_cases hd : f.localDone = true
    · rw [if_pos hd]
      exact ⟨hr, id, by rintro _ ⟨⟩, rfl, rfl, rfl, rfl⟩
    rw [if_neg hd]
    refine ⟨⟨fun _ => hfail, hr.resets⟩, id, fun _ _ _ => hfail, rfl, rfl, rfl, ?_⟩
    rw [if_neg hd, if_pos rfl]
    rfl
  | reset =>
    have hfail := ht rfl
    refine ⟨⟨fun _ => hfail, fun c hc => ?_⟩, id, by rintro _ ⟨⟩, rfl, rfl, rfl, ?_⟩
    · rcases mem_append.mp hc with hc | hc
      · exact hr.resets c hc
      · exact mem_singleton.mp hc
    · rw [show (f.perform .reset).1.closes.length = f.closes.length + 1 from length_append ..]
      rfl

namespace Inv

/-- A pump that still runs takes a step. -/
lemma move (h : f.Inv offered) (hne : (f.dir x).pc ≠ .finished) {g : Forwarder}
    (hg : g.dir = update f.dir x d) (hre : g.reaper = f.reaper) (hrun : g.Running)
    (hfail : f.failed = true → g.failed = true) (hd : d.Ok (x == .a || offered))
    (hnew : ∀ t, d.pc = .failing t → t.recorded = true → g.failed = true)
    (hlive : g.signals + d.pc.live = f.signals + (f.dir x).pc.live)
    (hclose : g.closes.length + d.pc.resets + (if f.localDone then 1 else 0) =
      f.closes.length + (f.dir x).pc.resets + if g.localDone then 1 else 0) : g.Inv offered := by
  have h1 := update_sum f.dir x d PC.live
  have h2 := update_sum f.dir x d PC.resets
  refine ⟨fun y => ?_, fun y t hy ht => ?_, ?_, (looping h.reaper hne).2 g hre ?_ hrun hfail⟩
  · rw [hg, update_apply]
    exact guard (h.dirs y) fun he => he ▸ hd
  · rw [hg, update_apply] at hy
    split at hy
    · exact hnew t hy ht
    · exact hfail (h.blamed y t hy ht)
  · have := h.closers
    rw [hg, hre]
    omega
  · unfold live
    rw [hg]
    omega

/-- A call of a pump returned. -/
lemma called (h : f.Inv offered) (hlive : (f.dir x).pc.live = 1) (hres : (f.dir x).pc.resets = 0)
    (hd : d.Ok (x == .a || offered) ∧ d.pc.Fresh) : (f.setDir x d).Inv offered := by
  have hne : (f.dir x).pc ≠ .finished := fun he => by rw [he] at hlive; cases hlive
  obtain ⟨hlive', hres'⟩ : d.pc.live = 1 ∧ d.pc.resets = 0 := by
    cases hpc : d.pc with
    | failing t =>
      obtain ⟨c, m, rfl⟩ := hd.2.2 t hpc
      exact ⟨rfl, rfl⟩
    | finished => exact absurd hpc hd.2.1
    | _ => exact ⟨rfl, rfl⟩
  have hrun := (looping h.reaper hne).1
  refine h.move hne rfl rfl ⟨hrun.1, hrun.2⟩ id hd.1 (fun t ht hrec => ?_) ?_ ?_
  · obtain ⟨c, m, rfl⟩ := hd.2.2 t ht
    cases hrec
  · rw [hlive, hlive']
    rfl
  · rw [hres, hres']
    rfl

/-- A pump's step on the shared record. -/
lemma pump (h : f.Inv offered) (x : Side) : (f.pump x).Inv offered := by
  unfold Forwarder.pump
  split
  next t hpc =>
    have hne : (f.dir x).pc ≠ .finished := by rw [hpc]; rintro ⟨⟩
    obtain ⟨p1, p2, p3, p4, p5, p6, p7⟩ := perform_spec f (looping h.reaper hne).1 (h.blamed x t hpc)
    generalize f.perform t = r at p1 p2 p3 p4 p5 p6 p7 ⊢
    refine h.move hne (congrArg (update · x _) p4) p6 ⟨p1.1, p1.2⟩ p2 ?_
      (fun t' ht' hrec => ?_) ?_ ?_
    · exact { h.dirs x with at_pc := by cases r.2 <;> trivial }
    · cases hr : r.2 with
      | none =>
        rw [hr] at ht'
        cases ht'
      | some t1 =>
        rw [hr] at ht'
        cases ht'
        exact p3 _ hr hrec
    · rw [hpc]
      change r.1.signals + _ = _
      rw [p5]
      cases r.2 <;> rfl
    rw [hpc]
    change r.1.closes.length + _ + _ = _ + t.resets + if r.1.localDone then 1 else 0
    rw [← p7]
    cases r.2 <;> rfl
  next hpc =>
    have hne : (f.dir x).pc ≠ .finished := by rw [hpc]; rintro ⟨⟩
    have hrun := (looping h.reaper hne).1
    refine h.move hne rfl rfl ⟨hrun.1, hrun.2⟩ id { h.dirs x with at_pc := trivial } (by rintro _ ⟨⟩)
      ?_ ?_
    · rw [hpc]
      rfl
    · rw [hpc]
      rfl
  · exact h

/-! ### The reaper -/

lemma over_of_live (h : f.live = 0) : f.Over := by
  unfold live at h
  have hfin : ∀ q : PC, q.live = 0 → q = .finished := by
    intro q hq
    cases q with
    | finished => rfl
    | _ => cases hq
  intro x
  cases x with
  | a | b => exact hfin _ (by omega)

section

variable (h : f.Inv offered)
include h

/-- The head of the loop. -/
lemma loop (g : Forwarder) (hdir : g.dir = f.dir) (hfail : f.failed = true → g.failed = true)
    (hrun : g.Running) (hn : n = g.live + g.signals)
    (hclose : g.closes.length + ((g.dir .a).pc.resets + (g.dir .b).pc.resets) =
      if g.localDone then 1 else 0)
    (ch : Chans) : (g.loop n ch).Inv offered := by
  have hd : ∀ x, (g.dir x).Ok (x == .a || offered) := hdir ▸ h.dirs
  have hb : ∀ x t, (g.dir x).pc = .failing t → t.recorded = true → g.failed = true :=
    fun x t hx ht => hfail (h.blamed x t (hdir ▸ hx) ht)
  unfold Forwarder.loop
  split
  · have hover : g.Over := over_of_live (by omega)
    by_cases hc : g.clean = true
    · rw [if_pos hc]
      exact ⟨hd, hb, hclose, hover, ⟨hrun.1, hrun.2⟩, hc.symm, nofun⟩
    · have hc' : g.clean = false := by simpa using hc
      rw [if_neg hc]
      exact ⟨hd, hb, hclose, hover, ⟨hrun.1, hrun.2⟩, hc'⟩
  next hpos => exact ⟨hd, hb, hclose, hn, Nat.pos_of_ne_zero hpos, ⟨hrun.1, hrun.2⟩⟩

lemma selecting {ch : Chans} (hre : f.reaper = .select n ch) :
    (n = f.live + f.signals ∧ 0 < n) ∧ f.Running := by
  have hr := h.reaper
  unfold ReaperOk at hr
  rw [hre] at hr
  exact ⟨⟨hr.1, hr.2.1⟩, hr.2.2⟩

/-- The reaper begins a failure. -/
lemma blame {ch : Chans} (hre : f.reaper = .select n ch) {k : Nat} (hk : k ≤ f.signals)
    (hpos : 0 < n - k) (c : Cause) (m : Option Abort) (ch' : Chans) :
    Inv offered { f with
      signals := f.signals - k, reaper := .acting (.record c m) (n - k) ch' } := by
  obtain ⟨⟨hn, -⟩, hrun⟩ := h.selecting hre
  have hc := h.closers
  rw [hre] at hc
  refine ⟨h.dirs, h.blamed, hc, ?_, hpos, ⟨hrun.1, hrun.2⟩, nofun⟩
  change n - k = f.live + (f.signals - k)
  omega

lemma reap : f.reap.Inv offered := by
  have hr := h.reaper
  have hc := h.closers
  unfold ReaperOk at hr
  unfold Forwarder.reap
  split at hr <;> rename_i hre <;> rw [hre] at hc
  · exact h
  next t n ch =>
    obtain ⟨hn, hpos, hrun, hrec⟩ := hr
    obtain ⟨p1, p2, p3, p4, p5, p6, p7⟩ := perform_spec f hrun hrec
    generalize f.perform t = r at p1 p2 p3 p4 p5 p6 p7 ⊢
    have hlive : r.1.live = f.live := by
      unfold live
      rw [p4]
    simp only [Reaper.resets] at hc
    split
    next hnone =>
      rw [hnone] at p7
      simp only [Option.elim] at p7
      refine h.loop r.1 p4 p2 p1 (by rw [hlive, p5]; exact hn) ?_ ch
      rw [p4]
      omega
    rename_i t' hsome
    rw [hsome] at p7
    simp only [Option.elim] at p7
    refine ⟨p4 ▸ h.dirs, fun x t1 hx ht1 => p2 (h.blamed x t1 (p4 ▸ hx) ht1), ?_, ?_, hpos,
      ⟨p1.1, p1.2⟩, p3 t' hsome⟩
    · simp only [Reaper.resets]
      rw [p4]
      omega
    · change n = r.1.live + r.1.signals
      rw [hlive, p5]
      exact hn
  · exact ⟨h.dirs, h.blamed, hc, hr.1, ⟨hr.2.1.1, hr.2.1.2⟩, hr.2.2.symm, fun _ => by simp⟩
  next c =>
    obtain ⟨hover, hrun, hclean, hab⟩ := hr
    refine ⟨h.dirs, h.blamed, hc, hover, ⟨hrun.1, hrun.2⟩, hclean, _, rfl, fun hno => ?_⟩
    exact decide_eq_true (hab (hclean.trans hno))
  next c =>
    obtain ⟨hover, hrun, hclean, b, hb, hbc⟩ := hr
    have hzero : (f.dir .a).pc.resets + (f.dir .b).pc.resets = 0 := by
      rw [hover .a, hover .b]
      rfl
    simp only [Reaper.resets] at hc
    split
    next hdone =>
      refine ⟨h.dirs, h.blamed, by simp only [Reaper.resets]; exact hc, hover, ?_, b, hb, hbc⟩
      -- local was reset before, after a failure
      rw [if_pos hdone, hzero] at hc
      have hclean : f.clean = false := by
        unfold clean
        rw [hrun.1 hdone]
        rfl
      obtain ⟨z, hz⟩ := length_eq_one_iff.mp (by omega : f.closes.length = 1)
      have hzt := hrun.2 z (by rw [hz]; exact mem_singleton_self z)
      change f.closes = [!f.clean]
      rw [hz, hzt, hclean]
      rfl
    next hdone =>
    rw [if_neg hdone, hzero] at hc
    have hnil : f.closes = [] := length_eq_zero_iff.mp (by omega)
    refine ⟨h.dirs, h.blamed, ?_, hover, hnil, hclean, b, hb, hbc⟩
    simp only [Reaper.resets]
    rw [hzero, hnil]
    rfl
  next c =>
    obtain ⟨hover, hnil, hclean, b, hb, hbc⟩ := hr
    refine ⟨h.dirs, h.blamed, ?_, hover, ?_, b, hb, hbc⟩
    · simp only [Reaper.resets] at hc ⊢
      rw [length_append, length_singleton]
      omega
    · change f.closes ++ [!c] = [!f.clean]
      rw [hnil, hclean]
      rfl
  · exact h

/-! ### Runs -/

/-- **Every step keeps the invariant.** -/
lemma step (ev : Ev) : (f.step offered ev).Inv offered := by
  have ha : (f.dir .a).Ok true := h.dirs .a
  have hb : (f.dir .b).Ok offered := h.dirs .b
  cases ev with
  | readA n buf e =>
    dsimp only [Forwarder.step]
    split
    next k hpc =>
      exact guard h fun _ => h.called (by rw [hpc]; rfl) (by rw [hpc]; rfl) (ha.readA hpc n buf e)
    · exact h
  | writeA w err =>
    dsimp only [Forwarder.step]
    split
    next bs e hpc =>
      exact guard h fun hw => h.called (by rw [hpc]; rfl) (by rw [hpc]; rfl) (ha.writeA hpc hw err)
    · exact h
  | closeWriteA err =>
    dsimp only [Forwarder.step]
    split
    next hpc => exact h.called (by rw [hpc]; rfl) (by rw [hpc]; rfl) (ha.closeWriteA hpc err)
    · exact h
  | readB n buf e =>
    dsimp only [Forwarder.step]
    split
    next k hpc =>
      exact guard h fun _ => h.called (by rw [hpc]; rfl) (by rw [hpc]; rfl) (hb.got hpc _ e _ _)
    · exact h
  | writeB k err =>
    dsimp only [Forwarder.step]
    split
    next p e hpc => exact h.called (by rw [hpc]; rfl) (by rw [hpc]; rfl) (hb.writeB hpc k err)
    · exact h
  | closeWriteB err =>
    dsimp only [Forwarder.step]
    split
    next hpc => exact h.called (by rw [hpc]; rfl) (by rw [hpc]; rfl) (hb.closeWriteB hpc err)
    · exact h
  | pump x => exact h.pump x
  | done =>
    dsimp only [Forwarder.step]
    split
    next n ch hre =>
      refine guard h fun hs => ?_
      obtain ⟨⟨hn, -⟩, hrun⟩ := h.selecting hre
      have hc := h.closers
      rw [hre] at hc
      refine h.loop { f with signals := f.signals - 1 } rfl id ⟨hrun.1, hrun.2⟩ ?_ hc ch
      change n - 1 = f.live + (f.signals - 1)
      omega
    · exact h
  | ended eof =>
    dsimp only [Forwarder.step]
    split
    next n ch hre =>
      obtain ⟨⟨hn, hpos⟩, hrun⟩ := h.selecting hre
      have hc := h.closers
      rw [hre] at hc
      refine guard h fun _ => ?_
      split
      · refine h.loop { f with signals := 0 } rfl id ⟨hrun.1, hrun.2⟩ ?_ hc _
        change 0 = f.live + 0
        omega
      split
      · refine ⟨h.dirs, h.blamed, hc, ?_, by omega, ⟨hrun.1, hrun.2⟩⟩
        change n - f.signals = f.live + 0
        omega
      have := h.blame hre (le_refl f.signals) (by omega) (.sess .returned) none
        { ch with ended := false }
      rw [Nat.sub_self] at this
      exact this
    · exact h
  | join =>
    dsimp only [Forwarder.step]
    split
    next n ch hre =>
      split
      · exact h.blame hre (Nat.zero_le _) (h.selecting hre).1.2 (.loc .noDrain) none _
      · exact h
    · exact h
  | cancelled =>
    dsimp only [Forwarder.step]
    split
    next n ch hre =>
      split
      · exact h.blame hre (Nat.zero_le _) (h.selecting hre).1.2 (.sess .ctx) (some .cancelled) _
      · exact h
    · exact h
  | reap => exact h.reap

end

lemma new (offered : Bool) : Forwarder.new.Inv offered where
  dirs _ := Dir.Ok.early (append_nil _) rfl rfl rfl ⟨rfl, rfl, rfl⟩
  blamed := by rintro _ _ ⟨⟩
  closers := rfl
  reaper := ⟨rfl, by decide, nofun, by rintro _ ⟨⟩⟩

end Inv

/-- **Forwarding never turns a failure into a clean end.** At every moment, in each direction: what
was accepted is a prefix of what was read and is what is counted, CloseWrite was called once at most,
only after the EOF and with every byte before it accepted, and the EOF counts as forwarded only so;
local was closed once at most. When Forward returns, local was closed once, by a plain Close if the
result is clean and else by a reset; the session was closed, and aborted before unless it is clean;
and the result is clean just when both EOFs were forwarded and no failure was recorded. -/
theorem forward_ends (offered : Bool) (evs : List Ev) :
    let f : Forwarder := runFrom (Forwarder.step offered) Forwarder.new evs
    (∀ x, (f.dir x).sent <+: (f.dir x).read ∧ (f.dir x).moved = (f.dir x).sent.length ∧
      (f.dir x).cw ≤ 1 ∧
      ((f.dir x).cw = 1 ∨ (f.dir x).fin = true →
        (f.dir x).eof = true ∧ (f.dir x).sent = (f.dir x).read) ∧
      ((f.dir x).fin = true → (x == .a || offered) = true → (f.dir x).cw = 1)) ∧
    f.closes.length ≤ 1 ∧
    (f.reaper = .returned →
      f.closes = [!f.clean] ∧
      (∃ aborted, f.closed = some aborted ∧ (f.clean = false → aborted = true)) ∧
      (f.clean = true ↔ (f.dir .a).fin = true ∧ (f.dir .b).fin = true ∧ f.failed = false)) := by
  intro f
  have h : f.Inv offered := runFrom_inv (Inv offered) (Inv.new offered) fun _ ev _ hf => hf.step ev
  refine ⟨fun x => ?_, ?_, fun hre => ?_⟩
  · have hd := h.dirs x
    exact ⟨hd.accepted, hd.moved, hd.cw_le, hd.all, hd.fin⟩
  · have := h.closers
    split at this <;> omega
  have hr := h.reaper
  unfold ReaperOk at hr
  rw [hre] at hr
  refine ⟨hr.2.1, hr.2.2, ?_⟩
  unfold clean
  simp only [Bool.and_eq_true, Bool.not_eq_true']
  tauto

end Forwarder

end Rendr.L4.Forward

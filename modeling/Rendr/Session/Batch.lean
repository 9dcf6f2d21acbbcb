import Rendr.Session.Seg

/-!
# Frames and the batch a Fill appends to

The session frames of a stream session, and the batch a carrier's writer hands to `Fill`: how
many frames and control bytes it holds already, the DATA room left (the batch budget and, on a
MUX trunk, the payload quota of the call), whether the call is a control pass, and the response
hold of a passive view. Every `add` may refuse; what this call appended is `out`.
-/

namespace Rendr

/-- A session frame. The flags of an ACK are its two booleans. -/
inductive Frame
  | data (off : Nat) (p : List Byte)
  | fin (off : Nat)
  | ack (finDelivered done : Bool) (delivered window : Nat)
  | openAck (window : Nat)
  | joinAck (rxNext : Nat)
  /-- the dialer's OPEN, with or without early data behind it -/
  | opn (early : Bool) (window : Nat)
  | join (rxNext : Nat)
  | sched
  deriving DecidableEq, Repr

/-- The most frames of one batch. -/
def maxBatchFrames : Nat := 64

/-- The control payload bytes of one batch. -/
def controlArena : Nat := 8192

/-- A stream batch during one Fill call. -/
structure Batch where
  /-- the frames in the batch -/
  n : Nat
  /-- the control payload bytes in the batch -/
  ctl : Nat
  /-- the DATA payload bytes still allowed -/
  room : Int
  /-- a control pass: the payload quota is 0 -/
  ctlOnly : Bool
  /-- the response hold is armed for this lane's handle -/
  hold : Bool
  /-- the OK response was added under the hold -/
  holdOn : Bool
  /-- DOWN notices waiting to precede a reliable frame -/
  downs : Nat
  /-- what this call appended, in order -/
  out : List Frame

namespace Batch

/-- No further frame of any kind fits. -/
def full (b : Batch) : Bool := decide (maxBatchFrames ≤ b.n) || decide (controlArena ≤ b.ctl)

/-- Reserve a control frame of `len` payload bytes. -/
def addControl (b : Batch) (len : Nat) (f : Frame) : Option Batch :=
  if maxBatchFrames ≤ b.n ∨ controlArena < b.ctl + len then none
  else some { b with n := b.n + 1, ctl := b.ctl + len, out := b.out ++ [f] }

/-- The waiting DOWNs that fit, ahead of a reliable frame. -/
def placeDowns : Nat → Batch → Batch
  | 0, b => b
  | k + 1, b =>
    if maxBatchFrames ≤ b.n ∨ controlArena < b.ctl + 4 then b
    else placeDowns k { b with n := b.n + 1, ctl := b.ctl + 4, downs := b.downs - 1 }

/-- A session control frame. -/
def addSession (b : Batch) (len : Nat) (f : Frame) : Bool × Batch :=
  if b.holdOn then (false, b)
  else
    match b.addControl len f with
    | none => (false, b)
    | some b => (true, b)

/-- A reliable session frame, behind the waiting DOWNs. -/
def addSessionRel (b : Batch) (len : Nat) (f : Frame) : Bool × Batch :=
  if b.holdOn then (false, b) else (placeDowns b.downs b).addSession len f

/-- An OK response starts the response hold if it is armed. -/
def heldBy (r : Bool × Batch) : Bool × Batch :=
  if r.1 then (true, { r.2 with holdOn := r.2.hold || r.2.holdOn }) else r

def addOpenAck (b : Batch) (window : Nat) : Bool × Batch :=
  heldBy (b.addSessionRel 10 (.openAck window))

def addJoinAck (b : Batch) (rxNext : Nat) : Bool × Batch :=
  heldBy (b.addSessionRel 9 (.joinAck rxNext))

def addAck (b : Batch) (finDelivered done : Bool) (delivered window : Nat) : Bool × Batch :=
  b.addSession 16 (.ack finDelivered done delivered window)

def addFin (b : Batch) (off : Nat) : Bool × Batch := b.addSessionRel 8 (.fin off)

/-- A SCHED that names `n` carriers. -/
def addSched (b : Batch) (n : Nat) : Bool × Batch := b.addSessionRel (29 + 4 * n) .sched

/-- One DATA frame; refused when it does not fit, in a control pass and under a response hold.
A body is never empty. -/
def addData (b : Batch) (off : Nat) (body : List Byte) : Option Batch :=
  if b.full = true ∨ b.room < body.length ∨ b.ctlOnly = true ∨ b.holdOn = true then none
  else
    some { b with n := b.n + 1, room := b.room - body.length, out := b.out ++ [.data off body] }

/-! ### What an `add` does -/

/-- Adding the frame `f` either refuses, appending nothing, or appends exactly `f`. -/
def Adds (f : Frame) (b : Batch) (r : Bool × Batch) : Prop :=
  r.2.out = if r.1 then b.out ++ [f] else b.out

lemma placeDowns_out (k : Nat) (b : Batch) : (placeDowns k b).out = b.out := by
  induction k generalizing b with
  | zero => rfl
  | succ k ih =>
    rw [placeDowns]
    split
    · rfl
    · exact ih _

variable (b : Batch)

lemma addSession_adds (len : Nat) (f : Frame) : Adds f b (b.addSession len f) := by
  unfold Adds addSession addControl
  split
  · rfl
  · split <;> rename_i h <;> split at h <;> cases h <;> rfl

lemma addSessionRel_adds (len : Nat) (f : Frame) : Adds f b (b.addSessionRel len f) := by
  unfold addSessionRel
  split
  · rfl
  · have h := addSession_adds (placeDowns b.downs b) len f
    unfold Adds at h ⊢
    rw [h, placeDowns_out]

lemma heldBy_adds {f : Frame} {b : Batch} {r : Bool × Batch} (h : Adds f b r) :
    Adds f b (heldBy r) := by
  unfold heldBy
  split
  next hr =>
    unfold Adds at h ⊢
    rw [hr] at h
    exact h
  · exact h

lemma addOpenAck_adds (w : Nat) : Adds (.openAck w) b (b.addOpenAck w) :=
  heldBy_adds (addSessionRel_adds ..)

lemma addJoinAck_adds (rx : Nat) : Adds (.joinAck rx) b (b.addJoinAck rx) :=
  heldBy_adds (addSessionRel_adds ..)

lemma addAck_adds (fd dn : Bool) (d w : Nat) :
    Adds (.ack fd dn d w) b (b.addAck fd dn d w) := addSession_adds ..

lemma addFin_adds (off : Nat) : Adds (.fin off) b (b.addFin off) :=
  addSessionRel_adds ..

lemma addSched_adds (n : Nat) : Adds .sched b (b.addSched n) :=
  addSessionRel_adds ..

/-- A control frame takes no DATA room. -/
def SameRoom (b b' : Batch) : Prop := b'.room = b.room ∧ b'.ctlOnly = b.ctlOnly

lemma SameRoom.trans {b b' b'' : Batch} (h : SameRoom b b') (h' : SameRoom b' b'') :
    SameRoom b b'' := ⟨h'.1.trans h.1, h'.2.trans h.2⟩

lemma placeDowns_room (k : Nat) (b : Batch) : SameRoom b (placeDowns k b) := by
  induction k generalizing b with
  | zero => exact ⟨rfl, rfl⟩
  | succ k ih =>
    rw [placeDowns]
    split
    · exact ⟨rfl, rfl⟩
    · exact ih _

lemma addSession_room (len : Nat) (f : Frame) : SameRoom b (b.addSession len f).2 := by
  unfold addSession addControl
  split
  · exact ⟨rfl, rfl⟩
  · split <;> rename_i h <;> split at h <;> cases h <;> exact ⟨rfl, rfl⟩

lemma addSessionRel_room (len : Nat) (f : Frame) : SameRoom b (b.addSessionRel len f).2 := by
  unfold addSessionRel
  split
  · exact ⟨rfl, rfl⟩
  · exact (placeDowns_room ..).trans (addSession_room ..)

lemma heldBy_room {b : Batch} {r : Bool × Batch} (h : SameRoom b r.2) :
    SameRoom b (heldBy r).2 := by
  unfold heldBy
  split <;> exact h

lemma addData_some {b b' : Batch} {off : Nat} {body : List Byte}
    (h : b.addData off body = some b') :
    b.n < maxBatchFrames ∧ b'.n = b.n + 1 ∧ b'.room = b.room - body.length ∧
      (body.length : Int) ≤ b.room ∧ b'.out = b.out ++ [.data off body] := by
  unfold addData at h
  split at h
  · cases h
  rename_i hc
  simp only [not_or, full, Bool.or_eq_true, decide_eq_true_eq] at hc
  cases h
  exact ⟨by omega, rfl, rfl, by omega, rfl⟩

end Batch

end Rendr

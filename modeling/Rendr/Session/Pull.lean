import Rendr.Session.Send

/-!
# What a Fill loop does

`addData` either refuses and changes nothing, or places one frame (`Placed`). A loop that pulls
DATA is a sequence of placements, each recorded by the loop; `pullLoop_inv` is its invariant rule
and `pullLoop_done` says that it stops for its own reason, never because the fuel ran out.
-/

namespace Rendr

namespace Pull

/-- One frame of `k` bytes at `off`, out of at most `n`, was placed on lane `l`. -/
structure Placed (p : Params) (l : LaneId) (off n : Nat) (st : Pull) (k : Nat) (st' : Pull) :
    Prop where
  pos : 0 < k
  le : k ≤ n
  chunk : k ≤ st.s.tx.chunkEnd off - off
  segment : k ≤ p.segment
  room : (k : Int) ≤ st.b.room
  /-- the frame is the whole of what was asked for, or as much as a first frame may be -/
  cut : k = min (min n (st.s.tx.chunkEnd off - off)) p.segment ∨
    (st.sent = false ∧ (k : Int) = st.b.room)
  frames : st.b.n < maxBatchFrames
  s_eq : st'.s = st.s.setLane l fun ln => { ln with infl := ln.infl.add off k }
  left_eq : st'.left = st.left - k
  sent_eq : st'.sent = true
  n_eq : st'.b.n = st.b.n + 1
  room_eq : st'.b.room = st.b.room - k
  out_eq : st'.b.out = st.b.out ++ [.data off (st.s.tx.bytesAt off k)]

/-- `addData` refuses, or places a frame. -/
lemma addData_cases (p : Params) (l : LaneId) (off n : Nat) (st : Pull) :
    st.addData p l off n = (0, st) ∨
      (st.addData p l off n).1 ≠ 0 ∧
        Placed p l off n st (st.addData p l off n).1 (st.addData p l off n).2 ∨
      n = 0 := by
  unfold addData
  simp only
  by_cases hr : st.b.room.toNat < min (min n (st.s.tx.chunkEnd off - off)) p.segment ∧
      (st.sent = true ∨ st.b.room.toNat = 0)
  · rw [if_pos hr]
    exact .inl rfl
  rw [if_neg hr]
  cases hb : st.b.addData off
      (st.s.tx.bytesAt off
        (min (min (min n (st.s.tx.chunkEnd off - off)) p.segment) st.b.room.toNat)) with
  | none => exact .inl rfl
  | some b =>
    have hadd := Batch.addData_some hb
    have hchunk := st.s.tx.lt_chunkEnd off
    have hseg := p.segment_pos
    simp only [Tx.length_bytesAt] at hadd
    simp only
    generalize hk : min (min (min n (st.s.tx.chunkEnd off - off)) p.segment) st.b.room.toNat = k
      at hadd ⊢
    by_cases hn : n = 0
    · exact .inr (.inr hn)
    -- the first frame of a call is cut to the room; later ones fit or are refused
    have hcut : k = min (min n (st.s.tx.chunkEnd off - off)) p.segment ∨
        (st.sent = false ∧ (k : Int) = st.b.room) := by
      by_cases hle : min (min n (st.s.tx.chunkEnd off - off)) p.segment ≤ st.b.room.toNat
      · exact .inl (by omega)
      · refine .inr ⟨?_, by omega⟩
        by_contra hs
        exact hr ⟨Nat.lt_of_not_le hle, .inl (by simpa using hs)⟩
    have hpos : 0 < k := by
      by_contra h0
      exact hr ⟨by omega, .inr (by omega)⟩
    refine .inr (.inl ⟨Nat.ne_of_gt hpos, ?_⟩)
    exact
      { pos := hpos, le := by omega, chunk := by omega, segment := by omega, room := hadd.2.2.2.1
        cut := hcut, frames := hadd.1, s_eq := rfl, left_eq := rfl, sent_eq := rfl
        n_eq := hadd.2.1, room_eq := hadd.2.2.1, out_eq := hadd.2.2.2.2 }

variable {p : Params} {l : LaneId} {q : Loop}

/-- The frame of `k` bytes that the loop `q` places next. -/
abbrev Places (p : Params) (l : LaneId) (q : Loop) (st : Pull) (k : Nat) (st' : Pull) : Prop :=
  Placed p l (q.next (q.prep st.s)).1 (q.next (q.prep st.s)).2 { st with s := q.prep st.s } k st'

/-- A loop that has bytes to place is refused, or places a frame. -/
lemma places_cases (p : Params) (l : LaneId) {st : Pull} (h : 0 < (q.next (q.prep st.s)).2) :
    let st₁ : Pull := { st with s := q.prep st.s }
    let r := st₁.addData p l (q.next st₁.s).1 (q.next st₁.s).2
    r = (0, st₁) ∨ r.1 ≠ 0 ∧ Places p l q st r.1 r.2 := by
  intro st₁ r
  rcases addData_cases p l (q.next st₁.s).1 (q.next st₁.s).2 st₁ with hc | hc | hc
  · exact .inl hc
  · exact .inr hc
  · exact absurd hc (Nat.ne_of_gt h)

/-- The invariant rule of a Fill loop: what the loop's preparation preserves and every placement
it records preserves, the loop preserves. -/
lemma pullLoop_inv (Inv : Pull → Prop)
    (hnext : ∀ st, Inv st → q.live st = true → 0 < (q.next (q.prep st.s)).2)
    (hprep : ∀ st, Inv st → q.live st = true → Inv { st with s := q.prep st.s })
    (hstep : ∀ st k st', Inv st → q.live st = true → Places p l q st k st' →
      Inv { st' with s := q.took k st'.s })
    (fuel : Nat) {st : Pull} (h : Inv st) : Inv (pullLoop p l q fuel st) := by
  induction fuel generalizing st with
  | zero => exact h
  | succ fuel ih =>
    rw [pullLoop]
    by_cases hl : q.live st = true
    · rw [if_pos hl]
      simp only
      rcases places_cases p l (hnext st h hl) with hc | ⟨hc, hplaced⟩
      · rw [hc]
        exact hprep st h hl
      · rw [if_neg hc]
        exact ih (hstep st _ _ h hl hplaced)
    · rw [if_neg hl]
      exact h

/-- A loop that may still place as many frames as the batch takes stops by itself: nothing is
left to place, or the next frame was refused. -/
lemma pullLoop_done (hnext : ∀ st, q.live st = true → 0 < (q.next (q.prep st.s)).2) (fuel : Nat)
    {st : Pull} (hf : maxBatchFrames ≤ st.b.n + fuel)
    (hprep : ∀ s, q.prep (q.prep s) = q.prep s) :
    q.live (pullLoop p l q fuel st) = false ∨
      (addData p l (q.next (q.prep (pullLoop p l q fuel st).s)).1
        (q.next (q.prep (pullLoop p l q fuel st).s)).2
        { pullLoop p l q fuel st with s := q.prep (pullLoop p l q fuel st).s }).1 = 0 := by
  induction fuel generalizing st with
  | zero =>
    by_cases hl : q.live st = true
    · right
      rcases places_cases p l (hnext st hl) with hc | ⟨hc, hplaced⟩
      · rw [pullLoop, hc]
      · exact absurd hplaced.frames (by simp only; omega)
    · exact .inl (Bool.eq_false_iff.mpr hl)
  | succ fuel ih =>
    rw [pullLoop]
    by_cases hl : q.live st = true
    · rw [if_pos hl]
      simp only
      rcases places_cases p l (hnext st hl) with hc | ⟨hc, hplaced⟩
      · right
        rw [hc]
        simp only [if_true, hprep]
        rw [hc]
      rw [if_neg hc]
      refine ih ?_
      simp only [hplaced.n_eq]
      omega
    · rw [if_neg hl]
      exact .inl (Bool.eq_false_iff.mpr hl)

end Pull

end Rendr

import Mathlib.Logic.Function.Basic
import Mathlib.Data.List.Basic

/-!
# The dedup window of a packet session

`wire.SeqWindow`: a circular bitmap that follows the newest seq accepted. Advancing clears only
the bits it passes, and a jump of at least the width clears the whole map. A window that took the
seqs `seen` marks exactly those of them that it still covers (`Seen`), so it never takes a seq
twice (`Seen.accept_new`), and a seq it does not take leaves it as it was (`accept_other`).
-/

namespace Rendr.Wire

open List

/-- `WindowVerdict`, without the one only a frame window gives. -/
inductive WindowVerdict
  | new
  | duplicate
  | late
  deriving DecidableEq, Repr

/-- `minSeqWindowWords`. -/
def minSeqWindowWords : Nat := 16

/-- `SeqWindow`. The storage is `words` words of 64 bits; as `words` is a power of two, seq `x`'s
bit, bit `x % 64` of word `(x / 64) & (words − 1)`, is the bit number `x % width` of the whole. -/
structure SeqWindow where
  top : Nat
  started : Bool
  words : Nat
  bits : Nat → Bool
  storage : minSeqWindowWords ≤ words ∧ words &&& (words - 1) = 0

/-- The loop of `clearRing`, bit by bit where the code clears a word's share at once. -/
def clearRing (width : Nat) : Nat → Nat → (Nat → Bool) → Nat → Bool
  | _, 0, bits => bits
  | start, n + 1, bits =>
    clearRing width (start + 1) n (Function.update bits (start % width) false)

/-- `setRing`. -/
def setRing (width : Nat) (bits : Nat → Bool) (i : Nat) : Nat → Bool :=
  Function.update bits (i % width) true

lemma clearRing_apply (width start n : Nat) (bits : Nat → Bool) (j : Nat) :
    clearRing width start n bits j = true ↔
      bits j = true ∧ ∀ k < n, (start + k) % width ≠ j := by
  induction n generalizing start bits with
  | zero => exact ⟨fun h => ⟨h, fun k hk => absurd hk (Nat.not_lt_zero k)⟩, And.left⟩
  | succ n ih =>
    rw [clearRing, ih, Function.update_apply]
    constructor
    · rintro ⟨hbit, hrest⟩
      split at hbit
      · cases hbit
      next hj =>
      refine ⟨hbit, fun k hk => ?_⟩
      rcases k with _ | k
      · exact fun h => hj h.symm
      · have := hrest k (by omega)
        rwa [show start + (k + 1) = start + 1 + k by omega]
    rintro ⟨hbit, hall⟩
    refine ⟨?_, fun k hk => ?_⟩
    · rw [if_neg fun h => hall 0 (by omega) h.symm]
      exact hbit
    · have := hall (k + 1) (by omega)
      rwa [show start + (k + 1) = start + 1 + k by omega] at this

/-- Two numbers less than the width apart share a bit only if they are equal. -/
lemma mod_inj {width x y : Nat} (hxy : x ≤ y) (hlt : y < x + width)
    (h : x % width = y % width) : x = y := by
  have hzero := Nat.eq_zero_of_dvd_of_lt
    (Nat.dvd_of_mod_eq_zero (Nat.sub_mod_eq_zero_of_mod_eq h.symm)) (by omega)
  omega

/-- **A ring of marks**: of the last `width` numbers up to `top`, the map marks those in `P`. -/
def Marks (width : Nat) (bits : Nat → Bool) (top : Nat) (P : Nat → Prop) : Prop :=
  ∀ x, x ≤ top → top < x + width → (bits (x % width) = true ↔ P x)

section Marks

variable {width top : Nat} {bits : Nat → Bool} {P : Nat → Prop}

/-- A number the ring covers is marked. -/
lemma Marks.set (h : Marks width bits top P) {s : Nat} (hs : s ≤ top) (hin : top < s + width) :
    Marks width (setRing width bits s) top fun x => x = s ∨ P x := by
  intro x hx hx'
  rw [setRing, Function.update_apply]
  by_cases hxs : x = s
  · rw [if_pos (by rw [hxs])]
    exact iff_of_true rfl (.inl hxs)
  have hmod : x % width ≠ s % width := by
    intro hmod
    rcases Nat.le_total x s with hle | hle
    · exact hxs (mod_inj hle (by omega) hmod)
    · exact hxs (mod_inj hle (by omega) hmod.symm).symm
  rw [if_neg hmod, h x hx hx']
  exact (or_iff_right hxs).symm

/-- The ring moves forward: what it still covers keeps its bit, what it passed has its cleared. -/
lemma Marks.clear (h : Marks width bits top P) (hP : ∀ x, P x → x ≤ top) (n : Nat) :
    Marks width (clearRing width (top + 1) n bits) (top + n) P := by
  intro x hx hx'
  rw [clearRing_apply]
  by_cases hle : x ≤ top
  · -- still covered: none of the cleared bits is its own
    rw [and_iff_left, h x hle (by omega)]
    intro k hk hmod
    have heq := mod_inj (by omega) (by omega) hmod.symm
    omega
  · refine iff_of_false (fun hb => hb.2 (x - (top + 1)) (by omega) ?_) fun hp => hle (hP x hp)
    rw [show top + 1 + (x - (top + 1)) = x by omega]

/-- A jump of the width or more leaves nothing marked. -/
lemma Marks.jump (hP : ∀ x, P x → x + width ≤ top) : Marks width (fun _ => false) top P := by
  intro x _ hx
  refine iff_of_false Bool.false_ne_true fun hp => ?_
  have := hP x hp
  omega

end Marks

namespace SeqWindow

/-- `len(w.bits) · 64`. -/
def width (w : SeqWindow) : Nat := w.words * 64

/-- `Init`; the code panics where this is `none`. -/
def init (words : Nat) : Option SeqWindow :=
  if h : minSeqWindowWords ≤ words ∧ words &&& (words - 1) = 0 then
    some ⟨0, false, words, fun _ => false, h⟩
  else none

/-- The window with `seq` its newest. -/
def advance (w : SeqWindow) (seq : Nat) (bits : Nat → Bool) : SeqWindow :=
  { w with top := seq, started := true, bits := setRing w.width bits seq }

/-- `Accept`. -/
def accept (w : SeqWindow) (seq : Nat) : SeqWindow × WindowVerdict :=
  if w.started = false then (w.advance seq w.bits, .new)
  else if w.top < seq then
    if w.width ≤ seq - w.top then (w.advance seq fun _ => false, .new)
    else (w.advance seq (clearRing w.width (w.top + 1) (seq - w.top) w.bits), .new)
  else if w.width ≤ w.top - seq then (w, .late)
  else if w.bits (seq % w.width) then (w, .duplicate)
  else ({ w with bits := setRing w.width w.bits seq }, .new)

/-- **What the window remembers**: a window that took the seqs `seen`, and no others, has the
newest of them on top and marks exactly those less than its width behind it. -/
structure Seen (w : SeqWindow) (seen : List Nat) : Prop where
  fresh : w.started = false → seen = [] ∧ ∀ j, w.bits j = false
  newest : w.started = true → ∀ x ∈ seen, x ≤ w.top
  marked : w.started = true → ∀ x ≤ w.top, w.top - x < w.width →
    (w.bits (x % w.width) = true ↔ x ∈ seen)

lemma init_seen {words : Nat} {w : SeqWindow} (h : init words = some w) : w.Seen [] := by
  unfold init at h
  split at h
  · cases h
    exact ⟨fun _ => ⟨rfl, fun _ => rfl⟩, (fun hs => by cases hs), (fun hs => by cases hs)⟩
  · cases h

variable {w : SeqWindow} {seen : List Nat} {seq : Nat}

/-- A seq the window does not take leaves it unchanged. -/
lemma accept_other (hv : (w.accept seq).2 ≠ .new) : (w.accept seq).1 = w := by
  revert hv
  unfold accept
  repeat' split
  all_goals intro hv
  all_goals first | rfl | exact absurd rfl hv

/-- The window moves to a seq above every one it took, its bits marking those it still covers. -/
lemma Seen.advance {bits : Nat → Bool} (hnew : ∀ x ∈ seen, x < seq)
    (hbits : Marks w.width bits seq (· ∈ seen)) : (w.advance seq bits).Seen (seq :: seen) where
  fresh h := by cases h
  newest _ x hx := by
    rcases mem_cons.mp hx with rfl | hx
    · exact Nat.le_refl _
    · exact Nat.le_of_lt (hnew x hx)
  marked _ x hx hw := by
    change x ≤ seq at hx
    change seq - x < w.width at hw
    have hset := hbits.set (Nat.le_refl seq) (by omega) x hx (by omega)
    rw [mem_cons]
    exact hset

lemma Seen.marks (h : w.Seen seen) (hs : w.started = true) :
    Marks w.width w.bits w.top (· ∈ seen) :=
  fun x hx hw => h.marked hs x hx (by omega)

/-- **A seq is taken at most once**: one the window takes as new was not seen, and is from now
on. -/
lemma Seen.accept_new (h : w.Seen seen) (hv : (w.accept seq).2 = .new) :
    seq ∉ seen ∧ (w.accept seq).1.Seen (seq :: seen) := by
  unfold accept at hv ⊢
  split at hv <;> rename_i hstart
  · -- the first seq
    obtain ⟨rfl, hclear⟩ := h.fresh hstart
    rw [if_pos hstart]
    refine ⟨not_mem_nil, Seen.advance (fun x hx => by cases hx) fun x _ _ => ?_⟩
    rw [hclear]
    exact iff_of_false (by decide) not_mem_nil
  rw [if_neg hstart]
  rw [Bool.not_eq_false] at hstart
  split at hv <;> rename_i htop
  · -- the window moves forward
    rw [if_pos htop]
    have hnew : ∀ x ∈ seen, x < seq := fun x hx => Nat.lt_of_le_of_lt (h.newest hstart x hx) htop
    refine ⟨fun hmem => Nat.lt_irrefl _ (hnew seq hmem), ?_⟩
    split
    · refine Seen.advance hnew (Marks.jump fun x hx => ?_)
      have hle := h.newest hstart x hx
      omega
    · have hmove := (h.marks hstart).clear (h.newest hstart) (seq - w.top)
      rw [show w.top + (seq - w.top) = seq by omega] at hmove
      exact Seen.advance hnew hmove
  rw [if_neg htop]
  split at hv <;> rename_i hlate
  · cases hv
  rw [if_neg hlate]
  split at hv <;> rename_i hdup
  · cases hv
  rw [if_neg hdup]
  -- a gap below the newest is filled
  have hcov := h.marked hstart seq (by omega) (by omega)
  refine ⟨fun hmem => hdup (hcov.mpr hmem), fun hs => ?_, fun _ x hx => ?_, fun _ x hx hw => ?_⟩
  · exact absurd (hs : w.started = false) (by rw [hstart]; decide)
  · rcases mem_cons.mp hx with rfl | hx
    · exact Nat.le_of_not_lt htop
    · exact h.newest hstart x hx
  change x ≤ w.top at hx
  change w.top - x < w.width at hw
  have hset := (h.marks hstart).set (by omega : seq ≤ w.top) (by omega) x hx (by omega)
  rw [mem_cons]
  exact hset

end SeqWindow

end Rendr.Wire

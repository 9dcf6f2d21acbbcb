import Rendr.Lib.Serial
import Rendr.Wire.Window

/-!
# The anti-replay window of a datagram direction

`wire.FseqWindow`: a circular bitmap of `fseqWindowBits` frames that follows the newest fseq
accepted, in 32-bit serial arithmetic. `Models` relates it to the unbounded indices the fseqs stand
for: the newest index and the set of indices taken, everything below the direction's first counted
as taken. `accept_models` and `jump_models` say how the two operations act on that reference, so
that an index is taken at most once and never below the first, across any number of wraps.
-/

namespace Rendr.Wire

open List

/-- `FseqWindowBits`. -/
def fseqWindowBits : Nat := 8192

/-- `WindowVerdict` of a frame window. -/
inductive FseqVerdict
  | new
  | duplicate
  | late
  | ahead
  deriving DecidableEq, Repr

/-- `FseqWindow`; bit `x % fseqWindowBits` of the map is bit `x % 64` of word `x / 64`. -/
structure FseqWindow where
  top : UInt32
  bits : Nat → Bool

namespace FseqWindow

/-- `Init`: everything before `first` counts as seen. -/
def init (first : UInt32) : FseqWindow := ⟨first - 1, fun _ => true⟩

/-- `Accept`. -/
def accept (w : FseqWindow) (f : UInt32) : FseqWindow × FseqVerdict :=
  let d := f - w.top
  if 0 < int32 d then
    if fseqWindowBits ≤ d.toNat then (w, .ahead)
    else
      (⟨f, setRing fseqWindowBits (clearRing fseqWindowBits (w.top.toNat + 1) d.toNat w.bits)
        f.toNat⟩, .new)
  else if fseqWindowBits ≤ (w.top - f).toNat then (w, .late)
  else if w.bits (f.toNat % fseqWindowBits) then (w, .duplicate)
  else ({ w with bits := setRing fseqWindowBits w.bits f.toNat }, .new)

/-- `Jump`. -/
def jump (_w : FseqWindow) (f : UInt32) : FseqWindow :=
  ⟨f, setRing fseqWindowBits (fun _ => false) f.toNat⟩

/-- **The reference**: the newest index, and the indices taken. Index `first` is the direction's
first frame; the indices start above `2 ^ 32`, so that the window always lies in them. -/
structure Models (w : FseqWindow) (first top : Nat) (taken : List Nat) : Prop where
  newest : w.top = wrap top
  base : 2 ^ 32 ≤ first
  above : first ≤ top + 1
  range : ∀ x ∈ taken, first ≤ x ∧ x ≤ top
  marked : ∀ x, x ≤ top → top < x + fseqWindowBits →
    (w.bits (x % fseqWindowBits) = true ↔ x ∈ taken ∨ x < first)

variable {w : FseqWindow} {first top : Nat} {taken : List Nat} {f : UInt32}

lemma Models.marks (h : w.Models first top taken) :
    Marks fseqWindowBits w.bits top fun x => x ∈ taken ∨ x < first :=
  h.marked

/-- A clearing depends on where it starts only through the bit there. -/
lemma clearRing_congr {width a b n : Nat} {bits : Nat → Bool} (h : a % width = b % width) :
    clearRing width a n bits = clearRing width b n bits := by
  funext j
  have hk : ∀ k, (a + k) % width = (b + k) % width := fun k => by rw [Nat.add_mod, h, ← Nat.add_mod]
  rw [Bool.eq_iff_iff, clearRing_apply, clearRing_apply]
  simp only [hk]

/-- The index an fseq stands for, beside the newest. -/
def index (w : FseqWindow) (top : Nat) (f : UInt32) : Nat :=
  if 0 < int32 (f - w.top) then top + (f - w.top).toNat else top - (w.top - f).toNat

lemma wrap_index (h : w.Models first top taken) : wrap (w.index top f) = f := by
  have ht := h.newest
  have hb := h.base
  have ha := h.above
  apply UInt32.toNat_inj.mp
  unfold index
  rw [ht]
  have hf := f.toNat_lt
  split
  · rw [toNat_wrap, UInt32.toNat_sub, toNat_wrap]
    omega
  · rw [toNat_wrap, UInt32.toNat_sub, toNat_wrap]
    omega

lemma fwd_lt {d : UInt32} (h : 0 < int32 d) : 0 < d.toNat ∧ d.toNat < 2 ^ 31 := by
  unfold int32 at h
  have := d.toNat_lt
  split_ifs at h <;> omega

lemma mod_toNat (n : Nat) : (wrap n).toNat % fseqWindowBits = n % fseqWindowBits :=
  wrap_toNat_mod (by decide)

section

variable (h : w.Models first top taken)
include h

/-- An fseq's bit is its index's. -/
lemma index_mod : f.toNat % fseqWindowBits = w.index top f % fseqWindowBits := by
  conv_lhs => rw [← wrap_index (f := f) h]
  exact mod_toNat _

lemma setRing_index (bits : Nat → Bool) :
    setRing fseqWindowBits bits f.toNat = setRing fseqWindowBits bits (w.index top f) := by
  rw [setRing, setRing, index_mod h]

/-- A number behind the newest, or the newest itself, reads the distance to it. -/
lemma index_behind (hd : ¬ 0 < int32 (f - w.top)) :
    w.index top f ≤ top ∧ top - w.index top f = (w.top - f).toNat := by
  have ht := h.base
  have ha := h.above
  have hl := (w.top - f).toNat_lt
  rw [index, if_neg hd]
  omega

/-- **`Accept` on the reference**: what it takes was not taken, is not below the first, and moves
the newest by less than the width; what it does not take changes nothing. -/
lemma accept_models :
    ((w.accept f).2 = .new → w.index top f ∉ taken ∧ first ≤ w.index top f ∧
      w.index top f < top + fseqWindowBits ∧
      (w.accept f).1.Models first (max top (w.index top f)) (w.index top f :: taken)) ∧
    ((w.accept f).2 ≠ .new → (w.accept f).1 = w) ∧
    ((w.accept f).2 = .ahead → top + fseqWindowBits ≤ w.index top f ∧
      w.index top f < top + 2 ^ 31) := by
  have hwi := wrap_index (f := f) h
  have hbase := h.base
  have habove := h.above
  by_cases hd : 0 < int32 (f - w.top)
  · -- ahead of the newest
    have hi : w.index top f = top + (f - w.top).toNat := by rw [index, if_pos hd]
    have hlt := fwd_lt hd
    by_cases hw : fseqWindowBits ≤ (f - w.top).toNat
    · have e : w.accept f = (w, .ahead) := by simp [accept, hd, hw]
      rw [e]
      refine ⟨by simp, by simp, fun _ => ?_⟩
      omega
    have e : w.accept f = (⟨f, setRing fseqWindowBits (clearRing fseqWindowBits (w.top.toNat + 1)
        (f - w.top).toNat w.bits) f.toNat⟩, .new) := by
      simp only [accept]
      rw [if_pos hd, if_neg hw]
    rw [e]
    have hnot : w.index top f ∉ taken := fun hm => by
      have := (h.range _ hm).2
      omega
    refine ⟨fun _ => ⟨hnot, by omega, by omega, ?_⟩, by simp, by simp⟩
    have hmax : max top (w.index top f) = w.index top f := by omega
    rw [hmax]
    refine ⟨hwi.symm, hbase, by omega, ?_, ?_⟩
    · intro x hx
      rcases mem_cons.1 hx with rfl | hx
      · omega
      · have := h.range x hx
        omega
    intro x hx hx'
    have htop : (w.top.toNat + 1) % fseqWindowBits = (top + 1) % fseqWindowBits := by
      rw [Nat.add_mod, h.newest, mod_toNat, ← Nat.add_mod]
    have hmove := h.marks.clear (fun y hy => ?_) (f - w.top).toNat
    · rw [← hi, ← clearRing_congr htop] at hmove
      have hset := hmove.set le_rfl (by omega) x hx hx'
      rw [mem_cons, or_assoc, setRing_index h]
      exact hset
    · rcases hy with hy | hy
      · exact (h.range y hy).2
      · omega
  -- behind it, or the newest itself
  obtain ⟨hle, hdist⟩ := index_behind h hd
  have hf := index_mod (f := f) h
  by_cases hl : fseqWindowBits ≤ (w.top - f).toNat
  · have e : w.accept f = (w, .late) := by
      simp only [accept]
      rw [if_neg hd, if_pos hl]
    rw [e]
    exact ⟨by simp, by simp, by simp⟩
  have hin : top < w.index top f + fseqWindowBits := by omega
  by_cases hb : w.bits (f.toNat % fseqWindowBits) = true
  · have e : w.accept f = (w, .duplicate) := by
      simp only [accept]
      rw [if_neg hd, if_neg hl, if_pos hb]
    rw [e]
    exact ⟨by simp, by simp, by simp⟩
  have e : w.accept f = ({ w with bits := setRing fseqWindowBits w.bits f.toNat }, .new) := by
    simp only [accept]
    rw [if_neg hd, if_neg hl, if_neg hb]
  rw [e]
  rw [hf, h.marked _ hle hin, not_or] at hb
  refine ⟨fun _ => ⟨hb.1, by omega, by omega, ?_⟩, by simp, by simp⟩
  rw [Nat.max_eq_left hle]
  refine ⟨h.newest, hbase, habove, ?_, ?_⟩
  · intro x hx
    rcases mem_cons.1 hx with rfl | hx
    · omega
    · exact h.range x hx
  intro x hx hx'
  have hset := h.marks.set hle hin x hx hx'
  rw [mem_cons, or_assoc, setRing_index h]
  exact hset

/-- **`Jump` on the reference**, where `Accept` read ahead. -/
lemma jump_models (ha : (w.accept f).2 = .ahead) :
    w.index top f ∉ taken ∧ first ≤ w.index top f ∧
      (w.jump f).Models first (w.index top f) (w.index top f :: taken) := by
  obtain ⟨hge, -⟩ := (accept_models (f := f) h).2.2 ha
  have hwi := wrap_index (f := f) h
  have hbase := h.base
  have habove := h.above
  have hbits : 0 < fseqWindowBits := by decide
  refine ⟨fun hm => by have := (h.range _ hm).2; omega, by omega, hwi.symm, hbase, by omega, ?_, ?_⟩
  · intro x hx
    rcases mem_cons.1 hx with rfl | hx
    · omega
    · have := h.range x hx
      omega
  intro x hx hx'
  have hnone : Marks fseqWindowBits (fun _ => false) (w.index top f)
      fun x => x ∈ taken ∨ x < first := by
    apply Marks.jump
    rintro y (hy | hy)
    · have := (h.range y hy).2
      omega
    · omega
  have hset := hnone.set le_rfl (by omega) x hx hx'
  rw [mem_cons, or_assoc, jump, setRing_index h]
  exact hset

end

end FseqWindow

end Rendr.Wire

import Mathlib.Data.List.Basic
import Mathlib.Data.List.TakeWhile

/-!
# Binary search over a partitioned list

The half-interval loop that finds the first element of a list failing a test, for a list whose
passing elements all come first. `search_eq` identifies the result with the length of the
passing prefix, so that a caller reasons about `takeWhile` and `dropWhile` only.
-/

namespace Rendr

open List

variable {α : Type}

/-- The loop on `[lo, hi)`: the passing half moves `lo`, the failing half moves `hi`. The fuel
bounds the rounds; `hi - lo` of them suffice. -/
def searchLoop (p : Nat → Bool) : Nat → Nat → Nat → Nat
  | 0, lo, _ => lo
  | fuel + 1, lo, hi =>
    if lo < hi then
      let m := (lo + hi) / 2
      if p m then searchLoop p fuel (m + 1) hi else searchLoop p fuel lo m
    else lo

/-- The index of the first element of `l` that fails `p`. -/
def search (p : α → Bool) (l : List α) : Nat :=
  searchLoop (fun i => l[i]?.any p) l.length 0 l.length

/-- When `p` passes exactly below `k`, the loop finds `k`. -/
lemma searchLoop_eq {p : Nat → Bool} {k : Nat} (fuel : Nat) {lo hi : Nat}
    (hfuel : hi - lo ≤ fuel) (hlo : lo ≤ k) (hhi : k ≤ hi)
    (hp : ∀ i, lo ≤ i → i < hi → (p i = true ↔ i < k)) : searchLoop p fuel lo hi = k := by
  induction fuel generalizing lo hi with
  | zero =>
    rw [searchLoop]
    omega
  | succ fuel ih =>
    rw [searchLoop]
    by_cases h : lo < hi
    · rw [if_pos h]
      have hm := hp ((lo + hi) / 2) (by omega) (by omega)
      by_cases hpm : p ((lo + hi) / 2) = true
      · rw [if_pos hpm]
        rw [hpm] at hm
        have hk : (lo + hi) / 2 < k := hm.mp rfl
        exact ih (by omega) (by omega) hhi fun i h1 h2 => hp i (by omega) h2
      · rw [if_neg hpm]
        have hk : k ≤ (lo + hi) / 2 := Nat.le_of_not_lt fun hc => hpm (hm.mpr hc)
        exact ih (by omega) hlo hk fun i h1 h2 => hp i h1 (by omega)
    · rw [if_neg h]
      omega

variable {p : α → Bool} {l : List α}

section

variable (hl : l.Pairwise fun a b => p b = true → p a = true)
include hl

/-- In a list whose passing elements come first, membership of index `i` in the passing prefix
is the test at `i`. -/
private lemma any_iff_lt_takeWhile {i : Nat} (hi : i < l.length) :
    l[i]?.any p = true ↔ i < (l.takeWhile p).length := by
  induction l generalizing i with
  | nil => simp at hi
  | cons a t ih =>
    obtain ⟨ha, ht⟩ := pairwise_cons.mp hl
    by_cases hpa : p a = true
    · rw [takeWhile_cons_of_pos hpa]
      cases i with
      | zero => simp [hpa]
      | succ i => simpa using ih ht (by simpa using hi)
    -- nothing behind a failing head passes
    rw [takeWhile_cons_of_neg hpa]
    cases i with
    | zero => simpa using hpa
    | succ i =>
      have hi' : i < t.length := by simpa using hi
      have hmem : t[i] ∈ t := getElem_mem hi'
      simpa [getElem?_eq_getElem hi'] using fun hc => hpa (ha _ hmem hc)

lemma search_eq : search p l = (l.takeWhile p).length :=
  searchLoop_eq l.length (by omega) (by omega)
    (List.Sublist.length_le (takeWhile_sublist p))
    fun _ _ hi => any_iff_lt_takeWhile hl hi

lemma take_search : l.take (search p l) = l.takeWhile p := by
  rw [search_eq hl]
  exact (prefix_iff_eq_take.mp (List.takeWhile_prefix p)).symm

lemma drop_search : l.drop (search p l) = l.dropWhile p := by
  have h := take_append_drop (search p l) l
  rw [take_search hl] at h
  exact append_cancel_left (h.trans takeWhile_append_dropWhile.symm)

end

end Rendr

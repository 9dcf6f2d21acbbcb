import Mathlib.Tactic

/-!
# Dense lists and sums of weights

* `Indexed` — a list whose elements know their own index. `swapRemove` takes an element out by
  putting the last one in its place; the list stays indexed (`Indexed.swapRemove`).
* `sum_map_set`, `getElem?_set_cases` — what replacing one element does to a sum of weights and to
  lookups.
-/

namespace Rendr

open Function List

/-! ### Sums of weights -/

variable {α : Type} {a : α}

lemma sum_map_set (f : α → Int) {l : List α} {i : Nat} (h : l[i]? = some a) (b : α) :
    ((l.set i b).map f).sum = (l.map f).sum + (f b - f a) := by
  induction l generalizing i with
  | nil => cases h
  | cons x l ih =>
    cases i with
    | zero =>
      cases h
      simp only [set_cons_zero, map_cons, sum_cons]
      omega
    | succ i =>
      simp only [set_cons_succ, map_cons, sum_cons, ih h]
      omega

/-- What is found after one element was replaced. -/
lemma getElem?_set_cases {l : List α} {i j : Nat} {a b : α} (h : (l.set i b)[j]? = some a) :
    (j = i ∧ a = b) ∨ (j ≠ i ∧ l[j]? = some a) := by
  by_cases hj : j = i
  · subst hj
    have hlt := (List.getElem?_eq_some_iff.mp h).1
    rw [length_set] at hlt
    rw [getElem?_set_self hlt] at h
    exact .inl ⟨rfl, (Option.some.inj h).symm⟩
  · rw [getElem?_set_ne (Ne.symm hj)] at h
    exact .inr ⟨hj, h⟩

lemma sum_map_bool (P : α → Bool) (l : List α) :
    (l.map fun a => if P a then (1 : Int) else 0).sum = l.countP P := by
  induction l with
  | nil => rfl
  | cons a l ih =>
    rw [map_cons, sum_cons, ih, countP_cons]
    split
    · push_cast
      omega
    · push_cast
      omega

/-- Counting by index. -/
lemma countP_range (P : α → Bool) (l : List α) :
    (List.range l.length).countP (fun p => l[p]?.any P) = l.countP P := by
  induction l using List.reverseRecOn with
  | nil => rfl
  | append_singleton l a ih =>
    have hlast : (l ++ [a])[l.length]? = some a := by simp
    rw [length_append, length_singleton, range_succ, countP_append,
      countP_append, ← ih]
    congr 1
    · refine countP_congr fun p hp => ?_
      rw [getElem?_append_left (mem_range.mp hp)]
    · simp [countP_cons, hlast]

/-! ### Dense lists -/

/-- Every element is at its own index. -/
def Indexed (all : List α) (idx : α → Nat) : Prop := ∀ j a, all[j]? = some a → idx a = j

variable {idx : α → Nat} {all : List α}

lemma Indexed.get (h : Indexed all idx) (ha : a ∈ all) : all[idx a]? = some a := by
  obtain ⟨j, hj⟩ := mem_iff_getElem?.mp ha
  rw [h j a hj]
  exact hj

lemma Indexed.nodup (h : Indexed all idx) : all.Nodup := by
  rw [nodup_iff_getElem?_ne_getElem?]
  intro i j hij hj he
  have hsome := getElem?_eq_getElem hj
  have h1 := h j _ hsome
  have h2 := h i _ (he.trans hsome)
  omega

variable [DecidableEq α]

lemma Indexed.push (h : Indexed all idx) (ha : a ∉ all) :
    Indexed (all ++ [a]) (update idx a all.length) := by
  intro j x hx
  rw [getElem?_append] at hx
  split at hx
  · have hne : x ≠ a := fun he => ha (he ▸ mem_of_getElem? hx)
    rw [update_of_ne hne]
    exact h j x hx
  rw [getElem?_singleton] at hx
  split at hx
  · cases hx
    rw [update_self]
    omega
  · cases hx

/-- The last element takes the place of `a`. -/
def swapRemove (all : List α) (idx : α → Nat) (a : α) : List α × (α → Nat) :=
  match all[all.length - 1]? with
  | none => (all, idx)
  | some b =>
    if idx a ≠ all.length - 1 then
      ((all.set (idx a) b).take (all.length - 1), update idx b (idx a))
    else (all.take (all.length - 1), idx)

lemma Indexed.swapRemove (h : Indexed all idx) (ha : a ∈ all) :
    Indexed (swapRemove all idx a).1 (swapRemove all idx a).2 ∧
      ∀ x, x ∈ (swapRemove all idx a).1 ↔ x ∈ all ∧ x ≠ a := by
  have hget := h.get ha
  have hlt := (List.getElem?_eq_some_iff.mp hget).1
  unfold Rendr.swapRemove
  rw [getElem?_eq_getElem (show all.length - 1 < all.length by omega)]
  dsimp only
  have hlast := getElem?_eq_getElem (show all.length - 1 < all.length by omega)
  split
  next hne =>
    have hentry : ∀ j, ((all.set (idx a) all[all.length - 1]).take (all.length - 1))[j]? =
        if j < all.length - 1 then
          if idx a = j then some all[all.length - 1] else all[j]?
        else none := by
      intro j
      rw [getElem?_take]
      split
      · rw [getElem?_set]
        split <;> rfl
      · rfl
    dsimp only
    constructor
    · intro j x hx
      rw [hentry] at hx
      split at hx
      · split at hx
        · cases hx
          rw [update_self]
          assumption
        have hxb : x ≠ all[all.length - 1] := by
          intro he
          have h1 := h j x hx
          have h2 := h _ _ hlast
          rw [he] at h1
          omega
        rw [update_of_ne hxb]
        exact h j x hx
      · cases hx
    intro x
    constructor
    · intro hx
      obtain ⟨j, hj⟩ := mem_iff_getElem?.mp hx
      rw [hentry] at hj
      split at hj
      · split at hj
        · cases hj
          refine ⟨getElem_mem _, fun he => hne ?_⟩
          rw [← he]
          exact h _ _ hlast
        refine ⟨mem_of_getElem? hj, fun he => ?_⟩
        have := h j x hj
        rw [he] at this
        contradiction
      · cases hj
    rintro ⟨hx, hxa⟩
    have hxg := h.get hx
    have hxlt := (List.getElem?_eq_some_iff.mp hxg).1
    have hia : idx a ≠ idx x := by
      intro he
      rw [he, hxg] at hget
      exact hxa (Option.some.inj hget)
    by_cases hxl : idx x = all.length - 1
    · have hxb : x = all[all.length - 1] := by
        rw [hxl, hlast] at hxg
        exact (Option.some.inj hxg).symm
      refine mem_iff_getElem?.mpr ⟨idx a, ?_⟩
      rw [hentry, if_pos (by omega), if_pos rfl, hxb]
    · refine mem_iff_getElem?.mpr ⟨idx x, ?_⟩
      rw [hentry, if_pos (by omega), if_neg hia]
      exact hxg
  rename_i heq
  rw [not_not] at heq
  have hentry : ∀ j, (all.take (all.length - 1))[j]? =
      if j < all.length - 1 then all[j]? else none := fun j => getElem?_take
  constructor
  · intro j x hx
    rw [hentry] at hx
    split at hx
    · exact h j x hx
    · cases hx
  intro x
  constructor
  · intro hx
    obtain ⟨j, hj⟩ := mem_iff_getElem?.mp hx
    rw [hentry] at hj
    split at hj
    · refine ⟨mem_of_getElem? hj, fun he => ?_⟩
      have := h j x hj
      rw [he] at this
      omega
    · cases hj
  rintro ⟨hx, hxa⟩
  have hxg := h.get hx
  have hxlt := (List.getElem?_eq_some_iff.mp hxg).1
  have hxl : idx x ≠ all.length - 1 := by
    intro he
    rw [he, ← heq, hget] at hxg
    exact hxa (Option.some.inj hxg).symm
  refine mem_iff_getElem?.mpr ⟨idx x, ?_⟩
  rw [hentry, if_pos (by omega)]
  exact hxg

end Rendr

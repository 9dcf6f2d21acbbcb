import Mathlib.Tactic

/-!
# A pool of reference-counted cells

Cells are numbered from `1`; number `0` stands for no cell, and every operation ignores it.
A freed cell goes on a free list and the next allocation takes it from there. The counts are
integers, so that a count that fell below zero would show.

`Pool.Ok p use` says that the count of every cell is the number `use c` of references its owner
holds, and that the free list holds exactly the cells nobody refers to, each once. The three
operations keep it, with the references they add or drop:

* `Pool.Ok.alloc` — a fresh cell, referred to once;
* `Pool.Ok.ref` — one more reference on a cell that is referred to;
* `Pool.Ok.unref` — one reference fewer; the last one frees the cell.
-/

namespace Rendr

open List Function

/-- A pool of cells holding values of type `α`. -/
structure Pool (α : Type) where
  val : Nat → α
  refs : Nat → Int
  /-- The cells handed out so far are `1 … size`. -/
  size : Nat
  free : List Nat

namespace Pool

variable {α : Type} {p : Pool α} {use use' : Nat → Nat} {c : Nat}

/-- A fresh cell holding `a`, referred to once: the latest freed one, or a new one. -/
def alloc (p : Pool α) (a : α) : Nat × Pool α :=
  match p.free with
  | c :: rest =>
    (c, { p with val := update p.val c a, refs := update p.refs c 1,
                 free := rest })
  | [] =>
    (p.size + 1, { p with val := update p.val (p.size + 1) a,
                          refs := update p.refs (p.size + 1) 1, size := p.size + 1 })

/-- One more reference on cell `c`. -/
def ref (p : Pool α) (c : Nat) : Pool α :=
  if c = 0 then p else { p with refs := update p.refs c (p.refs c + 1) }

/-- One reference fewer on cell `c`; the last one frees it. -/
def unref (p : Pool α) (c : Nat) : Pool α :=
  if c = 0 then p
  else
    { p with refs := update p.refs c (p.refs c - 1)
             free := if p.refs c - 1 = 0 then c :: p.free else p.free }

/-- The value of cell `c` changed by `f`. -/
def modify (p : Pool α) (c : Nat) (f : α → α) : Pool α :=
  { p with val := update p.val c (f (p.val c)) }

@[simp] lemma ref_val : (p.ref c).val = p.val := by unfold ref; split <;> rfl

@[simp] lemma unref_val : (p.unref c).val = p.val := by unfold unref; split <;> rfl

lemma modify_val (f : α → α) : (p.modify c f).val = update p.val c (f (p.val c)) := rfl

/-- The counts of the pool are those of `use`, and the free cells are those nobody refers to. -/
structure Ok (p : Pool α) (use : Nat → Nat) : Prop where
  refs_eq : ∀ c, c ≠ 0 → c ≤ p.size → p.refs c = use c
  bound : ∀ c, c ≠ 0 → 0 < use c → c ≤ p.size
  nodup : p.free.Nodup
  free_iff : ∀ c, c ∈ p.free ↔ c ≠ 0 ∧ c ≤ p.size ∧ use c = 0

/-- Only the references on real cells count. -/
lemma Ok.congr (h : p.Ok use) (he : ∀ c, c ≠ 0 → use' c = use c) : p.Ok use' where
  refs_eq c h0 hs := by rw [he c h0]; exact h.refs_eq c h0 hs
  bound c h0 hu := h.bound c h0 (by rwa [he c h0] at hu)
  nodup := h.nodup
  free_iff c := by
    rw [h.free_iff c]
    refine and_congr_right fun h0 => ?_
    rw [he c h0]

lemma Ok.modify (h : p.Ok use) (f : α → α) : (p.modify c f).Ok use :=
  { h with }

lemma Ok.ref (h : p.Ok use) (hc : c ≠ 0 → 0 < use c) :
    (p.ref c).Ok (fun x => if x = c then use x + 1 else use x) := by
  by_cases h0 : c = 0
  · rw [Pool.ref, if_pos h0]
    refine h.congr fun x hx => ?_
    rw [if_neg (by omega)]
  rw [Pool.ref, if_neg h0]
  have hpos := hc h0
  refine ⟨fun x hx hs => ?_, fun x hx hu => ?_, h.nodup, fun x => ?_⟩
  · dsimp only
    by_cases hxc : x = c
    · subst hxc
      rw [update_self, if_pos rfl, h.refs_eq x hx hs]
      rfl
    · rw [update_of_ne hxc, if_neg hxc, h.refs_eq x hx hs]
  · by_cases hxc : x = c
    · exact hxc ▸ h.bound c h0 hpos
    · rw [if_neg hxc] at hu
      exact h.bound x hx hu
  refine (h.free_iff x).trans (and_congr_right fun hx => and_congr_right fun hs => ?_)
  by_cases hxc : x = c
  · rw [if_pos hxc]
    subst hxc
    omega
  · rw [if_neg hxc]

lemma Ok.unref (h : p.Ok use) (hc : c ≠ 0 → 0 < use c) :
    (p.unref c).Ok (fun x => if x = c then use x - 1 else use x) := by
  by_cases h0 : c = 0
  · rw [Pool.unref, if_pos h0]
    refine h.congr fun x hx => ?_
    rw [if_neg (by omega)]
  rw [Pool.unref, if_neg h0]
  have hpos := hc h0
  have hsize := h.bound c h0 hpos
  have hrefs := h.refs_eq c h0 hsize
  -- a cell that is referred to is not on the free list, so the last reference adds it once
  have hfree : c ∉ p.free := fun hm => by have := ((h.free_iff c).mp hm).2.2; omega
  refine ⟨fun x hx hs => ?_, fun x hx hu => ?_, ?_, fun x => ?_⟩
  · dsimp only
    by_cases hxc : x = c
    · subst hxc
      rw [update_self, if_pos rfl]
      omega
    · rw [update_of_ne hxc, if_neg hxc, h.refs_eq x hx hs]
  · by_cases hxc : x = c
    · exact hxc ▸ hsize
    · rw [if_neg hxc] at hu
      exact h.bound x hx hu
  · dsimp only
    split
    · exact nodup_cons.mpr ⟨hfree, h.nodup⟩
    · exact h.nodup
  by_cases hxc : x = c
  · subst hxc
    rw [if_pos rfl]
    split
    · simp only [mem_cons, true_or, true_iff]
      omega
    · refine ⟨fun hm => absurd hm hfree, fun hm => ?_⟩
      omega
  rw [if_neg hxc, ← h.free_iff x]
  split
  · simp [hxc]
  · rfl

/-- What an allocation gives: a cell nobody referred to, holding `a`, the values of the others
unchanged. -/
lemma Ok.alloc (h : p.Ok use) (a : α) :
    (p.alloc a).1 ≠ 0 ∧ use (p.alloc a).1 = 0 ∧
    (p.alloc a).2.Ok (fun x => if x = (p.alloc a).1 then 1 else use x) ∧
    (p.alloc a).2.val = update p.val (p.alloc a).1 a := by
  rcases hf : p.free with _ | ⟨c, rest⟩
  · have hnew : use (p.size + 1) = 0 := by
      by_contra hne
      have := h.bound (p.size + 1) (by omega) (by omega)
      omega
    simp only [Pool.alloc, hf]
    refine ⟨by omega, hnew,
      ⟨fun x hx hs => ?_, fun x hx hu => ?_, by simp, fun x => ?_⟩, trivial⟩
    · dsimp only at hs ⊢
      by_cases hxc : x = p.size + 1
      · rw [hxc, update_self, if_pos rfl]
        rfl
      · rw [update_of_ne hxc, if_neg hxc]
        exact h.refs_eq x hx (by omega)
    · by_cases hxc : x = p.size + 1
      · exact le_of_eq hxc
      · rw [if_neg hxc] at hu
        exact Nat.le_succ_of_le (h.bound x hx hu)
    have hx := h.free_iff x
    rw [hf] at hx
    simp only [not_mem_nil, false_iff] at hx ⊢
    intro ⟨h0, hs, hu⟩
    by_cases hxc : x = p.size + 1
    · rw [if_pos hxc] at hu
      omega
    · rw [if_neg hxc] at hu
      exact hx ⟨h0, by omega, hu⟩
  have hmem : c ∈ p.free := by rw [hf]; exact mem_cons_self ..
  obtain ⟨h0, hs, hu⟩ := (h.free_iff c).mp hmem
  have hnd := h.nodup
  rw [hf, nodup_cons] at hnd
  simp only [Pool.alloc, hf]
  refine ⟨h0, hu, ⟨fun x hx hs' => ?_, fun x hx hu' => ?_, hnd.2, fun x => ?_⟩, trivial⟩
  · dsimp only
    by_cases hxc : x = c
    · rw [hxc, update_self, if_pos rfl]
      rfl
    · rw [update_of_ne hxc, if_neg hxc]
      exact h.refs_eq x hx hs'
  · by_cases hxc : x = c
    · exact hxc ▸ hs
    · rw [if_neg hxc] at hu'
      exact h.bound x hx hu'
  have hx := h.free_iff x
  rw [hf, mem_cons] at hx
  by_cases hxc : x = c
  · subst hxc
    rw [if_pos rfl]
    exact ⟨fun hm => absurd hm hnd.1, fun hm => absurd hm.2.2 (by omega)⟩
  · rw [if_neg hxc]
    simpa only [hxc, false_or] using hx

end Pool

end Rendr

import Mathlib.Tactic

/-!
# Power-of-two ring buffers

A growable ring buffer over a slice whose length is zero or a power of two: positions are
reduced by masking with `length - 1`, a full ring is copied to the front of a slice twice as
long, and a removed slot is overwritten by the default value. The size discipline is carried by
the structure itself, so every ring that can be built indexes correctly.

The abstraction is `Ring.toList`, the queue from front to back. Each operation is specified by
what it does to that list:

* `toList_push`: a push appends;
* `popFront_eq`: a pop returns the head and leaves the tail;
* `toList_setBack`: writing the back element replaces the last entry.

`cyclic` is the window of a ring over a fixed array, whose start may also move on by any number of
slots.
-/

namespace Rendr

open List

variable {α : Type}

/-- A ring of `n` elements stored in the slice `s` from position `head` on. -/
structure Ring (α : Type) where
  /-- the backing slice -/
  s : List α
  /-- the position of the front element -/
  head : Nat
  /-- the number of elements held -/
  n : Nat
  /-- the slice is empty or has a power-of-two length -/
  pow2 : s.length = 0 ∨ ∃ k, s.length = 2 ^ k
  head_lt : s.length = 0 ∨ head < s.length
  n_le : n ≤ s.length

namespace Ring

/-- The empty ring without storage. -/
def empty : Ring α :=
  { s := [], head := 0, n := 0, pow2 := .inl rfl, head_lt := .inl rfl, n_le := Nat.le_refl 0 }

/-- The slice position of the `i`-th element. -/
def index (r : Ring α) (i : Nat) : Nat := (r.head + i) &&& (r.s.length - 1)

/-- Masking with `m - 1` is reduction modulo `m` when `m` is a power of two. -/
private lemma and_pred_eq_mod {m : Nat} (h : ∃ k, m = 2 ^ k) (x : Nat) :
    x &&& (m - 1) = x % m := by
  obtain ⟨k, rfl⟩ := h
  exact Nat.and_two_pow_sub_one_eq_mod x k

variable (r : Ring α) {i : Nat}

lemma index_eq (h : i < r.s.length) :
    r.index i = if r.head + i < r.s.length then r.head + i else r.head + i - r.s.length := by
  have hp : ∃ k, r.s.length = 2 ^ k := r.pow2.resolve_left (by omega)
  have hh : r.head < r.s.length := r.head_lt.resolve_left (by omega)
  rw [index, and_pred_eq_mod hp]
  split
  · exact Nat.mod_eq_of_lt ‹_›
  · rw [Nat.mod_eq_sub_mod (by omega), Nat.mod_eq_of_lt (by omega)]

lemma index_lt (h : i < r.s.length) : r.index i < r.s.length := by
  have hh : r.head < r.s.length := r.head_lt.resolve_left (by omega)
  rw [index_eq r h]
  split <;> omega

/-- Distinct elements sit in distinct slots. -/
lemma index_inj {i j : Nat} (hi : i < r.s.length) (hj : j < r.s.length)
    (h : r.index i = r.index j) : i = j := by
  have hh : r.head < r.s.length := r.head_lt.resolve_left (by omega)
  rw [index_eq r hi, index_eq r hj] at h
  split at h <;> split at h <;> omega

variable [Inhabited α]

/-- The `i`-th element from the front. -/
def get (r : Ring α) (i : Nat) : α := r.s.getD (r.index i) default

/-- The last element. -/
def back (r : Ring α) : α := r.get (r.n - 1)

/-- The queue, front first. -/
def toList (r : Ring α) : List α := (List.range r.n).map r.get

@[simp] lemma length_toList : r.toList.length = r.n := by simp [toList]

@[simp] lemma toList_empty : (empty : Ring α).toList = [] := rfl

lemma toList_eq_nil_iff : r.toList = [] ↔ r.n = 0 := by
  rw [← length_eq_zero_iff, length_toList]

lemma getElem?_toList (h : i < r.n) : r.toList[i]? = some (r.get i) := by
  simp [toList, h]

/-! ### Push -/

/-- Double the slice of a full ring, moving the elements to its front; the first slice has
`2 ^ e` slots. -/
def growFrom (r : Ring α) (e : Nat) : Ring α :=
  if h : r.n = r.s.length then
    { s := r.toList ++ List.replicate (max (2 ^ e) (2 * r.s.length) - r.n) default
      head := 0
      n := r.n
      pow2 := by
        right
        have he := Nat.two_pow_pos e
        simp only [length_append, length_toList, length_replicate]
        rcases r.pow2 with h0 | ⟨k, hk⟩
        · exact ⟨e, by omega⟩
        by_cases hle : e ≤ k + 1
        · have : 2 ^ e ≤ 2 ^ (k + 1) := Nat.pow_le_pow_right (by omega) hle
          exact ⟨k + 1, by rw [Nat.pow_succ] at this ⊢; omega⟩
        · have : 2 ^ (k + 1) ≤ 2 ^ e := Nat.pow_le_pow_right (by omega) (by omega)
          exact ⟨e, by rw [Nat.pow_succ] at this; omega⟩
      head_lt := by
        right
        have he := Nat.two_pow_pos e
        simp only [length_append, length_toList, length_replicate]
        omega
      n_le := by simp }
  else r

/-- `growFrom` with a first slice of 8 slots. -/
def grow (r : Ring α) : Ring α := r.growFrom 3

variable (e : Nat)

lemma growFrom_n : (r.growFrom e).n = r.n := by
  unfold growFrom; split <;> rfl

lemma growFrom_room : (r.growFrom e).n < (r.growFrom e).s.length := by
  unfold growFrom
  split
  · have he := Nat.two_pow_pos e
    simp only [length_append, length_toList, length_replicate]
    omega
  · have := r.n_le
    omega

@[simp] lemma toList_growFrom : (r.growFrom e).toList = r.toList := by
  apply ext_getElem?
  intro i
  by_cases hi : i < r.n
  · rw [getElem?_toList _ (by rw [growFrom_n]; exact hi), getElem?_toList _ hi]
    unfold growFrom
    split
    next h =>
      -- in the new slice the element stands at its own position
      have hlen : i < (r.toList ++
          List.replicate (max (2 ^ e) (2 * r.s.length) - r.n) default).length := by simp; omega
      congr 1
      rw [get, index_eq _ hlen]
      simp only [Nat.zero_add, hlen, if_true, getD_eq_getElem?_getD]
      rw [getElem?_append_left (by simpa using hi), getElem?_toList _ hi, Option.getD_some]
    · rfl
  · rw [getElem?_eq_none (by simp [growFrom_n]; omega), getElem?_eq_none (by simp; omega)]

/-- Write the slot of element `i`. -/
def set (r : Ring α) (i : Nat) (x : α) : Ring α :=
  { s := r.s.set (r.index i) x
    head := r.head
    n := r.n
    pow2 := by simpa using r.pow2
    head_lt := by simpa using r.head_lt
    n_le := by simpa using r.n_le }

lemma get_set {i j : Nat} (x : α) (hi : i < r.s.length) (hj : j < r.s.length) :
    (r.set i x).get j = if i = j then x else r.get j := by
  have hidx : (r.set i x).index j = r.index j := by simp [index, set]
  rw [get, hidx]
  simp only [set, get, getD_eq_getElem?_getD, getElem?_set]
  by_cases h : i = j
  · subst h
    simp [index_lt r hi]
  · have : r.index i ≠ r.index j := fun hc => h (index_inj r hi hj hc)
    simp [h, this]

lemma toList_set (x : α) (hi : i < r.n) :
    (r.set i x).toList = r.toList.set i x := by
  have hle := r.n_le
  apply ext_getElem?
  intro j
  rw [getElem?_set, length_toList]
  by_cases hj : j < r.n
  · have hj' : j < (r.set i x).n := hj
    rw [getElem?_toList _ hj', getElem?_toList _ hj, r.get_set x (by omega) (by omega)]
    split <;> simp_all
  · rw [getElem?_eq_none (by rw [length_toList]; exact Nat.le_of_not_lt hj)]
    rw [if_neg (by omega), getElem?_eq_none (by rw [length_toList]; omega)]

/-- A slice with a slot behind the last element. -/
def room (r : Ring α) (h : r.n < r.s.length) : Ring α := { r with n := r.n + 1, n_le := h }

lemma toList_room (h : r.n < r.s.length) :
    (r.room h).toList = r.toList ++ [r.get r.n] := by
  have hn : (r.room h).n = r.n + 1 := rfl
  rw [toList, hn, range_succ, map_append]
  rfl

/-- Append `x`, doubling the slice first when it is full. -/
def push (r : Ring α) (x : α) : Ring α :=
  { r.grow.set r.grow.n x with
    n := r.grow.n + 1
    n_le := by
      have := r.growFrom_room 3
      simp only [set, length_set]
      exact this }

@[simp] lemma toList_push (x : α) : (r.push x).toList = r.toList ++ [x] := by
  have hroom : r.grow.n < r.grow.s.length := r.growFrom_room 3
  have hset := (r.grow.room hroom).toList_set x (Nat.lt_succ_self r.grow.n)
  rw [toList_room, set_append_right _ _ (by rw [length_toList]), length_toList,
    Nat.sub_self] at hset
  exact hset.trans (congrArg (· ++ [x]) (r.toList_growFrom 3))

/-! ### Pop and the back element -/

/-- Remove the front element, clearing its slot. -/
def popFront (r : Ring α) : α × Ring α :=
  (r.s.getD r.head default,
    { s := r.s.set r.head default
      head := (r.head + 1) &&& (r.s.length - 1)
      n := r.n - 1
      pow2 := by simpa using r.pow2
      head_lt := by
        rw [length_set]
        rcases r.pow2 with h0 | hp
        · exact .inl h0
        right
        rw [and_pred_eq_mod hp]
        obtain ⟨k, hk⟩ := hp
        exact Nat.mod_lt _ (by rw [hk]; exact Nat.two_pow_pos k)
      n_le := by
        rw [length_set]
        have := r.n_le
        omega })

lemma popFront_eq (h : 0 < r.n) : r.toList = r.popFront.1 :: r.popFront.2.toList := by
  have hlen : 0 < r.s.length := lt_of_lt_of_le h r.n_le
  have hhead : r.head < r.s.length := r.head_lt.resolve_left (by omega)
  obtain ⟨m, hm⟩ : ∃ m, r.n = m + 1 := ⟨r.n - 1, by omega⟩
  have hidx0 : r.index 0 = r.head := by rw [index_eq r hlen]; simp [hhead]
  have hget : ∀ i, i < m → r.popFront.2.get i = r.get (i + 1) := by
    intro i hi
    have hn := r.n_le
    have hpi : r.popFront.2.index i = r.index (i + 1) := by
      have hp : ∃ k, r.s.length = 2 ^ k := r.pow2.resolve_left (by omega)
      simp only [index, popFront, length_set, and_pred_eq_mod hp]
      rw [Nat.mod_add_mod]
      congr 1
      omega
    have hne : r.head ≠ r.index (i + 1) := by
      rw [← hidx0]
      intro hc
      have := index_inj r hlen (by omega) hc
      omega
    rw [get, hpi]
    simp [popFront, get, getElem?_set_ne hne]
  have hn2 : r.popFront.2.n = m := by simp only [popFront]; omega
  rw [toList, hm, range_succ_eq_map, map_cons, map_map, toList, hn2]
  congr 1
  · rw [get, hidx0]; rfl
  apply map_congr_left
  intro i hi
  rw [mem_range] at hi
  rw [hget i hi]; rfl

/-- The element a pop returns is the one at position 0. -/
lemma popFront_fst (h : 0 < r.n) : r.popFront.1 = r.get 0 := by
  have h1 := r.getElem?_toList h
  rw [popFront_eq r h, getElem?_cons_zero] at h1
  exact Option.some.inj h1

lemma popFront_n : r.popFront.2.n = r.n - 1 := rfl

/-- Overwrite the last element. -/
def setBack (r : Ring α) (x : α) : Ring α := r.set (r.n - 1) x

lemma toList_eq_dropLast_back (h : 0 < r.n) : r.toList = r.toList.dropLast ++ [r.back] := by
  obtain ⟨m, hm⟩ : ∃ m, r.n = m + 1 := ⟨r.n - 1, by omega⟩
  simp [toList, back, hm, range_succ]

lemma toList_setBack (x : α) (h : 0 < r.n) : (r.setBack x).toList = r.toList.dropLast ++ [x] := by
  have hlen : r.toList.dropLast.length = r.n - 1 := by rw [length_dropLast, length_toList]
  rw [setBack, toList_set r x (by omega), toList_eq_dropLast_back r h]
  rw [set_append_right _ _ (le_of_eq hlen), hlen, Nat.sub_self, dropLast_concat]
  rfl

end Ring

/-! ### Windows over a fixed array -/

section Cyclic

variable (s : Nat → α) {w h n : Nat} (x : α)

/-- The `n` slots from `h` on of an array of `w` slots read cyclically. -/
def cyclic (s : Nat → α) (w h n : Nat) : List α := (range n).map fun i => s ((h + i) % w)

@[simp] lemma length_cyclic : (cyclic s w h n).length = n := by simp [cyclic]

/-- Moving the start by `e` slots drops the first `e` entries. -/
lemma cyclic_drop (e : Nat) : (cyclic s w h (e + n)).drop e = cyclic s w ((h + e) % w) n := by
  apply ext_getElem
  · rw [length_drop, length_cyclic, length_cyclic, Nat.add_sub_cancel_left]
  intro i _ _
  simp only [cyclic, getElem_drop, getElem_map, getElem_range]
  rw [Nat.mod_add_mod, Nat.add_assoc]

/-- Less than one turn apart, two offsets are different slots. -/
lemma cyclic_set {j : Nat} (hj : j < w) (hn : n ≤ w) :
    cyclic (Function.update s ((h + j) % w) x) w h n = (cyclic s w h n).set j x := by
  apply ext_getElem
  · simp
  intro i hi _
  rw [length_cyclic] at hi
  have hslot : (h + i) % w = (h + j) % w ↔ j = i := by
    constructor
    · intro heq
      have hmod : i ≡ j [MOD w] := Nat.ModEq.add_left_cancel' h heq
      exact (hmod.eq_of_lt_of_lt (lt_of_lt_of_le hi hn) hj).symm
    · rintro rfl
      rfl
  simp only [cyclic, getElem_set, getElem_map, getElem_range, Function.update_apply, hslot]

lemma cyclic_succ : cyclic s w h (n + 1) = cyclic s w h n ++ [s ((h + n) % w)] := by
  simp [cyclic, range_succ]

/-- Writing the next free slot appends. -/
lemma cyclic_push (hn : n < w) :
    cyclic (Function.update s ((h + n) % w) x) w h (n + 1) = cyclic s w h n ++ [x] := by
  rw [cyclic_succ, cyclic_set s x hn hn.le, Function.update_self, set_eq_of_length_le (by simp)]

/-- Writing the first slot of a full window and moving the start on replaces its first entry. -/
lemma cyclic_wrap (hh : h < w) :
    cyclic (Function.update s h x) w ((h + 1) % w) w = (cyclic s w h w).tail ++ [x] := by
  have hset := cyclic_set (h := h) (n := w) s x (Nat.zero_lt_of_lt hh) le_rfl
  rw [Nat.add_zero, Nat.mod_eq_of_lt hh] at hset
  rw [← cyclic_drop, Nat.add_comm 1, cyclic_succ, hset, Nat.add_mod_right, Nat.mod_eq_of_lt hh,
    Function.update_self, drop_one, tail_append_of_ne_nil]
  · cases cyclic s w h w <;> rfl
  intro hnil
  have hlen := congrArg List.length hnil
  rw [length_set, length_cyclic] at hlen
  exact absurd hlen (Nat.ne_of_gt (Nat.zero_lt_of_lt hh))

end Cyclic

end Rendr

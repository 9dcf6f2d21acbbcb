import Mathlib.Tactic

/-!
# Serial-number arithmetic

Counters of 32 bits that wrap, compared by the sign of their difference (RFC 1982). A proof works
with the unbounded index a counter stands for; `wrap` is the counter of an index, and as long as
two indices are less than `2 ^ 31` apart the comparison of their counters is the comparison of the
indices.
-/

namespace Rendr

/-- The signed reading of a 32-bit word. -/
def int32 (x : UInt32) : Int :=
  if x.toNat < 2 ^ 31 then x.toNat else (x.toNat : Int) - 2 ^ 32

/-- `SeqLess`: `a < b` in serial-number arithmetic. -/
def seqLess (a b : UInt32) : Bool := a ≠ b ∧ 0 < int32 (b - a)

/-- The counter of an index. -/
def wrap (n : Nat) : UInt32 := UInt32.ofNat n

@[simp] lemma toNat_wrap (n : Nat) : (wrap n).toNat = n % 2 ^ 32 := UInt32.toNat_ofNat'

@[simp] lemma wrap_toNat (x : UInt32) : wrap x.toNat = x := UInt32.ofNat_toNat

lemma wrap_add (n k : Nat) : wrap n + UInt32.ofNat k = wrap (n + k) := by
  apply UInt32.toNat_inj.mp
  rw [UInt32.toNat_add, toNat_wrap, toNat_wrap, UInt32.toNat_ofNat']
  omega

lemma wrap_succ (n : Nat) : wrap n + 1 = wrap (n + 1) := wrap_add n 1

lemma wrap_pred {n : Nat} (h : 1 ≤ n) : wrap n - 1 = wrap (n - 1) := by
  apply UInt32.toNat_inj.mp
  rw [UInt32.toNat_sub, toNat_wrap, toNat_wrap]
  have h1 : (1 : UInt32).toNat = 1 := rfl
  rw [h1]
  omega

variable {a b : Nat}

/-- The difference of two counters is the difference of their indices. -/
lemma int32_wrap_sub (h1 : a < b + 2 ^ 31) (h2 : b ≤ a + 2 ^ 31) :
    int32 (wrap a - wrap b) = (a : Int) - b := by
  have hn : (wrap a - wrap b).toNat = (2 ^ 32 - b % 2 ^ 32 + a % 2 ^ 32) % 2 ^ 32 := by
    rw [UInt32.toNat_sub, toNat_wrap, toNat_wrap]
  rw [int32, hn]
  split_ifs with h <;> omega

/-- The unsigned difference of two counters, the first ahead. -/
lemma toNat_wrap_sub (h1 : b ≤ a) (h2 : a < b + 2 ^ 32) : (wrap a - wrap b).toNat = a - b := by
  rw [UInt32.toNat_sub, toNat_wrap, toNat_wrap]
  omega

lemma wrap_eq_iff (h1 : a < b + 2 ^ 32) (h2 : b < a + 2 ^ 32) : wrap a = wrap b ↔ a = b := by
  rw [← UInt32.toNat_inj, toNat_wrap, toNat_wrap]
  omega

/-- Serial order is the order of the indices. -/
lemma seqLess_wrap (h1 : a < b + 2 ^ 31) (h2 : b < a + 2 ^ 31) :
    seqLess (wrap a) (wrap b) = decide (a < b) := by
  unfold seqLess
  rw [int32_wrap_sub (by omega) (by omega)]
  rw [decide_eq_decide, ne_eq, wrap_eq_iff (by omega) (by omega)]
  omega

lemma wrap_toNat_mod {k n : Nat} (hk : k ∣ 2 ^ 32) : (wrap n).toNat % k = n % k := by
  rw [toNat_wrap, Nat.mod_mod_of_dvd _ hk]

end Rendr

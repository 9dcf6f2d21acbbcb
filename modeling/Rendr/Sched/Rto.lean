import Mathlib.Tactic

/-!
# Retransmission timers

`RTOWithin`, `RTOBackoffWithin` and `RTTVar` form neither their sum nor their product. Every
operation of the code that could leave int64 is written with `int64`, which is `none` there.

* `rto_exact` — each returns the exact value over the integers, and no operation overflows.
-/

namespace Rendr.Rto

/-- The values of an int64. -/
def InInt64 (x : Int) : Prop := -2 ^ 63 ≤ x ∧ x < 2 ^ 63

instance (x : Int) : Decidable (InInt64 x) := inferInstanceAs (Decidable (_ ∧ _))

/-- The result of an operation, if it does not overflow. -/
def int64 (x : Int) : Option Int := if InInt64 x then some x else none

lemma int64_some {x : Int} (h : InInt64 x) : int64 x = some x := if_pos h

/-- `RTOWithin`; `/` of Go is `tdiv`. -/
def rtoWithin (srtt rttvar : Int) (sampled : Bool) (initial lo hi : Int) : Option Int :=
  if !sampled then some initial
  else
    let srtt := max srtt 0
    let rttvar := max rttvar 0
    if hi ≤ srtt then some hi
    else do
      let room ← int64 (hi - srtt)
      if room.tdiv 4 < rttvar then return hi
      let four ← int64 (4 * rttvar)
      let sum ← int64 (srtt + four)
      return min (max sum lo) hi

/-- `RTOBackoffWithin`; a shift to the right rounds down. -/
def rtoBackoffWithin (rto n hi : Int) : Option Int :=
  if rto ≤ 0 then some rto
  else
    let n := (if n < 0 then 0 else n).toNat
    if hi >>> n < rto then some hi else int64 (rto * 2 ^ n)

/-- `RTTVar`; `/` and `%` of Go are `tdiv` and `tmod`. -/
def rttVar (rttvar srtt rtt : Int) (first : Bool) : Option Int :=
  let rtt := max rtt 0
  if first then some (rtt.tdiv 2)
  else do
    let rttvar := max rttvar 0
    let srtt := max srtt 0
    let d ← int64 (srtt - rtt)
    let d ← (if d < 0 then int64 (-d) else some d)
    let whole ← int64 (3 * rttvar.tdiv 4)
    let sum ← int64 (whole + d.tdiv 4)
    let three ← int64 (3 * rttvar.tmod 4)
    let rest ← int64 (three + d.tmod 4)
    int64 (sum + rest.tdiv 4)

variable {srtt rttvar rtt lo hi : Int}

lemma rtoWithin_exact (hs : InInt64 srtt) (hhi : InInt64 hi) (hle : lo ≤ hi) (initial : Int) :
    rtoWithin srtt rttvar true initial lo hi =
      some (min (max (max srtt 0 + 4 * max rttvar 0) lo) hi) := by
  unfold rtoWithin InInt64 at *
  simp only [Bool.not_true, Bool.false_eq_true, if_false]
  have h0 := le_max_right srtt 0
  have h1 := le_max_right rttvar 0
  have hmax : max srtt 0 < 2 ^ 63 := max_lt hs.2 (by norm_num)
  generalize max srtt 0 = a at *
  generalize max rttvar 0 = b at *
  split
  · rw [min_eq_right (le_max_of_le_left (by omega))]
  next hlt =>
  rw [int64_some ⟨by omega, by omega⟩]
  show (if (hi - a).tdiv 4 < b then some hi else _) = _
  rw [Int.tdiv_eq_ediv_of_nonneg (by omega)]
  split
  · -- `4 · rttvar` exceeds what is left of the cap
    rw [min_eq_right (le_max_of_le_left (by omega))]
  rw [int64_some ⟨by omega, by omega⟩]
  show (int64 (a + 4 * b) >>= _) = _
  rw [int64_some ⟨by omega, by omega⟩]
  rfl

lemma rtoBackoffWithin_exact {rto : Int} (hr : 0 < rto) (hhi : InInt64 hi) (n : Int) :
    rtoBackoffWithin rto n hi = some (min (rto * 2 ^ (max n 0).toNat) hi) := by
  have hn : (if n < 0 then 0 else n).toNat = (max n 0).toNat := by
    split <;> omega
  unfold rtoBackoffWithin
  rw [if_neg (by omega)]
  simp only [hn, Int.shiftRight_eq_div_pow]
  have hpow : (0 : Int) < 2 ^ (max n 0).toNat := by positivity
  have hcast : ((2 ^ (max n 0).toNat : Nat) : Int) = 2 ^ (max n 0).toNat := by push_cast; rfl
  rw [hcast]
  split
  next h => rw [min_eq_right (le_of_lt ((Int.ediv_lt_iff_lt_mul hpow).mp h))]
  next h =>
  have hle : rto * 2 ^ (max n 0).toNat ≤ hi := (Int.le_ediv_iff_mul_le hpow).mp (not_lt.mp h)
  have hpos := Int.mul_pos hr hpow
  rw [min_eq_left hle]
  unfold InInt64 at hhi
  exact int64_some ⟨by omega, by omega⟩

lemma rttVar_exact (hv : InInt64 rttvar) (hs : InInt64 srtt) (hr : InInt64 rtt) (first : Bool) :
    rttVar rttvar srtt rtt first = some (if first then max rtt 0 / 2
      else (3 * max rttvar 0 + |max srtt 0 - max rtt 0|) / 4) := by
  unfold rttVar InInt64 at *
  have bound : ∀ {x : Int}, x < 2 ^ 63 → 0 ≤ max x 0 ∧ max x 0 < 2 ^ 63 := fun h =>
    ⟨le_max_right _ _, max_lt h (by norm_num)⟩
  have h1 := bound hv.2
  have h2 := bound hs.2
  have h3 := bound hr.2
  generalize max rttvar 0 = v at *
  generalize max srtt 0 = a at *
  generalize max rtt 0 = b at *
  cases first with
  | true => exact congrArg some (Int.tdiv_eq_ediv_of_nonneg h3.1)
  | false =>
    simp only [Bool.false_eq_true, if_false]
    rw [int64_some ⟨by omega, by omega⟩]
    -- the deviation, made non-negative
    have hd : (if a - b < 0 then int64 (-(a - b)) else some (a - b)) = some |a - b| := by
      split
      next h => rw [abs_of_neg h, int64_some ⟨by omega, by omega⟩]
      next h => rw [abs_of_nonneg (not_lt.mp h)]
    have hd1 : |a - b| < 2 ^ 63 := abs_lt.mpr ⟨by omega, by omega⟩
    have hd0 := abs_nonneg (a - b)
    simp only [Option.bind_eq_bind, Option.bind_some]
    rw [hd]
    generalize |a - b| = d at hd0 hd1
    simp only [Option.bind_some, Int.tdiv_eq_ediv_of_nonneg h1.1, Int.tdiv_eq_ediv_of_nonneg hd0,
      Int.tmod_eq_emod_of_nonneg h1.1, Int.tmod_eq_emod_of_nonneg hd0]
    rw [int64_some ⟨by omega, by omega⟩, Option.bind_some, int64_some ⟨by omega, by omega⟩,
      Option.bind_some, int64_some ⟨by omega, by omega⟩, Option.bind_some,
      int64_some ⟨by omega, by omega⟩, Option.bind_some,
      Int.tdiv_eq_ediv_of_nonneg (by omega), int64_some ⟨by omega, by omega⟩]
    congr 1
    omega

/-- **Retransmission timers are exact**: for all int64 arguments each formula returns its value
over the integers, so no operation on the way overflowed. -/
theorem rto_exact (srtt rttvar rtt lo hi n rto : Int) (hs : InInt64 srtt) (hv : InInt64 rttvar)
    (hr : InInt64 rtt) (hhi : InInt64 hi) :
    (∀ initial, lo ≤ hi → rtoWithin srtt rttvar true initial lo hi =
        some (min (max (max srtt 0 + 4 * max rttvar 0) lo) hi)) ∧
      (0 < rto → rtoBackoffWithin rto n hi = some (min (rto * 2 ^ (max n 0).toNat) hi)) ∧
      rttVar rttvar srtt rtt false =
        some ((3 * max rttvar 0 + |max srtt 0 - max rtt 0|) / 4) ∧
      rttVar rttvar srtt rtt true = some (max rtt 0 / 2) :=
  ⟨fun initial hle => rtoWithin_exact hs hhi hle initial,
    fun hrto => rtoBackoffWithin_exact hrto hhi n, rttVar_exact hv hs hr false,
    rttVar_exact hv hs hr true⟩

/-- The greatest sample against the greatest cap. -/
theorem rto_exact_greatest :
    rtoWithin (2 ^ 63 - 1) (2 ^ 63 - 1) true 0 0 (2 ^ 63 - 1) = some (2 ^ 63 - 1) ∧
      rttVar (2 ^ 63 - 1) 0 (2 ^ 63 - 1) false = some (2 ^ 63 - 1) := by
  have h : InInt64 (2 ^ 63 - 1) := by decide
  obtain ⟨h1, -, h3, -⟩ := rto_exact (2 ^ 63 - 1) (2 ^ 63 - 1) (2 ^ 63 - 1) 0 (2 ^ 63 - 1) 0 1 h h h h
  obtain ⟨-, -, h4, -⟩ := rto_exact 0 (2 ^ 63 - 1) (2 ^ 63 - 1) 0 (2 ^ 63 - 1) 0 1 (by decide) h h h
  exact ⟨(h1 0 (by decide)).trans (by decide), h4.trans (by decide)⟩

end Rendr.Rto

import Mathlib

/-!
# Single precision

The arithmetic of `float`, on exact numbers: each operation rounds to the nearest number with 24 binary digits, and to
the even one of two that are as near.  Exponents are not bounded, so the numbers are those of `float` as long as they
are neither subnormal nor too large for it.

* `roundEven`, `toSingle` — rounding to an integer, and to a `float`;
* `toInt` — the conversion to `int`, which cuts off the fraction;
* `le_toSingle`, `toSingle_le` — **no integer is passed in rounding**;
* `abs_toSingle_sub_le` — how far rounding goes.
-/

namespace CLib

/-- The nearest integer, and of two the even one. -/
def roundEven (x : ℚ) : ℤ :=
  if x - ⌊x⌋ < 1 / 2 then ⌊x⌋ else if 1 / 2 < x - ⌊x⌋ then ⌊x⌋ + 1 else if ⌊x⌋ % 2 = 0 then ⌊x⌋ else ⌊x⌋ + 1

/-- What the last of 24 binary digits counts. -/
def lastDigit (x : ℚ) : ℚ := 2 ^ (Int.log 2 |x| - 23)

/-- The nearest `float`. -/
def toSingle (x : ℚ) : ℚ := roundEven (x / lastDigit x) * lastDigit x

/-- The conversion of a `float` to `int`; what does not fit is the least `int`, as the processor has it. -/
def toInt (x : ℚ) : ℤ :=
  let n := if 0 ≤ x then ⌊x⌋ else ⌈x⌉
  if -2 ^ 31 ≤ n ∧ n < 2 ^ 31 then n else -2 ^ 31

variable {x : ℚ} {n : ℤ}

theorem lastDigit_pos (x : ℚ) : 0 < lastDigit x := zpow_pos (by norm_num) _

theorem le_roundEven (h : (n : ℚ) ≤ x) : n ≤ roundEven x := by
  have hfloor : n ≤ ⌊x⌋ := Int.le_floor.mpr h
  unfold roundEven
  split_ifs <;> omega

theorem roundEven_le (h : x ≤ n) : roundEven x ≤ n := by
  rcases h.eq_or_lt with rfl | hlt
  · unfold roundEven
    rw [Int.floor_intCast, sub_self, if_pos (by norm_num)]
  · have hfloor : ⌊x⌋ < n := Int.floor_lt.mpr hlt
    unfold roundEven
    split_ifs <;> omega

/-- Rounding goes no further than a half. -/
theorem abs_roundEven_sub_le (x : ℚ) : |(roundEven x : ℚ) - x| ≤ 1 / 2 := by
  have hlo := Int.floor_le x
  have hhi := Int.lt_floor_add_one x
  rw [abs_le]
  unfold roundEven
  split_ifs <;> push_cast <;> constructor <;> linarith

theorem toSingle_zero : toSingle 0 = 0 := by
  unfold toSingle
  rw [zero_div]
  have hzero : roundEven 0 = 0 := by
    unfold roundEven
    norm_num
  rw [hzero, Int.cast_zero, zero_mul]

/-- Rounding changes a number by no more than a part in 2 ^ 24. -/
theorem abs_toSingle_sub_le (x : ℚ) : |toSingle x - x| ≤ |x| / 2 ^ 24 := by
  rcases eq_or_ne x 0 with rfl | hx
  · rw [toSingle_zero, sub_self, abs_zero, zero_div]
  have hpos := lastDigit_pos x
  have hround := abs_roundEven_sub_le (x / lastDigit x)
  have hdigit : lastDigit x ≤ |x| / 2 ^ 23 := by
    have hlog := Int.zpow_log_le_self (b := 2) (by norm_num) (abs_pos.mpr hx)
    unfold lastDigit
    rw [zpow_sub₀ (by norm_num : (2 : ℚ) ≠ 0)]
    exact div_le_div_of_nonneg_right hlog (by norm_num)
  have hscale : toSingle x - x = ((roundEven (x / lastDigit x) : ℚ) - x / lastDigit x) * lastDigit x := by
    unfold toSingle
    rw [sub_mul, div_mul_cancel₀ _ hpos.ne']
  rw [hscale, abs_mul, abs_of_pos hpos]
  calc |(roundEven (x / lastDigit x) : ℚ) - x / lastDigit x| * lastDigit x
      ≤ 1 / 2 * (|x| / 2 ^ 23) := mul_le_mul hround hdigit hpos.le (by norm_num)
    _ = |x| / 2 ^ 24 := by ring

/-- Below 2 ^ 24, an integer is a whole number of last digits. -/
theorem div_lastDigit (hx : |x| < 2 ^ 24) (n : ℤ) : ∃ k : ℤ, (n : ℚ) / lastDigit x = k := by
  have hlog : Int.log 2 |x| ≤ 23 := by
    rcases eq_or_ne x 0 with rfl | hne
    · rw [abs_zero, Int.log_zero_right]
      norm_num
    · have hlt := (Int.lt_zpow_iff_log_lt (b := 2) (by norm_num) (abs_pos.mpr hne) (x := 24)).mp (by exact_mod_cast hx)
      omega
  obtain ⟨m, hm⟩ := Int.eq_ofNat_of_zero_le (show 0 ≤ 23 - Int.log 2 |x| by omega)
  refine ⟨n * 2 ^ m, ?_⟩
  have hdigit : lastDigit x = ((2 : ℚ) ^ m)⁻¹ := by
    unfold lastDigit
    rw [show Int.log 2 |x| - 23 = -(m : ℤ) by omega, zpow_neg, zpow_natCast]
  rw [hdigit, div_inv_eq_mul]
  push_cast
  rfl

/-- **No integer is passed** by rounding up. -/
theorem le_toSingle (hx : |x| < 2 ^ 24) (h : (n : ℚ) ≤ x) : (n : ℚ) ≤ toSingle x := by
  have hpos := lastDigit_pos x
  obtain ⟨k, hk⟩ := div_lastDigit hx n
  have hle : (k : ℚ) ≤ x / lastDigit x := by
    rw [← hk]
    exact div_le_div_of_nonneg_right h hpos.le
  have hround : (k : ℚ) ≤ roundEven (x / lastDigit x) := by exact_mod_cast le_roundEven hle
  calc (n : ℚ) = k * lastDigit x := by rw [← hk, div_mul_cancel₀ _ hpos.ne']
    _ ≤ toSingle x := mul_le_mul_of_nonneg_right hround hpos.le

/-- **No integer is passed** by rounding down. -/
theorem toSingle_le (hx : |x| < 2 ^ 24) (h : x ≤ n) : toSingle x ≤ n := by
  have hpos := lastDigit_pos x
  obtain ⟨k, hk⟩ := div_lastDigit hx n
  have hle : x / lastDigit x ≤ k := by
    rw [← hk]
    exact div_le_div_of_nonneg_right h hpos.le
  have hround : (roundEven (x / lastDigit x) : ℚ) ≤ k := by exact_mod_cast roundEven_le hle
  calc toSingle x ≤ k * lastDigit x := mul_le_mul_of_nonneg_right hround hpos.le
    _ = n := by rw [← hk, div_mul_cancel₀ _ hpos.ne']

/-- An integer below 2 ^ 24 is a `float`. -/
theorem toSingle_int (hn : |n| < 2 ^ 24) : toSingle n = n := by
  have hx : |(n : ℚ)| < 2 ^ 24 := by exact_mod_cast hn
  exact le_antisymm (toSingle_le hx le_rfl) (le_toSingle hx le_rfl)

/-- What fits into an `int` loses its fraction. -/
theorem toInt_eq (hx : |x| < 2 ^ 31) : toInt x = if 0 ≤ x then ⌊x⌋ else ⌈x⌉ := by
  obtain ⟨hlo, hhi⟩ := abs_lt.mp hx
  have hfits : -2 ^ 31 ≤ (if 0 ≤ x then ⌊x⌋ else ⌈x⌉) ∧ (if 0 ≤ x then ⌊x⌋ else ⌈x⌉) < 2 ^ 31 := by
    split_ifs with h
    · exact ⟨le_trans (by norm_num) (Int.floor_nonneg.mpr h), Int.floor_lt.mpr (by exact_mod_cast hhi)⟩
    · have hneg : ⌈x⌉ ≤ 0 := Int.ceil_le.mpr (by rw [Int.cast_zero]; exact (not_le.mp h).le)
      refine ⟨Int.le_ceil_iff.mpr ?_, lt_of_le_of_lt hneg (by norm_num)⟩
      push_cast
      linarith
  unfold toInt
  dsimp only
  rw [if_pos hfits]

/-- A bound that is passed by the conversion to `int` is negative, or zero. -/
theorem le_toInt (hx : |x| < 2 ^ 31) (h : (n : ℚ) ≤ x ∨ n ≤ 0 ∧ (n : ℚ) - 1 < x) : n ≤ toInt x := by
  rw [toInt_eq hx]
  split_ifs with hpos
  · rcases h with hle | ⟨hneg, -⟩
    · exact Int.le_floor.mpr hle
    · exact hneg.trans (Int.floor_nonneg.mpr hpos)
  · rw [Int.le_ceil_iff]
    rcases h with hle | ⟨-, hlt⟩
    · linarith
    · exact hlt

theorem toInt_le (hx : |x| < 2 ^ 31) (h : x ≤ n ∨ 0 ≤ n ∧ x < n + 1) : toInt x ≤ n := by
  rw [toInt_eq hx]
  split_ifs with hpos
  · rw [← Int.lt_add_one_iff, Int.floor_lt]
    push_cast
    rcases h with hle | ⟨-, hlt⟩
    · linarith
    · exact hlt
  · rw [Int.ceil_le]
    rcases h with hle | ⟨hn, -⟩
    · exact hle
    · have hcast : (0 : ℚ) ≤ n := by exact_mod_cast hn
      linarith

end CLib

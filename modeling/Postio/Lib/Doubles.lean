import Mathlib.Algebra.Order.Floor.Ring
import Mathlib.Data.Int.Log
import Mathlib.Data.Rat.Floor
import Mathlib.Tactic.Linarith
import Mathlib.Tactic.NormNum
import Mathlib.Tactic.Positivity
import Mathlib.Tactic.FieldSimp
import Mathlib.Tactic.Ring

set_option autoImplicit false

namespace Postio.Doubles

/-! Rounding to the doubles, as far as non-negative numbers of ordinary size need it. -/

variable (value : ℚ)

def IsDouble : Prop := ∃ (digits : ℕ) (scale : ℤ), digits < 2 ^ 53 ∧ value = digits * (2 : ℚ) ^ scale

def roundEven : ℤ :=
  if value - ⌊value⌋ < 1 / 2 then ⌊value⌋
  else if 1 / 2 < value - ⌊value⌋ then ⌊value⌋ + 1
  else if ⌊value⌋ % 2 = 0 then ⌊value⌋ else ⌊value⌋ + 1

def scaleOf : ℤ := Int.log 2 value - 52

def nearest : ℚ :=
  if value = 0 then 0 else roundEven (value / (2 : ℚ) ^ scaleOf value) * (2 : ℚ) ^ scaleOf value

def round : ℤ := ⌊value + 1 / 2⌋

theorem roundEven_int (value : ℤ) : roundEven value = value := by
  unfold roundEven
  rw [Int.floor_intCast, sub_self, if_pos (by norm_num)]

theorem round_int (value : ℤ) : round value = value := by
  unfold round
  rw [Int.floor_eq_iff]
  constructor <;> linarith

theorem roundEven_bounds : ⌊value⌋ ≤ roundEven value ∧ roundEven value ≤ ⌊value⌋ + 1 := by
  unfold roundEven
  split
  next => omega
  next =>
    split
    next => omega
    next => split <;> omega

theorem zero_isDouble : IsDouble 0 := ⟨0, 0, by norm_num, by simp⟩

theorem IsDouble.scaled (double : IsDouble value) (scale : ℤ) : IsDouble (value * (2 : ℚ) ^ scale) := by
  obtain ⟨digits, own, small, rfl⟩ := double
  refine ⟨digits, own + scale, small, ?_⟩
  rw [zpow_add₀ (by norm_num), mul_assoc]

theorem unit_positive (scale : ℤ) : (0 : ℚ) < (2 : ℚ) ^ scale := zpow_pos (by norm_num) scale

theorem scaled_bounds (positive : 0 < value) :
    (2 : ℚ) ^ (52 : ℕ) ≤ value / (2 : ℚ) ^ scaleOf value ∧ value / (2 : ℚ) ^ scaleOf value < (2 : ℚ) ^ (53 : ℕ) := by
  have low := Int.zpow_log_le_self (R := ℚ) (b := 2) (by norm_num) positive
  have high := Int.lt_zpow_succ_log_self (R := ℚ) (b := 2) (by norm_num) value
  have unit := unit_positive (scaleOf value)
  push_cast at low high
  constructor
  next =>
    rw [le_div_iff₀ unit, scaleOf, ← zpow_natCast, ← zpow_add₀ (by norm_num)]
    have same : ((52 : ℕ) : ℤ) + (Int.log 2 value - 52) = Int.log 2 value := by push_cast; ring
    rwa [same]
  next =>
    rw [div_lt_iff₀ unit, scaleOf, ← zpow_natCast, ← zpow_add₀ (by norm_num)]
    have same : ((53 : ℕ) : ℤ) + (Int.log 2 value - 52) = Int.log 2 value + 1 := by push_cast; ring
    rwa [same]

theorem nearest_isDouble (positive : 0 ≤ value) : IsDouble (nearest value) := by
  unfold nearest
  by_cases zero : value = 0
  case pos =>
    rw [if_pos zero]
    exact zero_isDouble
  case neg =>
    rw [if_neg zero]
    obtain ⟨low, high⟩ := scaled_bounds value (lt_of_le_of_ne positive (Ne.symm zero))
    obtain ⟨floor, ceiling⟩ := roundEven_bounds (value / (2 : ℚ) ^ scaleOf value)
    have some_digits : (2 : ℤ) ^ 52 ≤ ⌊value / (2 : ℚ) ^ scaleOf value⌋ := by
      rw [Int.le_floor]
      exact_mod_cast low
    have few_digits : ⌊value / (2 : ℚ) ^ scaleOf value⌋ < (2 : ℤ) ^ 53 := by
      rw [Int.floor_lt]
      exact_mod_cast high
    obtain ⟨digits, cast⟩ := Int.eq_ofNat_of_zero_le (show 0 ≤ roundEven (value / (2 : ℚ) ^ scaleOf value) by omega)
    rw [cast] at floor ceiling ⊢
    by_cases full : digits < 2 ^ 53
    case pos => exact ⟨digits, scaleOf value, full, by push_cast; rfl⟩
    case neg =>
      -- Rounded up to the next power of two.
      have top : digits = 2 ^ 53 := by omega
      refine ⟨2 ^ 52, scaleOf value + 1, by norm_num, ?_⟩
      rw [top, zpow_add₀ (by norm_num)]
      push_cast
      ring

theorem nearest_double (double : IsDouble value) : nearest value = value := by
  obtain ⟨digits, scale, small, made⟩ := double
  unfold nearest
  by_cases zero : value = 0
  case pos => rw [if_pos zero, zero]
  case neg =>
    rw [if_neg zero]
    have unit := unit_positive scale
    have positive : 0 < value := by
      rcases Nat.eq_zero_or_pos digits with none | some_digit
      next => exact absurd (by rw [made, none]; simp) zero
      next =>
        rw [made]
        exact mul_pos (by exact_mod_cast some_digit) unit
    have short : value < (2 : ℚ) ^ (scale + 53) := by
      rw [made, zpow_add₀ (by norm_num), mul_comm]
      exact mul_lt_mul_of_pos_left (by exact_mod_cast small) unit
    have below : Int.log 2 value < scale + 53 := by
      rw [← Int.lt_zpow_iff_log_lt (R := ℚ) (b := 2) (by norm_num) positive]
      exact_mod_cast short
    obtain ⟨more, rest⟩ := Int.eq_ofNat_of_zero_le (show 0 ≤ scale - scaleOf value by unfold scaleOf; omega)
    have whole : value / (2 : ℚ) ^ scaleOf value = ((digits * 2 ^ more : ℕ) : ℤ) := by
      have split : scale = more + scaleOf value := by omega
      rw [div_eq_iff (unit_positive _).ne']
      calc value = digits * (2 : ℚ) ^ scale := made
        _ = digits * (2 : ℚ) ^ ((more : ℤ) + scaleOf value) := by rw [← split]
        _ = _ := by
          rw [zpow_add₀ (by norm_num), zpow_natCast]
          push_cast
          ring
    rw [whole, roundEven_int, ← whole, div_mul_cancel₀ _ (unit_positive _).ne']

theorem round_isDouble (positive : 0 ≤ value) (double : IsDouble value) : IsDouble (round value) := by
  obtain ⟨digits, scale, small, made⟩ := double
  rcases le_or_gt 0 scale with whole | broken
  next =>
    obtain ⟨places, rfl⟩ := Int.eq_ofNat_of_zero_le whole
    have integral : value = ((digits * 2 ^ places : ℕ) : ℤ) := by
      rw [made, zpow_natCast]
      push_cast
      ring
    rw [integral, round_int, ← integral]
    exact ⟨digits, places, small, made⟩
  next =>
    have halved : value ≤ digits / 2 := by
      have unit : (2 : ℚ) ^ scale ≤ 1 / 2 := by
        have less := zpow_le_zpow_right₀ (show (1 : ℚ) ≤ 2 by norm_num) (show scale ≤ -1 by omega)
        simpa using less
      have digitsPositive : (0 : ℚ) ≤ digits := Nat.cast_nonneg _
      rw [made]
      nlinarith
    have smallQ : (digits : ℚ) < 2 ^ 53 := by exact_mod_cast small
    have bounds : 0 ≤ round value ∧ round value < 2 ^ 53 := by
      unfold round
      constructor
      next => exact Int.floor_nonneg.mpr (by linarith)
      next =>
        rw [Int.floor_lt]
        push_cast
        linarith
    obtain ⟨count, cast⟩ := Int.eq_ofNat_of_zero_le bounds.1
    rw [cast] at bounds ⊢
    exact ⟨count, 0, by omega, by simp⟩

end Postio.Doubles

import Postio.Lib.Doubles
import Postio.Search.Query
import Mathlib.Data.Nat.Cast.Field

set_option autoImplicit false

namespace Postio.Search

def u64Max : Nat := 18446744073709551615

def sizeSuffixes : List (Text × Nat) :=
  [("".toList, 0), ("b".toList, 0), ("byte".toList, 0), ("bytes".toList, 0), ("k".toList, 10), ("kb".toList, 10),
    ("kib".toList, 10), ("m".toList, 20), ("mb".toList, 20), ("mib".toList, 20), ("g".toList, 30), ("gb".toList, 30),
    ("gib".toList, 30)]

/-- The number digits and dots spell, before it is a double. -/
def decimal (number : Text) : Option ℚ :=
  match Lines.splitOnce '.' number with
  | none => if number.isEmpty then none else some (Nat.ofDigitChars 10 number 0)
  | some (whole, fraction) =>
    if fraction.contains '.' || (whole ++ fraction).isEmpty then none
    else some (Nat.ofDigitChars 10 (whole ++ fraction) 0 / 10 ^ fraction.length)

/-- What a number of bytes is cut to as a `u64`, or that it is none. -/
def wholeBytes (bytes : ℚ) : Option Nat :=
  if 18446744073709551616 < bytes then none else some (min (Doubles.round bytes).toNat u64Max)

variable (value : Text) (bytes : Nat)

def parseSize : Option Nat :=
  let value := Lines.trim value
  let number := value.takeWhile (fun char => char.isDigit || char = '.')
  let suffix := value.drop number.length
  (sizeSuffixes.lookup (asciiLower suffix)).bind (fun power =>
    (decimal number).bind (fun number => wholeBytes (Doubles.nearest number * (2 : ℚ) ^ (power : ℤ))))

def sizeUnits : List (Nat × Char) := [(30, 'G'), (20, 'M'), (10, 'K')]

def spellSize : Text :=
  match sizeUnits.find? (fun unit => bytes ≠ 0 && bytes % 2 ^ unit.1 = 0) with
  | some (power, suffix) => Nat.toDigits 10 (bytes / 2 ^ power) ++ [suffix]
  | none => Nat.toDigits 10 bytes

theorem parseSize_double (read : parseSize value = some bytes) :
    bytes = u64Max ∨ (bytes < u64Max ∧ Doubles.IsDouble bytes) := by
  unfold parseSize at read
  simp only at read
  obtain ⟨power, -, read⟩ := Option.bind_eq_some_iff.mp read
  obtain ⟨number, spelled, read⟩ := Option.bind_eq_some_iff.mp read
  have positive : 0 ≤ number := by
    unfold decimal at spelled
    split at spelled
    next =>
      split at spelled
      next => cases spelled
      next =>
        cases spelled
        exact Nat.cast_nonneg _
    next =>
      split at spelled
      next => cases spelled
      next =>
        cases spelled
        positivity
  have nearestPositive : 0 ≤ Doubles.nearest number := by
    unfold Doubles.nearest
    split
    next => exact le_refl 0
    next other =>
      obtain ⟨low, -⟩ := Doubles.scaled_bounds number (lt_of_le_of_ne positive (Ne.symm other))
      have floor := (Doubles.roundEven_bounds (number / (2 : ℚ) ^ Doubles.scaleOf number)).1
      have some_digits : (0 : ℤ) ≤ ⌊number / (2 : ℚ) ^ Doubles.scaleOf number⌋ := Int.floor_nonneg.mpr
        (le_trans (by positivity) low)
      have digits : (0 : ℚ) ≤ (Doubles.roundEven (number / (2 : ℚ) ^ Doubles.scaleOf number) : ℤ) := by
        exact_mod_cast le_trans some_digits floor
      exact mul_nonneg digits (Doubles.unit_positive _).le
  have double := (Doubles.nearest_isDouble number positive).scaled _ (power : ℤ)
  have product : 0 ≤ Doubles.nearest number * (2 : ℚ) ^ (power : ℤ) :=
    mul_nonneg nearestPositive (Doubles.unit_positive _).le
  generalize Doubles.nearest number * (2 : ℚ) ^ (power : ℤ) = whole at read double product
  unfold wholeBytes at read
  split at read
  next => cases read
  next =>
    cases read
    by_cases most : u64Max ≤ (Doubles.round whole).toNat
    case pos => exact .inl (Nat.min_eq_right most)
    case neg =>
      rw [Nat.min_eq_left (by omega)]
      refine .inr ⟨by omega, ?_⟩
      have rounded := Doubles.round_isDouble whole product double
      have count : ((Doubles.round whole).toNat : ℤ) = Doubles.round whole := by
        have nonneg : 0 ≤ Doubles.round whole := Int.floor_nonneg.mpr (by linarith)
        omega
      have cast : (((Doubles.round whole).toNat : ℕ) : ℚ) = ((Doubles.round whole : ℤ) : ℚ) := by
        exact_mod_cast congrArg (fun value : ℤ => (value : ℚ)) count
      rw [cast]
      exact rounded

theorem parseSize_digits (count power : Nat) (suffix : Text)
    (solid : ∀ char ∈ suffix, Lines.isWhitespace char = false)
    (apart : suffix.head?.all (fun char => !(char.isDigit || char = '.')) = true)
    (known : sizeSuffixes.lookup (asciiLower suffix) = some power) :
    parseSize (Nat.toDigits 10 count ++ suffix) =
      wholeBytes (Doubles.nearest count * (2 : ℚ) ^ (power : ℤ)) := by
  have digits := List.all_eq_true.mp (Lines.digits_of_toDigits count)
  have trimmed : Lines.trim (Nat.toDigits 10 count ++ suffix) = Nat.toDigits 10 count ++ suffix := by
    apply Lines.trim_solid
    intro char inside
    rcases List.mem_append.mp inside with digit | rest
    next => exact Lines.digit_solid char (digits char digit)
    next => exact solid char rest
  have taken : (Nat.toDigits 10 count ++ suffix).takeWhile (fun char => char.isDigit || char = '.') =
      Nat.toDigits 10 count := by
    rw [List.takeWhile_append_of_pos (fun char inside => by rw [digits char inside]; rfl)]
    cases suffix with
    | nil => simp
    | cons first rest =>
      simp only [List.head?_cons, Option.all_some, Bool.not_eq_true'] at apart
      rw [List.takeWhile_cons_of_neg (by simp [apart]), List.append_nil]
  have number : decimal (Nat.toDigits 10 count) = some (count : ℚ) := by
    have dotless : '.' ∉ Nat.toDigits 10 count := Lines.notMem_toDigits '.' (by decide) count
    have filled : (Nat.toDigits 10 count).isEmpty = false := by
      rw [List.isEmpty_eq_false_iff]
      exact Nat.toDigits_ne_nil
    unfold decimal
    rw [Lines.splitOnce_none '.' _ dotless]
    simp only [filled, Bool.false_eq_true, if_false, Nat.ofDigitChars_toDigits (b := 10) (n := count) (by decide) (by decide)]
  unfold parseSize
  simp only [trimmed, taken, List.drop_left, known, number, Option.bind_some]

theorem wholeBytes_self (small : bytes ≤ u64Max) : wholeBytes bytes = some bytes := by
  have below : ¬ (18446744073709551616 : ℚ) < bytes := by
    rw [not_lt]
    exact_mod_cast Nat.le_trans small (show u64Max ≤ 18446744073709551616 by decide)
  have rounded : Doubles.round (bytes : ℚ) = bytes := by
    have whole := Doubles.round_int bytes
    exact_mod_cast whole
  unfold wholeBytes
  rw [if_neg below, rounded, Int.toNat_natCast, Nat.min_eq_left small]

theorem nearest_u64Max : Doubles.nearest (u64Max : ℚ) = 18446744073709551616 := by
  have log : Int.log 2 (u64Max : ℚ) = 63 := by
    rw [Int.log_natCast]
    have digits : Nat.log 2 u64Max = 63 := Nat.log_eq_of_pow_le_of_lt_pow (by decide) (by decide)
    exact_mod_cast digits
  have scale : Doubles.scaleOf (u64Max : ℚ) = (11 : ℕ) := by
    unfold Doubles.scaleOf
    rw [log]
    norm_num
  have floor : ⌊(u64Max : ℚ) / (2 : ℚ) ^ ((11 : ℕ) : ℤ)⌋ = 9007199254740991 := by
    rw [Int.floor_eq_iff]
    unfold u64Max
    norm_num
  unfold Doubles.nearest
  rw [if_neg (by unfold u64Max; norm_num), scale]
  unfold Doubles.roundEven
  rw [floor, if_neg (by unfold u64Max; norm_num), if_pos (by unfold u64Max; norm_num)]
  norm_num

theorem parseSize_spellSize (read : parseSize value = some bytes) :
    parseSize (spellSize bytes) = some bytes := by
  have double := parseSize_double value bytes read
  unfold spellSize
  cases found : sizeUnits.find? (fun unit => bytes ≠ 0 && bytes % 2 ^ unit.1 = 0) with
  | some unit =>
    obtain ⟨power, suffix⟩ := unit
    have divides := List.find?_some found
    have among := List.mem_of_find?_eq_some found
    simp only [ne_eq, decide_not, Bool.and_eq_true, Bool.not_eq_true', decide_eq_false_iff_not, decide_eq_true_eq]
      at divides
    have known : (sizeSuffixes.lookup (asciiLower [suffix]) = some power) ∧ Lines.isWhitespace suffix = false ∧
        (suffix.isDigit || suffix = '.') = false ∧ 1 ≤ power := by
      simp only [sizeUnits, List.mem_cons, Prod.mk.injEq, List.not_mem_nil, or_false] at among
      rcases among with ⟨rfl, rfl⟩ | ⟨rfl, rfl⟩ | ⟨rfl, rfl⟩ <;> decide
    obtain ⟨known, solid, apart, positive⟩ := known
    have even : bytes % 2 = 0 := by
      have two : 2 ∣ 2 ^ power := dvd_pow_self 2 (by omega)
      exact Nat.mod_eq_zero_of_dvd (Nat.dvd_trans two (Nat.dvd_of_mod_eq_zero divides.2))
    obtain ⟨small, double⟩ := double.resolve_left (fun most => by rw [most] at even; exact absurd even (by decide))
    have whole : ((bytes / 2 ^ power : ℕ) : ℚ) = bytes * (2 : ℚ) ^ (-(power : ℤ)) := by
      rw [Nat.cast_div (Nat.dvd_of_mod_eq_zero divides.2) (by positivity), zpow_neg, zpow_natCast]
      push_cast
      rfl
    simp only
    rw [parseSize_digits (bytes / 2 ^ power) power [suffix] (by simpa using solid) (by simpa using apart) known, whole,
      Doubles.nearest_double _ (double.scaled _ _), mul_assoc, ← zpow_add₀ (by norm_num), neg_add_cancel, zpow_zero,
      mul_one, wholeBytes_self bytes (Nat.le_of_lt small)]
  | none =>
    have plain := parseSize_digits bytes 0 [] (by simp) (by simp) (by decide)
    rw [List.append_nil] at plain
    simp only
    rw [plain]
    simp only [Nat.cast_zero, zpow_zero, mul_one]
    rcases double with rfl | ⟨small, double⟩
    next =>
      rw [nearest_u64Max]
      have rounded : Doubles.round (18446744073709551616 : ℚ) = 18446744073709551616 := by
        have whole := Doubles.round_int 18446744073709551616
        exact_mod_cast whole
      unfold wholeBytes
      rw [if_neg (lt_irrefl _), rounded]
      rfl
    next => rw [Doubles.nearest_double _ double, wholeBytes_self bytes (Nat.le_of_lt small)]

end Postio.Search

import Postio.Search.Spelling

set_option autoImplicit false

namespace Postio.Search

/-! Which days are read back from their spelling. -/

theorem padded_digits (width number : Nat) : padded width number ≠ [] ∧ ∀ char ∈ padded width number, char.isDigit = true := by
  have digits := List.all_eq_true.mp (Lines.digits_of_toDigits number)
  constructor
  next =>
    intro empty
    exact Nat.toDigits_ne_nil (List.append_eq_nil_iff.mp empty).2
  next =>
    intro char inside
    rcases List.mem_append.mp inside with inside | inside
    next =>
      obtain rfl := List.eq_of_mem_replicate inside
      decide
    next => exact digits char inside

theorem ofDigitChars_zeros (count : Nat) (digits : Text) :
    Nat.ofDigitChars 10 (List.replicate count '0' ++ digits) 0 = Nat.ofDigitChars 10 digits 0 := by
  induction count with
  | zero => rfl
  | succ count ih =>
    rw [List.replicate_succ, List.cons_append, Nat.ofDigitChars_cons]
    exact ih

theorem parseDecimal_padded (width number : Nat) (small : number < u32) :
    Lines.parseDecimal u32 (padded width number) = some number := by
  obtain ⟨filled, digits⟩ := padded_digits width number
  have value : Nat.ofDigitChars 10 (padded width number) 0 = number := by
    rw [padded, ofDigitChars_zeros, Nat.ofDigitChars_toDigits (by decide) (by decide)]
  unfold Lines.parseDecimal
  split
  next rest same =>
    have plus := digits '+' (by rw [same]; exact List.mem_cons_self)
    exact absurd plus (by decide)
  next =>
    simp only
    rw [if_pos ⟨filled, List.all_eq_true.mpr digits⟩, value, if_pos small]

theorem digit_small (char : Char) (digit : char.isDigit = true) : 48 ≤ char.toNat ∧ char.toNat ≤ 57 :=
  Char.isDigit_iff_toNat.mp digit

theorem toLower_small (char : Char) (small : char.toNat ≤ 57) : char.toLower = char := by
  unfold Char.toLower
  rw [dif_neg]
  rintro ⟨low, -⟩
  have first : 'A'.val.toNat ≤ char.val.toNat := UInt32.le_iff_toNat_le.mp low
  have letter : 'A'.val.toNat = 65 := rfl
  unfold Char.toNat at small
  omega

variable (date : NaiveDate) (unicode : Unicode)

theorem lower_small (lawful : unicode.Lawful) (text : Text) (small : ∀ char ∈ text, char.toNat ≤ 57) :
    text.flatMap unicode.lower = text := by
  induction text with
  | nil => rfl
  | cons char text ih =>
    obtain ⟨first, rest⟩ := List.forall_mem_cons.mp small
    rw [List.flatMap_cons, ih rest, lawful.lower char (by omega), toLower_small char first]
    rfl

/-- A day's year, month and day in digits. -/
structure Parts (date : NaiveDate) (sign year month day : Text) : Prop where
  spelled : spellDate date = sign ++ year ++ '-' :: (month ++ '-' :: day)
  sign : sign = if date.date.year < 0 then ['-'] else if 9999 < date.date.year then ['+'] else []
  yearDigits : year ≠ [] ∧ ∀ char ∈ year, char.isDigit = true
  monthDigits : month ≠ [] ∧ ∀ char ∈ month, char.isDigit = true
  dayDigits : day ≠ [] ∧ ∀ char ∈ day, char.isDigit = true
  yearValue : Lines.parseDecimal u32 year = some date.date.year.natAbs
  monthValue : Lines.parseDecimal u32 month = some date.date.month
  dayValue : Lines.parseDecimal u32 day = some date.date.day

theorem daysIn_le (year : Int) (month : Nat) : Calendar.daysIn year month ≤ 31 := by
  unfold Calendar.daysIn
  split <;> first | omega | (split <;> omega)

theorem spellDate_parts : ∃ sign year month day, Parts date sign year month day := by
  have months := date.date.month_bounds
  have days := Nat.le_trans date.date.valid.2 (daysIn_le _ _)
  have years := date.inRange
  refine ⟨_, padded 4 date.date.year.natAbs, padded 2 date.date.month, padded 2 date.date.day, rfl, rfl, padded_digits _ _,
    padded_digits _ _, padded_digits _ _, parseDecimal_padded _ _ ?_, parseDecimal_padded _ _ ?_, parseDecimal_padded _ _ ?_⟩
  next => unfold u32; omega
  next => unfold u32; omega
  next => unfold u32; omega

/-! ### It is no age -/

theorem stripFront_none (first : Char) (rest text : Text) (other : text.head? ≠ some first) :
    Lines.stripFront (first :: rest) text = none := by
  unfold Lines.stripFront
  rw [if_neg]
  intro front
  obtain ⟨behind, rfl⟩ := List.isPrefixOf_iff_prefix.mp front
  exact other rfl

theorem read_digits (value sign digits : Text) (compacted : Relative.compact unicode value = sign ++ digits)
    (signed : sign = [] ∨ sign = ['+']) (filled : digits ≠ []) (all : ∀ char ∈ digits, char.isDigit = true) :
    Relative.read unicode value = none := by
  have letter : ∀ char : Char, char.isDigit = false → char ≠ '+' → (sign ++ digits).head? ≠ some char := by
    intro char other plus same
    rcases signed with rfl | rfl
    next =>
      have digit := all char (List.mem_of_head? same)
      rw [digit] at other
      cases other
    next => exact plus (by simpa using same.symm)
  have last : ∀ char : Char, char.isDigit = false → (sign ++ digits).reverse.head? ≠ some char := by
    intro char other same
    rw [List.head?_reverse, List.getLast?_append_of_ne_nil _ filled] at same
    have digit := all char (List.mem_of_getLast? same)
    rw [digit] at other
    cases other
  have no_word : ∀ (first : Char) (rest : Text), first.isDigit = false → first ≠ '+' → sign ++ digits ≠ first :: rest := by
    intro first rest other plus same
    exact letter first other plus (by rw [same]; rfl)
  have no_ago : stripSuffix "ago".toList (sign ++ digits) = none := by
    unfold stripSuffix
    have back : "ago".toList.reverse = 'o' :: ['g', 'a'] := by decide
    rw [back, stripFront_none 'o' _ _ (last 'o' (by decide))]
    rfl
  have no_last : Relative.stripLast (sign ++ digits) = sign ++ digits := by
    unfold Relative.stripLast
    have one : "last".toList = 'l' :: ['a', 's', 't'] := by decide
    have two : "past".toList = 'p' :: ['a', 's', 't'] := by decide
    have three : "previous".toList = 'p' :: ['r', 'e', 'v', 'i', 'o', 'u', 's'] := by decide
    rw [one, two, three, stripFront_none 'l' _ _ (letter 'l' (by decide) (by decide)),
      stripFront_none 'p' _ _ (letter 'p' (by decide) (by decide)), stripFront_none 'p' _ _ (letter 'p' (by decide) (by decide))]
    rfl
  have unit : DateUnit.spellings.lookup ((sign ++ digits).drop ((sign ++ digits).takeWhile Char.isDigit).length) = none := by
    rcases signed with rfl | rfl
    next =>
      rw [List.nil_append, List.takeWhile_eq_self_iff.mpr all, List.drop_length]
      decide
    next =>
      rw [List.singleton_append, List.takeWhile_cons_of_neg (by decide)]
      rfl
  unfold Relative.read
  simp only
  rw [compacted, no_ago, Option.getD_none, no_last, unit]
  have today : "today".toList = 't' :: ['o', 'd', 'a', 'y'] := by decide
  have now : "now".toList = 'n' :: ['o', 'w'] := by decide
  have yesterday : "yesterday".toList = 'y' :: ['e', 's', 't', 'e', 'r', 'd', 'a', 'y'] := by decide
  rw [if_neg (by rw [today, now]; exact not_or.mpr ⟨no_word 't' _ (by decide) (by decide), no_word 'n' _ (by decide) (by decide)⟩),
    if_neg (by rw [yesterday]; exact no_word 'y' _ (by decide) (by decide))]
  simp

theorem Parts.read (sign year month day : Text) (parts : Parts date sign year month day) (unicode : Unicode)
    (lawful : unicode.Lawful) : Relative.read unicode (spellDate date) = none := by
  have kept : ∀ digits : Text, (∀ char ∈ digits, char.isDigit = true) →
      digits.filter (fun char => !Lines.isWhitespace char && char ≠ '-' && char ≠ '_') = digits := by
    intro digits all
    rw [List.filter_eq_self]
    intro char inside
    have digit := all char inside
    have solid := Lines.digit_solid char digit
    have no_dash : char ≠ '-' := fun same => absurd digit (by rw [same]; decide)
    have no_line : char ≠ '_' := fun same => absurd digit (by rw [same]; decide)
    simp [solid, no_dash, no_line]
  obtain ⟨mark, marks, signed⟩ : ∃ mark : Text,
      sign.filter (fun char => !Lines.isWhitespace char && char ≠ '-' && char ≠ '_') = mark ∧ (mark = [] ∨ mark = ['+']) := by
    rw [parts.sign]
    split
    next => exact ⟨[], by decide, .inl rfl⟩
    next =>
      split
      next => exact ⟨['+'], by decide, .inr rfl⟩
      next => exact ⟨[], rfl, .inl rfl⟩
  have digits : ∀ char ∈ year ++ (month ++ day), char.isDigit = true := by
    intro char inside
    rcases List.mem_append.mp inside with inside | inside
    next => exact parts.yearDigits.2 char inside
    rcases List.mem_append.mp inside with inside | inside
    next => exact parts.monthDigits.2 char inside
    next => exact parts.dayDigits.2 char inside
  refine read_digits unicode _ mark (year ++ (month ++ day)) ?_ signed (by simp [parts.yearDigits.1]) digits
  have dash : ∀ rest : Text, ('-' :: rest).filter (fun char => !Lines.isWhitespace char && char ≠ '-' && char ≠ '_') =
      rest.filter (fun char => !Lines.isWhitespace char && char ≠ '-' && char ≠ '_') := by
    intro rest
    exact List.filter_cons_of_neg (by simp)
  unfold Relative.compact
  rw [parts.spelled, List.filter_append, List.filter_append, dash, List.filter_append, dash, marks, kept year parts.yearDigits.2,
    kept month parts.monthDigits.2, kept day parts.dayDigits.2, List.append_assoc]
  refine lower_small unicode lawful _ ?_
  intro char inside
  rcases List.mem_append.mp inside with inside | inside
  next =>
    rcases signed with rfl | rfl
    next => cases inside
    next =>
      obtain rfl := List.mem_singleton.mp inside
      decide
  next => exact (digit_small char (digits char inside)).2

/-! ### It is a day of its year, or none -/

theorem stepAll_digits (number digits rest : Text) (runs : List Run) (few : runs.length ≤ 4)
    (all : ∀ char ∈ digits, char.isDigit = true) :
    Runs.stepAll unicode { word := [], number, runs } (digits ++ rest) =
      Runs.stepAll unicode { word := [], number := number ++ digits, runs } rest := by
  induction digits generalizing number with
  | nil => simp
  | cons char digits ih =>
    obtain ⟨first, others⟩ := List.forall_mem_cons.mp all
    have step : Runs.step unicode { word := [], number, runs } char = some { word := [], number := number ++ [char], runs } := by
      simp [Runs.step, first, Runs.flushWord, few]
    rw [List.cons_append, Runs.stepAll, step, Option.bind_some, ih (number ++ [char]) others]
    simp

theorem stepAll_dash (lawful : unicode.Lawful) (digits rest : Text) (runs : List Run) (value : Nat)
    (few : runs.length ≤ 3) (filled : digits ≠ []) (read : Lines.parseDecimal u32 digits = some value) :
    Runs.stepAll unicode { word := [], number := digits, runs } ('-' :: rest) =
      Runs.stepAll unicode { word := [], number := [], runs := runs ++ [.number value] } rest := by
  have letter : unicode.alphabetic '-' = false := (lawful.alphabetic '-' (by decide)).trans (by decide)
  have step : Runs.step unicode { word := [], number := digits, runs } '-' =
      some { word := [], number := [], runs := runs ++ [.number value] } := by
    have digit : '-'.isDigit = false := by decide
    simp [Runs.step, digit, letter, Runs.flushWord, Runs.flushNumber, filled, read]
    omega
  rw [Runs.stepAll, step, Option.bind_some]

theorem Parts.split (sign year month day : Text) (parts : Parts date sign year month day) (unicode : Unicode)
    (lawful : unicode.Lawful) : splitRuns unicode (spellDate date) =
      if 9999 < date.date.year then none
      else some [.number date.date.year.natAbs, .number date.date.month, .number date.date.day] := by
  have unsigned : Runs.stepAll unicode { word := [], number := [], runs := [] } (year ++ '-' :: (month ++ '-' :: day)) =
      some { word := [], number := day, runs := [.number date.date.year.natAbs, .number date.date.month] } := by
    rw [stepAll_digits unicode [] year _ [] (by simp) parts.yearDigits.2, List.nil_append,
      stepAll_dash unicode lawful year _ [] _ (by simp) parts.yearDigits.1 parts.yearValue,
      stepAll_digits unicode [] month _ _ (by simp) parts.monthDigits.2, List.nil_append,
      stepAll_dash unicode lawful month _ _ _ (by simp) parts.monthDigits.1 parts.monthValue]
    have last := stepAll_digits unicode [] day [] ([.number date.date.year.natAbs] ++ [.number date.date.month]) (by simp)
      parts.dayDigits.2
    rw [List.append_nil, List.nil_append] at last
    rw [List.nil_append, last]
    rfl
  unfold splitRuns
  rw [parts.spelled, List.append_assoc, parts.sign]
  have done : (Runs.mk [] day [.number date.date.year.natAbs, .number date.date.month]).flushWord.flushNumber =
      some (Runs.mk [] [] [.number date.date.year.natAbs, .number date.date.month, .number date.date.day]) := by
    simp [Runs.flushWord, Runs.flushNumber, parts.dayDigits.1, parts.dayValue]
  by_cases negative : date.date.year < 0
  case pos =>
    have letter : unicode.alphabetic '-' = false := (lawful.alphabetic '-' (by decide)).trans (by decide)
    have digit : '-'.isDigit = false := by decide
    have step : Runs.step unicode { word := [], number := [], runs := [] } '-' = some { word := [], number := [], runs := [] } := by
      simp [Runs.step, digit, letter, Runs.flushWord, Runs.flushNumber]
    rw [if_pos negative, List.singleton_append, Runs.stepAll, step, Option.bind_some, unsigned, if_neg (by omega)]
    simp only [Option.bind_some, done]
    rfl
  case neg =>
    rw [if_neg negative]
    by_cases late : 9999 < date.date.year
    case pos =>
      have letter : unicode.alphabetic '+' = false := (lawful.alphabetic '+' (by decide)).trans (by decide)
      have digit : '+'.isDigit = false := by decide
      have step : Runs.step unicode { word := [], number := [], runs := [] } '+' = none := by
        simp [Runs.step, digit, letter]
      rw [if_pos late, if_pos late, List.singleton_append, Runs.stepAll, step]
      rfl
    case neg =>
      rw [if_neg late, if_neg late, List.nil_append, unsigned]
      simp only [Option.bind_some, done]
      rfl

theorem fromYmd_year (year : Int) (month day : Nat) (date : NaiveDate) (made : NaiveDate.fromYmd year month day = some date) :
    date.date.year = year := by
  obtain ⟨found, made, held⟩ := Option.bind_eq_some_iff.mp made
  unfold Calendar.ofYmd at made
  unfold NaiveDate.ofDate at held
  split at made
  next =>
    cases made
    split at held
    next =>
      cases held
      rfl
    next => cases held
  next => cases made

theorem trim_spelled : Lines.trim (spellDate date) = spellDate date ∧ (spellDate date).isEmpty = false := by
  obtain ⟨sign, year, month, day, parts⟩ := spellDate_parts date
  refine ⟨Lines.trim_solid _ ?_, ?_⟩
  next =>
    rw [parts.spelled]
    intro char inside
    simp only [List.mem_append, List.mem_cons] at inside
    rcases inside with (inside | inside) | rfl | inside | rfl | inside
    next =>
      rw [parts.sign] at inside
      split at inside
      next =>
        obtain rfl := List.mem_singleton.mp inside
        decide
      next =>
        split at inside
        next =>
          obtain rfl := List.mem_singleton.mp inside
          decide
        next => cases inside
    next => exact Lines.digit_solid char (parts.yearDigits.2 char inside)
    next => decide
    next => exact Lines.digit_solid char (parts.monthDigits.2 char inside)
    next => decide
    next => exact Lines.digit_solid char (parts.dayDigits.2 char inside)
  next =>
    rw [parts.spelled]
    simp

theorem parseDate_spellDate (lawful : unicode.Lawful) (today date : NaiveDate) :
    parseDate unicode (spellDate date) today = some date <-> 1000 ≤ date.date.year ∧ date.date.year ≤ 9999 := by
  obtain ⟨sign, year, month, day, parts⟩ := spellDate_parts date
  obtain ⟨trimmed, filled⟩ := trim_spelled date
  unfold parseDate relative calendar
  simp only
  rw [trimmed, filled, parts.read date sign year month day unicode lawful, parts.split date sign year month day unicode lawful]
  simp only [Bool.false_eq_true, if_false, Option.bind_none, Option.orElse_none]
  by_cases late : 9999 < date.date.year
  case pos =>
    rw [if_pos late]
    simp
    omega
  case neg =>
    rw [if_neg late]
    simp only [Option.bind_some, List.filterMap_cons, List.filterMap_nil, numericDate]
    by_cases full : 1000 ≤ date.date.year.natAbs
    case pos =>
      rw [if_pos full]
      by_cases negative : date.date.year < 0
      case pos =>
        refine ⟨fun same => ?_, fun bounds => by omega⟩
        have year := fromYmd_year _ _ _ _ same
        have inside := date.inRange
        unfold asI32 u32 at year
        split at year <;> omega
      case neg =>
        have same : asI32 date.date.year.natAbs = date.date.year := by
          unfold asI32
          rw [if_pos (by omega)]
          omega
        rw [same, NaiveDate.fromYmd_self]
        exact ⟨fun _ => by omega, fun _ => rfl⟩
    case neg =>
      rw [if_neg full]
      refine ⟨fun same => ?_, fun bounds => by omega⟩
      have year := fromYmd_year _ _ _ _ same
      have days := Nat.le_trans date.date.valid.2 (daysIn_le _ _)
      unfold fullYear at year
      rw [if_pos (by omega)] at year
      omega

end Postio.Search

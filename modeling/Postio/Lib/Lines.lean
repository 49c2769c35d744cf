import Mathlib.Data.List.Basic
import Mathlib.Data.List.DropRight

set_option autoImplicit false

namespace Postio.Lines

/-! Text in lines, and decimal numbers in it. -/

/-- What a test finds of every item of a list, for tests on characters, which are too many to try them all. -/
theorem forall_of_all {A : Type} {holds : A -> Prop} [DecidablePred holds] (items : List A)
    (all : items.all (fun item => decide (holds item)) = true) : ∀ item ∈ items, holds item := by
  simpa using all

/-- A line as it was read, last character first, without the `\r` of a `\r\n`. -/
def ended : List Char -> List Char
  | '\r' :: earlier => earlier.reverse
  | current => current.reverse

def linesFrom : List Char -> List Char -> List (List Char)
  | [], [] => []
  | current, [] => [current.reverse]
  | current, char :: rest => if char = '\n' then ended current :: linesFrom [] rest else linesFrom (char :: current) rest

variable (mark char : Char) (line front text rest : List Char)

def lines : List (List Char) := linesFrom [] text

def Whole : Prop := '\n' ∉ line ∧ line.getLast? ≠ some '\r'

instance (line : List Char) : Decidable (Whole line) := inferInstanceAs (Decidable (_ ∧ _))

theorem linesFrom_append (current : List Char) (flat : '\n' ∉ line) :
    linesFrom current (line ++ '\n' :: rest) = ended (line.reverse ++ current) :: linesFrom [] rest := by
  induction line generalizing current with
  | nil => simp [linesFrom]
  | cons char line ih =>
    have here : char ≠ '\n' := fun same => flat (same ▸ List.mem_cons_self)
    simp only [List.cons_append, linesFrom, if_neg here]
    rw [ih (char :: current) (fun inside => flat (List.mem_cons_of_mem _ inside))]
    simp

theorem lines_append (whole : Whole line) :
    lines (line ++ '\n' :: rest) = line :: lines rest := by
  unfold lines
  rw [linesFrom_append line rest [] whole.1, List.append_nil]
  congr 1
  cases reversed : line.reverse with
  | nil => simpa [ended] using (congrArg List.reverse reversed).symm
  | cons char earlier =>
    have read : line = earlier.reverse ++ [char] := by
      rw [← List.reverse_reverse line, reversed, List.reverse_cons]
    have kept : char ≠ '\r' := by
      rintro rfl
      exact whole.2 (by simp [read])
    unfold ended
    split
    next same =>
      cases same
      exact absurd rfl kept
    next => simp [read]

def splitOnce (mark : Char) : List Char -> Option (List Char × List Char)
  | [] => none
  | char :: rest =>
    if char = mark then some ([], rest) else (splitOnce mark rest).map (fun parts => (char :: parts.1, parts.2))

theorem splitOnce_append (before after : List Char) (apart : mark ∉ before) :
    splitOnce mark (before ++ mark :: after) = some (before, after) := by
  induction before with
  | nil => simp [splitOnce]
  | cons char before ih =>
    have here : char ≠ mark := fun same => apart (same ▸ List.mem_cons_self)
    simp [splitOnce, here, ih (fun inside => apart (List.mem_cons_of_mem _ inside))]

theorem linesFrom_cut (current earlier rest : List Char) :
    linesFrom current (earlier ++ '\n' :: rest) = linesFrom current (earlier ++ ['\n']) ++ linesFrom [] rest := by
  induction earlier generalizing current with
  | nil => simp [linesFrom]
  | cons char earlier ih =>
    have step : ∀ more, linesFrom current (char :: more) =
        if char = '\n' then ended current :: linesFrom [] more else linesFrom (char :: current) more := by
      intro more
      cases current <;> rfl
    simp only [List.cons_append, step]
    split
    next => rw [ih [], List.cons_append]
    next => exact ih (char :: current)

theorem lines_cut (earlier rest : List Char) : lines (earlier ++ '\n' :: rest) = lines (earlier ++ ['\n']) ++ lines rest :=
  linesFrom_cut [] earlier rest

theorem linesFrom_ended (current earlier : List Char) (more : current ≠ [] ∨ earlier ≠ [])
    (open_ended : (earlier.getLast?).or current.head? ≠ some '\n') :
    (linesFrom current (earlier ++ ['\n'])).length = (linesFrom current earlier).length := by
  induction earlier generalizing current with
  | nil =>
    cases current with
    | nil => simp at more
    | cons char current => simp [linesFrom]
  | cons char earlier ih =>
    have step : ∀ more, linesFrom current (char :: more) =
        if char = '\n' then ended current :: linesFrom [] more else linesFrom (char :: current) more := by
      intro more
      cases current <;> rfl
    simp only [List.cons_append, step]
    split
    next feed =>
      have further : earlier ≠ [] := by
        rintro rfl
        simp [feed] at open_ended
      have last : (earlier.getLast?).or ([] : List Char).head? ≠ some '\n' := by
        simpa [List.getLast?_cons, List.getLast?_eq_some_getLast further] using open_ended
      simp [ih [] (.inr further) last]
    next plain =>
      apply ih (char :: current) (.inl (List.cons_ne_nil _ _))
      cases earlier with
      | nil => simpa using plain
      | cons other earlier => simpa [List.getLast?_cons] using open_ended

theorem lines_ended (earlier : List Char) (more : earlier ≠ []) (open_ended : earlier.getLast? ≠ some '\n') :
    (lines (earlier ++ ['\n'])).length = (lines earlier).length :=
  linesFrom_ended [] earlier (.inr more) (by simpa using open_ended)

theorem splitOnce_none (absent : mark ∉ text) : splitOnce mark text = none := by
  induction text with
  | nil => rfl
  | cons char text ih =>
    have other : char ≠ mark := fun same => absent (same ▸ List.mem_cons_self)
    simp [splitOnce, other, ih (fun inside => absent (List.mem_cons_of_mem _ inside))]

theorem splitOnce_absent (whole : splitOnce mark text = none) : mark ∉ text := by
  induction text with
  | nil => simp
  | cons char text ih =>
    unfold splitOnce at whole
    split at whole
    next => cases whole
    next other =>
      rw [List.mem_cons, not_or]
      exact ⟨Ne.symm other, ih (Option.map_eq_none_iff.mp whole)⟩

theorem splitOnce_some (before after : List Char) (split : splitOnce mark text = some (before, after)) :
    text = before ++ mark :: after ∧ mark ∉ before := by
  induction text generalizing before with
  | nil => cases split
  | cons char text ih =>
    unfold splitOnce at split
    split at split
    next here =>
      cases split
      exact ⟨by rw [here]; rfl, by simp⟩
    next other =>
      obtain ⟨⟨front, back⟩, further, same⟩ := Option.map_eq_some_iff.mp split
      cases same
      obtain ⟨whole, apart⟩ := ih front further
      refine ⟨by rw [whole]; rfl, ?_⟩
      rintro (_ | ⟨_, inside⟩)
      next => exact other rfl
      next => exact apart inside

theorem apart_of_findIdx {A : Type} (sought : A -> Bool) (values : List A) (position : Nat)
    (found : values.findIdx? sought = some position) :
    ∃ before mark after, values = before ++ mark :: after ∧ before.length = position ∧ sought mark = true ∧
      ∀ value ∈ before, sought value = false := by
  induction values generalizing position with
  | nil => simp at found
  | cons value values ih =>
    rw [List.findIdx?_cons] at found
    split at found
    next here =>
      cases found
      exact ⟨[], value, values, rfl, rfl, here, by simp⟩
    next passed =>
      obtain ⟨further, read, rfl⟩ := Option.map_eq_some_iff.mp found
      obtain ⟨before, mark, after, rfl, rfl, marked, clear⟩ := ih further read
      refine ⟨value :: before, mark, after, rfl, rfl, marked, ?_⟩
      rintro other (_ | ⟨_, inside⟩)
      next => exact Bool.eq_false_iff.mpr passed
      next => exact clear other inside

def stripFront : Option (List Char) :=
  if front.isPrefixOf text then some (text.drop front.length) else none

theorem stripFront_append : stripFront front (front ++ rest) = some rest := by
  unfold stripFront
  rw [if_pos (List.isPrefixOf_iff_prefix.mpr (List.prefix_append front rest)), List.drop_left]

theorem stripFront_some (stripped : stripFront front text = some rest) : text = front ++ rest := by
  unfold stripFront at stripped
  split at stripped
  next starts =>
    obtain ⟨behind, rfl⟩ := List.isPrefixOf_iff_prefix.mp starts
    rw [List.drop_left] at stripped
    rw [Option.some.inj stripped]
  next => cases stripped

/-- The text before the first occurrence of another, and after it. -/
def splitText (mark : List Char) : List Char -> Option (List Char × List Char)
  | [] => if mark = [] then some ([], []) else none
  | char :: rest =>
    if mark.isPrefixOf (char :: rest) then some ([], (char :: rest).drop mark.length)
    else (splitText mark rest).map (fun parts => (char :: parts.1, parts.2))

theorem splitText_here (mark after : List Char) : splitText mark (mark ++ after) = some ([], after) := by
  cases whole : mark ++ after with
  | nil => simp_all [splitText]
  | cons char rest =>
    have begins : mark.isPrefixOf (char :: rest) = true := by
      rw [← whole, List.isPrefixOf_iff_prefix]
      exact List.prefix_append mark after
    unfold splitText
    rw [if_pos begins, ← whole, List.drop_left]

theorem splitText_append (mark before rest after : List Char)
    (clear : ∀ skipped left, before = skipped ++ left -> left ≠ [] -> ¬ mark.IsPrefix (left ++ rest))
    (read : splitText mark rest = some ([], after)) : splitText mark (before ++ rest) = some (before, after) := by
  induction before with
  | nil => exact read
  | cons char before ih =>
    have not_here : ¬ mark.isPrefixOf (char :: (before ++ rest)) = true := by
      rw [List.isPrefixOf_iff_prefix]
      exact clear [] (char :: before) rfl (List.cons_ne_nil _ _)
    have further := ih (fun skipped left same some_left => clear (char :: skipped) left (by rw [same]; rfl) some_left)
    simp only [List.cons_append, splitText, if_neg not_here, further, Option.map_some]

theorem splitText_delimited (mark before after : List Char) (delimiter : Char) (absent : ¬ mark.IsInfix before)
    (apart : delimiter ∉ mark) :
    splitText mark (before ++ delimiter :: (mark ++ after)) = some (before ++ [delimiter], after) := by
  have whole : before ++ delimiter :: (mark ++ after) = (before ++ [delimiter]) ++ (mark ++ after) := by simp
  rw [whole]
  refine splitText_append mark (before ++ [delimiter]) (mark ++ after) after ?_ (splitText_here mark after)
  intro skipped left same some_left begins
  obtain ⟨inner, rfl⟩ : ∃ inner, left = inner ++ [delimiter] := by
    rcases List.eq_nil_or_concat left with rfl | ⟨inner, last, rfl⟩
    next => exact absurd rfl some_left
    next =>
      rw [List.concat_eq_append, ← List.append_assoc] at same
      have ends := List.append_inj_right' same rfl
      exact ⟨inner, by rw [List.concat_eq_append, ← ends]⟩
  have inner_of : before = skipped ++ inner := by
    rw [← List.append_assoc] at same
    exact List.append_inj_left' same rfl
  rcases List.prefix_or_prefix_of_prefix begins (List.prefix_append (inner ++ [delimiter]) (mark ++ after)) with short | long
  next =>
    rcases List.prefix_concat_iff.mp short with whole | within
    next => exact apart (whole ▸ by simp)
    next =>
      obtain ⟨more, rfl⟩ := within
      exact absent (inner_of ▸ ⟨skipped, more, by simp⟩)
  next => exact apart (long.subset (by simp))

theorem splitText_within (mark before rest : List Char) (inside : mark.IsInfix before) :
    ∃ parts, splitText mark (before ++ rest) = some parts ∧ parts.1.length + mark.length ≤ before.length := by
  induction before with
  | nil =>
    obtain rfl := List.infix_nil.mp inside
    exact ⟨([], rest), by cases rest <;> simp [splitText], by simp⟩
  | cons char before ih =>
    simp only [List.cons_append, splitText]
    split
    next here =>
      refine ⟨_, rfl, ?_⟩
      have fits := inside.length_le
      simpa using fits
    next not_here =>
      rcases List.infix_cons_iff.mp inside with begins | later
      next =>
        refine absurd ?_ not_here
        rw [List.isPrefixOf_iff_prefix]
        exact begins.trans (List.prefix_append (char :: before) rest)
      next =>
        obtain ⟨parts, found, fits⟩ := ih later
        exact ⟨(char :: parts.1, parts.2), by rw [found]; rfl, by simp; omega⟩

/-- `char::is_whitespace`. -/
def isWhitespace : Bool :=
  (9 ≤ char.toNat && char.toNat ≤ 13) || (0x2000 ≤ char.toNat && char.toNat ≤ 0x200A) ||
    [0x20, 0x85, 0xA0, 0x1680, 0x2028, 0x2029, 0x202F, 0x205F, 0x3000].contains char.toNat

def trimStart : List Char := text.dropWhile isWhitespace

def trim : List Char := (trimStart text).rdropWhile isWhitespace

theorem letter_bounds (letter : char.isAlpha = true) : 65 ≤ char.toNat ∧ char.toNat ≤ 122 := by
  change (decide (char.val ≥ 'A'.val ∧ char.val ≤ 'Z'.val) ||
    (decide (char.val ≥ 'a'.val) && decide (char.val ≤ 'z'.val))) = true at letter
  simp only [Bool.or_eq_true, Bool.and_eq_true, decide_eq_true_eq, ge_iff_le, UInt32.le_iff_toNat_le] at letter
  have limits : 'A'.val.toNat = 65 ∧ 'Z'.val.toNat = 90 ∧ 'a'.val.toNat = 97 ∧ 'z'.val.toNat = 122 := ⟨rfl, rfl, rfl, rfl⟩
  unfold Char.toNat
  omega

theorem digit_solid (digit : char.isDigit = true) : isWhitespace char = false := by
  have bounds : 48 ≤ char.toNat ∧ char.toNat ≤ 57 := Char.isDigit_iff_toNat.mp digit
  unfold isWhitespace
  simp only [Bool.or_eq_false_iff, Bool.and_eq_false_iff, decide_eq_false_iff_not]
  refine ⟨⟨by omega, by omega⟩, ?_⟩
  simp only [List.contains_eq_mem, decide_eq_false_iff_not, List.mem_cons, List.not_mem_nil, or_false]
  omega

theorem trim_solid (word : List Char) (solid : ∀ char ∈ word, isWhitespace char = false) : trim word = word := by
  unfold trim trimStart
  have kept : word.dropWhile isWhitespace = word := by
    cases word with
    | nil => rfl
    | cons char word => rw [List.dropWhile_cons_of_neg (by simp [solid char List.mem_cons_self])]
  rw [kept, List.rdropWhile_eq_self_iff]
  exact fun some_word => by simp [solid _ (List.getLast_mem some_word)]

theorem trim_ends : (∀ char ∈ (trim text).head?, isWhitespace char = false) ∧
      ∀ char ∈ (trim text).getLast?, isWhitespace char = false := by
  constructor
  next =>
    intro char head
    have front : (trim text).IsPrefix (trimStart text) := List.rdropWhile_prefix _ _
    obtain ⟨behind, whole⟩ := front
    have first : (trimStart text).head? = some char := by
      rw [← whole]
      cases trimmed : trim text with
      | nil => rw [trimmed] at head; cases head
      | cons other rest => rw [trimmed] at head; simpa using head
    have failed := List.head?_dropWhile_not isWhitespace text
    rw [trimStart] at first
    rw [first] at failed
    simpa using failed
  next =>
    intro char last
    by_contra blank
    have filled : trim text ≠ [] := by
      intro empty
      rw [empty] at last
      cases last
    have failed := List.rdropWhile_last_not isWhitespace (trimStart text) filled
    have same : (trim text).getLast filled = char := by
      rw [List.getLast?_eq_some_getLast filled] at last
      exact Option.some.inj last
    exact failed (by rw [show (List.rdropWhile isWhitespace (trimStart text)).getLast filled = char from same]; simpa using blank)

theorem trim_self (heads : ∀ char ∈ text.head?, isWhitespace char = false)
    (lasts : ∀ char ∈ text.getLast?, isWhitespace char = false) : trim text = text := by
  unfold trim trimStart
  have kept : text.dropWhile isWhitespace = text := by
    cases text with
    | nil => rfl
    | cons char text => rw [List.dropWhile_cons_of_neg (by simp [heads char rfl])]
  rw [kept, List.rdropWhile_eq_self_iff]
  exact fun filled => by simp [lasts _ (List.getLast?_eq_some_getLast filled)]

theorem trim_sublist : (trim text).Sublist text :=
  (List.rdropWhile_prefix _ _).sublist.trans (List.dropWhile_sublist _)

theorem trim_length : (trim text).length ≤ text.length := (trim_sublist text).length_le

theorem trim_split : ∃ lead trail, (∀ char ∈ lead, isWhitespace char = true) ∧
    (∀ char ∈ trail, isWhitespace char = true) ∧ text = lead ++ (trim text ++ trail) := by
  refine ⟨text.takeWhile isWhitespace, (trimStart text).rtakeWhile isWhitespace, ?_, ?_, ?_⟩
  next => exact fun _ inside => List.mem_takeWhile_imp inside
  next => exact fun _ inside => List.mem_rtakeWhile_imp inside
  next =>
    unfold trim
    rw [List.rdropWhile_append_rtakeWhile]
    exact List.takeWhile_append_dropWhile.symm

theorem trim_blanks (lead text trail : List Char) (blank : ∀ char ∈ lead, isWhitespace char = true)
    (also : ∀ char ∈ trail, isWhitespace char = true) : trim (lead ++ (text ++ trail)) = trim text := by
  unfold trim trimStart
  rw [List.dropWhile_append_of_pos blank]
  by_cases empty : ∀ char ∈ text, isWhitespace char = true
  case pos =>
    have rest : (text ++ trail).dropWhile isWhitespace = [] := by
      apply List.dropWhile_eq_nil_iff.mpr
      intro char inside
      rcases List.mem_append.mp inside with inside | inside
      next => exact empty char inside
      next => exact also char inside
    rw [rest, List.dropWhile_eq_nil_iff.mpr empty]
  case neg =>
    have filled : (text.dropWhile isWhitespace).isEmpty = false := by
      rw [List.isEmpty_eq_false_iff]
      exact fun none => empty (List.dropWhile_eq_nil_iff.mp none)
    rw [List.dropWhile_append, filled]
    simp only [Bool.false_eq_true, if_false]
    unfold List.rdropWhile
    rw [List.reverse_append, List.dropWhile_append_of_pos (fun char inside => also char (List.mem_reverse.mp inside))]

/-- `str::split_whitespace`. -/
def splitWhitespace : List (List Char) := (text.splitOnP isWhitespace).filter (fun word => word ≠ [])

theorem splitOnP_clear (separates : Char -> Bool) (text word : List Char) (inside : word ∈ text.splitOnP separates) :
    ∀ char ∈ word, separates char = false := by
  induction text generalizing word with
  | nil =>
    obtain rfl : word = [] := by simpa using inside
    simp
  | cons char text ih =>
    rw [List.splitOnP_cons_eq_if_modifyHead] at inside
    split at inside
    next =>
      rcases List.mem_cons.mp inside with rfl | inside
      next => simp
      next => exact ih word inside
    next plain =>
      cases parts : text.splitOnP separates with
      | nil => exact absurd parts (List.splitOnP_ne_nil _ _)
      | cons first others =>
        rw [parts, List.modifyHead_cons] at inside
        rcases List.mem_cons.mp inside with rfl | inside
        next =>
          rintro other (_ | ⟨_, within⟩)
          next => simpa using plain
          next => exact ih first (parts ▸ List.mem_cons_self) other within
        next => exact ih word (parts ▸ List.mem_cons_of_mem _ inside)

theorem splitWhitespace_words (word : List Char) (inside : word ∈ splitWhitespace text) :
    word ≠ [] ∧ ∀ char ∈ word, isWhitespace char = false := by
  obtain ⟨among, filled⟩ := List.mem_filter.mp inside
  exact ⟨of_decide_eq_true filled, splitOnP_clear isWhitespace text word among⟩

/-- An unsigned number below a bound, as it may be written in decimal. -/
def parseDecimal (bound : Nat) (text : List Char) : Option Nat :=
  let digits := match text with
    | '+' :: digits => digits
    | digits => digits
  if digits ≠ [] ∧ digits.all Char.isDigit then
    if Nat.ofDigitChars 10 digits 0 < bound then some (Nat.ofDigitChars 10 digits 0) else none
  else none

theorem digits_of_toDigits (number : Nat) : (Nat.toDigits 10 number).all Char.isDigit = true := by
  rw [List.all_eq_true]
  exact fun char inside => Nat.isDigit_of_mem_toDigits (by decide) (by decide) inside

theorem notMem_toDigits (other : char.isDigit = false) (number : Nat) : char ∉ Nat.toDigits 10 number := by
  intro inside
  rw [List.all_eq_true.mp (digits_of_toDigits number) char inside] at other
  cases other

theorem parseDecimal_toDigits (bound number : Nat) (small : number < bound) :
    parseDecimal bound (Nat.toDigits 10 number) = some number := by
  unfold parseDecimal
  have digits : (match Nat.toDigits 10 number with
      | '+' :: digits => digits
      | digits => digits) = Nat.toDigits 10 number := by
    split
    next rest written => exact absurd (written ▸ List.mem_cons_self) (notMem_toDigits '+' (by decide) number)
    next => rfl
  simp only [digits]
  rw [if_pos ⟨Nat.toDigits_ne_nil, digits_of_toDigits number⟩, Nat.ofDigitChars_ten_toDigits, if_pos small]

end Postio.Lines

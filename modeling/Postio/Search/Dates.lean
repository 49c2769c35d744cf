import Postio.Search.Query

set_option autoImplicit false

namespace Postio.Search

/-- What the standard library's Unicode tables answer. -/
structure Unicode where
  -- `char::to_lowercase`
  lower : Char -> Text
  -- `str::to_lowercase`
  lowerText : Text -> Text
  alphabetic : Char -> Bool
  alphanumeric : Char -> Bool

structure Unicode.Lawful (unicode : Unicode) : Prop where
  lower : ∀ char, char.toNat < 128 → unicode.lower char = [char.toLower]
  alphabetic : ∀ char, char.toNat < 128 → unicode.alphabetic char = char.isAlpha

/-- The tables, as far as ASCII text needs them. -/
def asciiTables : Unicode :=
  { lower := fun char => [char.toLower]
    lowerText := fun text => text.map Char.toLower
    alphabetic := Char.isAlpha
    alphanumeric := Char.isAlphanum }

theorem asciiTables_lawful : asciiTables.Lawful := ⟨fun _ _ => rfl, fun _ _ => rfl⟩

inductive Overflow where
  | multiply
  deriving DecidableEq

def u32 : Nat := 4294967296

def stripSuffix (back text : Text) : Option Text := (Lines.stripFront back.reverse text.reverse).map List.reverse

inductive DateUnit where
  | day
  | week
  | month
  | quarter
  | year
  deriving DecidableEq

def DateUnit.spellings : List (Text × DateUnit) :=
  [("d".toList, .day), ("day".toList, .day), ("days".toList, .day), ("w".toList, .week), ("week".toList, .week),
    ("weeks".toList, .week), ("m".toList, .month), ("month".toList, .month), ("months".toList, .month),
    ("q".toList, .quarter), ("quarter".toList, .quarter), ("quarters".toList, .quarter), ("y".toList, .year),
    ("year".toList, .year), ("years".toList, .year)]

inductive Relative where
  | today
  | yesterday
  | back (count : Nat) (unit : DateUnit)
  deriving DecidableEq

namespace Relative

def compact (unicode : Unicode) (value : Text) : Text :=
  (value.filter (fun char => !Lines.isWhitespace char && char ≠ '-' && char ≠ '_')).flatMap unicode.lower

def stripLast (rest : Text) : Text :=
  ((Lines.stripFront "last".toList rest).orElse (fun _ => (Lines.stripFront "past".toList rest).orElse (fun _ =>
    Lines.stripFront "previous".toList rest))).getD rest

/-- `today`, `last week`, `3 days ago`, `7d`. -/
def read (unicode : Unicode) (value : Text) : Option Relative :=
  let compact := compact unicode value
  if compact = "today".toList ∨ compact = "now".toList then some .today
  else if compact = "yesterday".toList then some .yesterday
  else
    let rest := stripLast ((stripSuffix "ago".toList compact).getD compact)
    let digits := rest.takeWhile Char.isDigit
    let unit := rest.drop digits.length
    let count := if digits.isEmpty then some 1 else Lines.parseDecimal u32 digits
    count.bind (fun count => (DateUnit.spellings.lookup unit).map (fun unit => .back count unit))

/-- The months a count of units comes to, before it is held in a `u32`. -/
def multiplied : Relative -> Nat
  | .back count .quarter => count * 3
  | .back count .year => count * 12
  | _ => 0

def date (today : NaiveDate) : Relative -> Option NaiveDate
  | .today => some today
  | .yesterday => today.checkedSubDays 1
  | .back count .day => today.checkedSubDays count
  | .back count .week => today.checkedSubDays (count * 7)
  | .back count .month => today.checkedSubMonths count
  -- Where overflow is not checked, the product wraps.
  | .back count .quarter => today.checkedSubMonths (count * 3 % u32)
  | .back count .year => today.checkedSubMonths (count * 12 % u32)

end Relative

variable (unicode : Unicode) (value : Text) (today : NaiveDate)

def relative : Option NaiveDate :=
  (Relative.read unicode value).bind (Relative.date today)

def relativeChecked : Except Overflow (Option NaiveDate) :=
  match Relative.read unicode value with
  | none => .ok none
  | some found => if found.multiplied < u32 then .ok (found.date today) else .error .multiply

inductive Run where
  | word (text : Text)
  | number (value : Nat)
  deriving DecidableEq

/-- A date taken apart so far: what is being read, and the runs read. -/
structure Runs where
  word : Text
  number : Text
  runs : List Run

def Runs.flushWord (state : Runs) : Runs :=
  if state.word.isEmpty then state else { state with word := [], runs := state.runs ++ [.word state.word] }

def Runs.flushNumber (state : Runs) : Option Runs :=
  if state.number.isEmpty then some state
  else
    (Lines.parseDecimal u32 state.number).map
      (fun value => { state with number := [], runs := state.runs ++ [.number value] })

def Runs.step (state : Runs) (char : Char) : Option Runs :=
  let next :=
    if char.isDigit then some { state.flushWord with number := state.number ++ [char] }
    else if unicode.alphabetic char then
      state.flushNumber.map (fun state => { state with word := state.word ++ unicode.lower char })
    else if ['-', '/', '.', ',', ' ', '\t', '_'].contains char then state.flushWord.flushNumber
    else none
  next.filter (fun state => state.runs.length ≤ 4)

def Runs.stepAll (unicode : Unicode) (state : Runs) : Text -> Option Runs
  | [] => some state
  | char :: rest => (state.step unicode char).bind (fun next => stepAll unicode next rest)

def splitRuns : Option (List Run) :=
  ((Runs.stepAll unicode { word := [], number := [], runs := [] } value).bind
    (fun state => state.flushWord.flushNumber)).bind
    (fun state => if state.runs.isEmpty then none else some state.runs)

def monthNames : List (Text × Nat) :=
  [("jan".toList, 1), ("january".toList, 1), ("feb".toList, 2), ("february".toList, 2), ("mar".toList, 3),
    ("march".toList, 3), ("apr".toList, 4), ("april".toList, 4), ("may".toList, 5), ("jun".toList, 6),
    ("june".toList, 6), ("jul".toList, 7), ("july".toList, 7), ("aug".toList, 8), ("august".toList, 8),
    ("sep".toList, 9), ("sept".toList, 9), ("september".toList, 9), ("oct".toList, 10), ("october".toList, 10),
    ("nov".toList, 11), ("november".toList, 11), ("dec".toList, 12), ("december".toList, 12)]

def monthFromName (name : Text) : Option Nat := monthNames.lookup name

/-- A `u32` as an `i32`. -/
def asI32 (value : Nat) : Int := if value < 2147483648 then value else (value : Int) - u32

def fullYear (year : Nat) : Int := if year < 100 then 2000 + (year : Int) else asI32 year

def inferYear (month day : Nat) (today : NaiveDate) : Option NaiveDate :=
  (NaiveDate.fromYmd today.date.year month day).bind (fun candidate =>
    if candidate.date.number ≤ today.date.number then some candidate
    else NaiveDate.fromYmd (today.date.year - 1) month day)

/-- Dates made only of numbers. -/
def numericDate (numbers : List Nat) (today : NaiveDate) : Option NaiveDate :=
  match numbers with
  | [packed] =>
    if 10000101 ≤ packed ∧ packed ≤ 99991231 then
      NaiveDate.fromYmd (packed / 10000 : Nat) (packed / 100 % 100) (packed % 100)
    else none
  | [first, second] =>
    if 1000 ≤ first then NaiveDate.fromYmd (asI32 first) second 1 else inferYear first second today
  | [first, second, third] =>
    if 1000 ≤ first then NaiveDate.fromYmd (asI32 first) second third
    else NaiveDate.fromYmd (fullYear third) first second
  | _ => none

/-- A month's name and numbers. -/
def namedDate (name : Text) (numbers : List Nat) (today : NaiveDate) : Option NaiveDate :=
  (monthFromName name).bind (fun month =>
    match numbers with
    | [] => inferYear month 1 today
    | [only] => if 1000 ≤ only then NaiveDate.fromYmd (asI32 only) month 1 else inferYear month only today
    | [first, second] =>
      if 31 < first then NaiveDate.fromYmd (fullYear first) month second
      else NaiveDate.fromYmd (fullYear second) month first
    | _ => none)

/-- `aug1`, `1 august 2025`, `8/1`, `2026-01-01`, `20260101`. -/
def calendar : Option NaiveDate :=
  (splitRuns unicode value).bind (fun runs =>
    let words := runs.filterMap (fun run => match run with | .word text => some text | .number _ => none)
    let numbers := runs.filterMap (fun run => match run with | .word _ => none | .number value => some value)
    match words with
    | [] => numericDate numbers today
    | [name] => namedDate name numbers today
    | _ => none)

def parseDate : Option NaiveDate :=
  let value := Lines.trim value
  if value.isEmpty then none else (relative unicode value today).orElse (fun _ => calendar unicode value today)

def parseDateChecked : Except Overflow (Option NaiveDate) :=
  let value := Lines.trim value
  if value.isEmpty then .ok none
  else (relativeChecked unicode value today).map (fun found => found.orElse (fun _ => calendar unicode value today))

/-- Whether reading a value as a date multiplies beyond a `u32`. -/
def Overflows : Prop :=
  ∃ found, Relative.read unicode (Lines.trim value) = some found ∧ u32 ≤ found.multiplied

theorem parseDateChecked_exact : (Overflows unicode value → parseDateChecked unicode value today = .error .multiply) ∧
      (¬ Overflows unicode value → parseDateChecked unicode value today = .ok (parseDate unicode value today)) := by
  unfold parseDateChecked parseDate relativeChecked relative
  by_cases empty : (Lines.trim value).isEmpty = true
  case pos =>
    have blank : Lines.trim value = [] := List.isEmpty_iff.mp empty
    constructor
    next =>
      rintro ⟨found, read, -⟩
      rw [blank] at read
      have nothing : Relative.read unicode [] = none := rfl
      rw [nothing] at read
      cases read
    next =>
      intro _
      simp only [empty, if_true]
  case neg =>
    simp only [empty, if_false, Bool.false_eq_true]
    cases read : Relative.read unicode (Lines.trim value) with
    | none =>
      constructor
      next =>
        rintro ⟨found, other, -⟩
        rw [read] at other
        cases other
      next => exact fun _ => rfl
    | some found =>
      by_cases small : found.multiplied < u32
      case pos =>
        constructor
        next =>
          rintro ⟨other, same, large⟩
          rw [read] at same
          cases same
          omega
        next =>
          intro _
          simp only [if_pos small, Except.map, Option.bind_some]
      case neg =>
        constructor
        next =>
          intro _
          simp only [if_neg small, Except.map]
        next => exact fun fine => absurd ⟨found, read, Nat.not_lt.mp small⟩ fine

end Postio.Search

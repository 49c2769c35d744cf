import Postio.Lib.Calendar
import Postio.Lib.Lines
import Postio.Lib.Slices

set_option autoImplicit false

namespace Postio.Search

abbrev Text := List Char

theorem utf8Size_pos (char : Char) : 0 < char.utf8Size := Char.utf8Size_pos char

theorem reach_pos (word : Text) (filled : word ≠ []) : 0 < Slices.reach Char.utf8Size word := by
  cases word with
  | nil => exact absurd rfl filled
  | cons char word =>
    have further := utf8Size_pos char
    rw [Slices.reach_cons]
    omega

/-- A day as `chrono` counts them. -/
structure NaiveDate where
  date : Calendar.Date
  inRange : -262143 ≤ date.year ∧ date.year ≤ 262142
  deriving DecidableEq

namespace NaiveDate

def ofDate (date : Calendar.Date) : Option NaiveDate :=
  if inRange : -262143 ≤ date.year ∧ date.year ≤ 262142 then some { date, inRange } else none

def fromYmd (year : Int) (month day : Nat) : Option NaiveDate := (Calendar.ofYmd year month day).bind ofDate

/-- Chrono takes no more days or months than an `i32` holds. -/
def bound : Nat := 2147483647

def checkedSubDays (days : Nat) (date : NaiveDate) : Option NaiveDate :=
  if days ≤ bound then ofDate (date.date.back days) else none

def checkedSubMonths (months : Nat) (date : NaiveDate) : Option NaiveDate :=
  if months ≤ bound then ofDate (date.date.shift (-months)) else none

theorem ofDate_self (date : NaiveDate) : ofDate date.date = some date := by
  unfold ofDate
  rw [dif_pos date.inRange]

theorem fromYmd_self (date : NaiveDate) : fromYmd date.date.year date.date.month date.date.day = some date := by
  unfold fromYmd
  rw [Calendar.Date.ofYmd_self, Option.bind_some, ofDate_self]

end NaiveDate

structure Span where
  start : Nat
  stop : Nat
  deriving DecidableEq

/-! The operators. The fields whose value is a name are alike but for their keywords. -/

inductive NameField where
  | fromWho
  | toWho
  | subject
  | inFolder
  | filename
  | list
  | account
  | group
  | label
  deriving DecidableEq

inductive Field where
  | name (field : NameField)
  | has
  | is
  | before
  | after
  | larger
  | smaller
  | withAddresses
  | header
  deriving DecidableEq

def NameField.keyword : NameField -> Text
  | .fromWho => "from".toList
  | .toWho => "to".toList
  | .subject => "subject".toList
  | .inFolder => "in".toList
  | .filename => "filename".toList
  | .list => "list".toList
  | .account => "account".toList
  | .group => "group".toList
  | .label => "label".toList

/-- The canonical keyword, without its colon. -/
def Field.keyword : Field -> Text
  | .name field => field.keyword
  | .has => "has".toList
  | .is => "is".toList
  | .before => "before".toList
  | .after => "after".toList
  | .larger => "larger".toList
  | .smaller => "smaller".toList
  | .withAddresses => "with".toList
  | .header => "header".toList

def asciiLower (text : Text) : Text := text.map Char.toLower

/-- Every spelling of every keyword. -/
def Field.spellings : List (Text × Field) :=
  [("from".toList, .name .fromWho), ("to".toList, .name .toWho), ("subject".toList, .name .subject),
    ("title".toList, .name .subject), ("has".toList, .has), ("is".toList, .is), ("before".toList, .before),
    ("after".toList, .after), ("since".toList, .after), ("in".toList, .name .inFolder),
    ("folder".toList, .name .inFolder), ("mailbox".toList, .name .inFolder), ("filename".toList, .name .filename),
    ("file".toList, .name .filename), ("attachment".toList, .name .filename), ("larger".toList, .larger),
    ("bigger".toList, .larger), ("size".toList, .larger), ("smaller".toList, .smaller), ("list".toList, .name .list),
    ("account".toList, .name .account), ("with".toList, .withAddresses), ("group".toList, .name .group),
    ("header".toList, .header), ("label".toList, .name .label)]

def Field.parse (keyword : Text) : Option Field := (Field.spellings.lookup (asciiLower keyword))

def Field.takesSet : Field -> Bool
  | .name _ | .withAddresses => true
  | .has | .is | .before | .after | .larger | .smaller | .header => false

inductive State where
  | unread
  | read
  | flagged
  | bulk
  | automated
  deriving DecidableEq

/-- A constraint on one value. -/
inductive Single where
  | name (field : NameField) (value : Text)
  | withAddresses (addresses : List Text)
  | header (name : Text) (value : Option Text)
  | hasAttachment
  | hasAction
  | is (state : State)
  | after (date : NaiveDate)
  | before (date : NaiveDate)
  | larger (bytes : Nat)
  | smaller (bytes : Nat)
  deriving DecidableEq

def Single.field : Single -> Field
  | .name field _ => .name field
  | .withAddresses _ => .withAddresses
  | .header _ _ => .header
  | .hasAttachment | .hasAction => .has
  | .is _ => .is
  | .after _ => .after
  | .before _ => .before
  | .larger _ => .larger
  | .smaller _ => .smaller

/-- Two or more values of one field that takes a set. -/
structure AnyOf where
  field : Field
  members : List Single
  several : 2 ≤ members.length
  takesSet : field.takesSet = true
  uniform : ∀ member ∈ members, member.field = field
  deriving DecidableEq

inductive Filter where
  | single (value : Single)
  | anyOf (set : AnyOf)
  deriving DecidableEq

def Filter.field : Filter -> Field
  | .single value => value.field
  | .anyOf set => set.field

def Filter.alternatives : Filter -> List Single
  | .single value => [value]
  | .anyOf set => set.members

/-- Members as one filter: the member itself, or a set of several. -/
def Filter.ofMembers : List Single -> Option Filter
  | [] => none
  | [only] => some (.single only)
  | first :: second :: rest =>
    let members := first :: second :: rest
    if fits : first.field.takesSet = true ∧ ∀ member ∈ members, member.field = first.field then
      some (.anyOf { field := first.field, members, several := by simp [members], takesSet := fits.1, uniform := fits.2 })
    else none

structure Clause where
  negated : Bool
  filter : Filter
  deriving DecidableEq

/-- A recognized operator whose value is not usable yet. -/
structure Partial where
  negated : Bool
  field : Field
  value : Text
  deriving DecidableEq

structure TextTerm where
  negated : Bool
  value : Text
  quoted : Bool
  deriving DecidableEq

inductive TokenKind where
  | filter (clause : Clause)
  | unfinished (operator : Partial)
  | text (term : TextTerm)
  deriving DecidableEq

structure Token where
  span : Span
  raw : Text
  kind : TokenKind
  deriving DecidableEq

def TokenKind.field : TokenKind -> Option Field
  | .filter clause => some clause.filter.field
  | .unfinished operator => some operator.field
  | .text _ => none

def Token.field (token : Token) : Option Field := token.kind.field

structure ParsedQuery where
  input : Text
  tokens : List Token
  deriving DecidableEq

theorem parse_keyword (field : Field) : Field.parse field.keyword = some field := by
  cases field with
  | name field => cases field <;> decide
  | _ => decide

theorem ofMembers_alternatives (members : List Single) (filter : Filter) (made : Filter.ofMembers members = some filter) :
    filter.alternatives = members := by
  unfold Filter.ofMembers at made
  split at made
  next => cases made
  next =>
    cases made
    rfl
  next =>
    simp only at made
    split at made
    next =>
      cases made
      rfl
    next => cases made

theorem alternatives_ofMembers (filter : Filter) : Filter.ofMembers filter.alternatives = some filter := by
  cases filter with
  | single value => rfl
  | anyOf set =>
    obtain ⟨field, members, several, takesSet, uniform⟩ := set
    obtain ⟨first, second, rest, rfl⟩ : ∃ first second rest, members = first :: second :: rest := by
      match members, several with
      | first :: second :: rest, _ => exact ⟨first, second, rest, rfl⟩
    have same : first.field = field := uniform first List.mem_cons_self
    subst same
    unfold Filter.alternatives Filter.ofMembers
    simp only
    rw [dif_pos ⟨takesSet, uniform⟩]

end Postio.Search

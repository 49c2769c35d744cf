import Mathlib.Algebra.GroupWithZero.Nat
import Postio.Contacts.Sightings
import Postio.Lib.Lines

set_option autoImplicit false

namespace Postio.Recipients

open Lines

abbrev EmailAddress := Sightings.EmailAddress

/-! Recipients as they are typed, and written out. -/

/-- Where the split stands: in quotes, in brackets, behind a backslash. -/
structure Scan where
  quoted : Bool
  angled : Bool
  escaped : Bool
  deriving DecidableEq

namespace Scan

def start : Scan := { quoted := false, angled := false, escaped := false }

variable (scan : Scan)

def cuts (char : Char) : Bool :=
  (char = ',' || char = ';') && !scan.quoted && !scan.angled && !scan.escaped

def step (char : Char) : Scan :=
  if scan.escaped then { scan with escaped := false }
  else if char = '\\' && scan.quoted then { scan with escaped := true }
  else if char = '"' then { scan with quoted := !scan.quoted }
  else if char = '<' && !scan.quoted then { scan with angled := true }
  else if char = '>' && !scan.quoted then { scan with angled := false }
  else scan

def run (text : List Char) : Scan := text.foldl step scan

end Scan

/-- Splits on the separators that are not inside quotes or angle brackets. -/
def splitFrom (scan : Scan) : List Char -> List (List Char)
  | [] => [[]]
  | char :: rest =>
    if scan.cuts char then [] :: splitFrom scan rest
    else (splitFrom (scan.step char) rest).modifyHead (char :: ·)

variable (scan : Scan) (input text rest : List Char)

@[simp]
theorem splitFrom_nil : splitFrom scan [] = [[]] := rfl

theorem splitFrom_cons (char : Char) (rest : List Char) : splitFrom scan (char :: rest) =
    if scan.cuts char then [] :: splitFrom scan rest else (splitFrom (scan.step char) rest).modifyHead (char :: ·) := rfl

def splitList : List (List Char) := splitFrom .start input

def rsplitOnce (mark : Char) (text : List Char) : Option (List Char × List Char) :=
  (splitOnce mark text.reverse).map (fun parts => (parts.2.reverse, parts.1.reverse))

def unescape : Bool -> List Char -> List Char
  | _, [] => []
  | escaped, char :: rest =>
    if char = '\\' && !escaped then unescape true rest else char :: unescape false rest

def quotedText (name : List Char) : Option (List Char) :=
  (stripFront ['"'] name).bind (fun rest =>
    if rest.getLast? = some '"' then some rest.dropLast else none)

def unquote (name : List Char) : List Char :=
  match quotedText name with
  | some inner => unescape false inner
  | none => name

/-- One entry, already trimmed. -/
def parseOne (entry : List Char) : Option EmailAddress :=
  if entry.isEmpty then none
  else
    match rsplitOnce '<' entry with
    | none => some { name := none, address := entry }
    | some (before, after) =>
      let address := trim (after.takeWhile (fun char => char ≠ '>'))
      let name := unquote (trim before)
      if address.isEmpty && name.isEmpty then none
      else some { name := if name.isEmpty then none else some name, address }

def parseList : List EmailAddress := (splitList input).filterMap (fun entry => parseOne (trim entry))

def display (address : EmailAddress) : List Char :=
  match address.name with
  | some name => if trim name = [] then address.address else name ++ ' ' :: '<' :: (address.address ++ ['>'])
  | none => address.address

def formatList (addresses : List EmailAddress) : List Char := List.intercalate [',', ' '] (addresses.map display)

/-! ### When a recipient is read back -/

def whole : Scan -> List Char -> Bool
  | _, [] => true
  | scan, char :: rest => !scan.cuts char && whole (scan.step char) rest

@[simp]
theorem whole_nil : whole scan [] = true := rfl

@[simp]
theorem whole_cons (char : Char) (rest : List Char) :
    whole scan (char :: rest) = (!scan.cuts char && whole (scan.step char) rest) := rfl

def plainName (address : EmailAddress) : Bool :=
  match address.name with
  | some name => trim name ≠ [] && unquote (trim name) = name
  | none => true

def settles (last : Bool) (address : EmailAddress) : Bool :=
  plainName address && whole .start (display address) && (last || Scan.run .start (display address) = .start)

/-- Every recipient among the entries is read back. -/
def entriesSettle : List (List Char) -> Bool
  | [] => true
  | entry :: rest =>
    (match parseOne (trim entry) with
      | some address => settles (rest.all (fun other => (parseOne (trim other)).isNone)) address
      | none => true) && entriesSettle rest

def steady : Bool := entriesSettle (splitList input)

/-! ### The scan -/

namespace Scan

variable (scan : Scan) (char : Char)

@[simp]
theorem run_nil : scan.run [] = scan := rfl

@[simp]
theorem run_cons (text : List Char) : scan.run (char :: text) = (scan.step char).run text := rfl

theorem run_append (text rest : List Char) : scan.run (text ++ rest) = (scan.run text).run rest :=
  List.foldl_append

theorem cuts_start (cut : scan.cuts char = true) :
    scan = start ∧ (char = ',' ∨ char = ';') := by
  obtain ⟨quoted, angled, escaped⟩ := scan
  simp only [cuts, Bool.and_eq_true, Bool.or_eq_true, decide_eq_true_eq, Bool.not_eq_true'] at cut
  obtain ⟨⟨⟨separates, rfl⟩, rfl⟩, rfl⟩ := cut
  exact ⟨rfl, separates⟩

theorem step_separator (separates : char = ',' ∨ char = ';') : start.step char = start := by
  rcases separates with rfl | rfl <;> rfl

theorem step_blank (blank : isWhitespace char = true) : start.step char = start := by
  have signs : char ≠ '"' ∧ char ≠ '<' ∧ char ≠ '>' := by
    refine ⟨?_, ?_, ?_⟩ <;>
    · rintro rfl
      exact absurd blank (by decide)
  simp [step, start, signs]

theorem run_blank (blanks : List Char) (blank : ∀ char ∈ blanks, isWhitespace char = true) : start.run blanks = start := by
  induction blanks with
  | nil => rfl
  | cons char blanks ih =>
    rw [run_cons, step_blank char (blank char List.mem_cons_self)]
    exact ih (fun other inside => blank other (List.mem_cons_of_mem _ inside))

end Scan

theorem whole_append : whole scan (text ++ rest) = (whole scan text && whole (scan.run text) rest) := by
  induction text generalizing scan with
  | nil => simp
  | cons char text ih => simp [ih, Bool.and_assoc]

theorem splitFrom_ne_nil : splitFrom scan text ≠ [] := by
  induction text generalizing scan with
  | nil => simp
  | cons char text ih =>
    rw [splitFrom_cons]
    split
    next => simp
    next =>
      cases parts : splitFrom (scan.step char) text with
      | nil => exact absurd parts (ih _)
      | cons first rest => simp

theorem splitFrom_whole (one : whole scan text = true) :
    splitFrom scan (text ++ rest) = (splitFrom (scan.run text) rest).modifyHead (text ++ ·) := by
  induction text generalizing scan with
  | nil =>
    cases parts : splitFrom scan rest <;> simp [parts]
  | cons char text ih =>
    rw [whole_cons, Bool.and_eq_true, Bool.not_eq_true'] at one
    rw [List.cons_append, splitFrom_cons, if_neg (by simp [one.1]), ih _ one.2, Scan.run_cons]
    cases parts : splitFrom ((scan.step char).run text) rest <;> simp

theorem splitFrom_one (one : whole scan text = true) : splitFrom scan text = [text] := by
  have read := splitFrom_whole scan text [] one
  simpa [splitFrom_cons] using read

theorem splitList_comma (one : whole .start text = true) (ends : Scan.run .start text = .start) :
    splitList (text ++ ',' :: rest) = text :: splitList rest := by
  unfold splitList
  rw [splitFrom_whole .start text _ one, ends]
  simp [splitFrom_cons, Scan.cuts, Scan.start]

end Postio.Recipients

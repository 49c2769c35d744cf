import Postio.Lib.Blanks
import Postio.Lib.Lowercase

set_option autoImplicit false

namespace Postio.SubjectLine

open Lines Lowercase Blanks

/-! A subject without its reply and forward marks. -/

def prefixes : List (List Char) :=
  ["fwd", "fw", "re", "aw", "sv", "vs", "antw", "odp", "ref", "rif", "enc", "tr", "res"].map String.toList

def counted (opening closing : Char) (subject : List Char) : Option (List Char) :=
  (stripFront [opening] subject).bind (fun inner => (splitOnce closing inner).bind (fun parts =>
    if parts.1 ≠ [] ∧ parts.1.all Char.isDigit then some parts.2 else none))

/-- Strips a `[2]` or `(2)` repetition counter, if one is there. -/
def stripCounter (subject : List Char) : List Char :=
  ((counted '[' ']' subject).or (counted '(' ')' subject)).getD subject

def afterWord (subject word : List Char) : Option (List Char) :=
  (stripFront word subject).bind (fun rest => (stripFront [':'] (trimStart (stripCounter rest))).map trimStart)

/-- Strips one `re:` / `fwd:` style mark, including `re[2]:` and `re(2):`. -/
def stripOne (subject : List Char) : Option (List Char) := prefixes.findSome? (afterWord (trimStart subject))

/-- The loop, for as many turns as it is given. -/
def stripFor : Nat -> List Char -> List Char
  | 0, subject => subject
  | turns + 1, subject =>
    match stripOne subject with
    | some stripped => stripFor turns stripped
    | none => subject

/-- A turn takes a character at least, so the length is turns enough. -/
theorem stripFor_succ (turns : Nat) (subject : List Char) :
    stripFor (turns + 1) subject = ((stripOne subject).map (stripFor turns)).getD subject := by
  rw [stripFor]
  cases stripOne subject <;> rfl

theorem stripFor_some (turns : Nat) (subject rest : List Char) (read : stripOne subject = some rest) :
    stripFor (turns + 1) subject = stripFor turns rest := by
  rw [stripFor_succ, read]
  rfl

theorem stripFor_none (turns : Nat) (subject : List Char) (read : stripOne subject = none) : stripFor turns subject = subject := by
  cases turns with
  | zero => rfl
  | succ turns =>
    rw [stripFor_succ, read]
    rfl

def stripAll (subject : List Char) : List Char := stripFor subject.length subject

/-- Splits off a leading `[tag]`. -/
def splitLeadingTag (subject : List Char) : List Char × List Char :=
  if subject.head? = some '[' then
    match splitOnce ']' subject with
    | some (before, after) => (before ++ [']'], trimStart after)
    | none => ([], subject)
  else ([], subject)

/-- What is left of a subject in lower case, its white space collapsed. -/
def undecorated (collapsed : List Char) : List Char :=
  let (tag, rest) := splitLeadingTag collapsed
  let rest := trim (stripAll rest)
  if tag.isEmpty then rest
  else if rest.isEmpty then tag
  else tag ++ ' ' :: rest

variable (tables : Tables)

def normalizeSubject (subject : List Char) : List Char := undecorated (collapse (toLowercase tables subject))

/-! ### The loop -/

theorem trimStart_length (text : List Char) : (trimStart text).length ≤ text.length := (List.dropWhile_sublist _).length_le

theorem stripCounter_length (subject : List Char) : (stripCounter subject).length ≤ subject.length := by
  have shorter : ∀ opening closing rest, counted opening closing subject = some rest -> rest.length ≤ subject.length := by
    intro opening closing rest read
    unfold counted at read
    obtain ⟨inner, stripped, read⟩ := Option.bind_eq_some_iff.mp read
    obtain ⟨⟨digits, after⟩, split, read⟩ := Option.bind_eq_some_iff.mp read
    split at read
    next =>
      cases read
      have whole := (splitOnce_some closing inner digits after split).1
      rw [stripFront_some _ _ _ stripped, whole]
      simp
      omega
    next => cases read
  unfold stripCounter
  cases square : counted '[' ']' subject with
  | some rest => exact shorter _ _ rest square
  | none =>
    cases round : counted '(' ')' subject with
    | some rest => exact shorter _ _ rest round
    | none => exact Nat.le_refl _

theorem afterWord_shorter (subject word rest : List Char) (read : afterWord subject word = some rest) :
    rest.length < subject.length := by
  unfold afterWord at read
  obtain ⟨behind, stripped, read⟩ := Option.bind_eq_some_iff.mp read
  obtain ⟨later, colon, rfl⟩ := Option.map_eq_some_iff.mp read
  have whole := congrArg List.length (stripFront_some _ _ _ stripped)
  have marked := congrArg List.length (stripFront_some _ _ _ colon)
  have trimmed := trimStart_length (stripCounter behind)
  have counter := stripCounter_length behind
  have ended := trimStart_length later
  simp only [List.length_append, List.length_singleton] at whole marked
  omega

theorem stripOne_shorter (subject rest : List Char) (read : stripOne subject = some rest) : rest.length < subject.length := by
  obtain ⟨word, _, found⟩ := List.exists_of_findSome?_eq_some read
  exact Nat.lt_of_lt_of_le (afterWord_shorter _ word rest found) (trimStart_length subject)

theorem stripFor_same (turns others : Nat) (subject : List Char) (enough : subject.length ≤ turns) (also : subject.length ≤ others) :
    stripFor turns subject = stripFor others subject := by
  induction turns generalizing others subject with
  | zero =>
    obtain rfl := List.eq_nil_of_length_eq_zero (Nat.le_zero.mp enough)
    exact (stripFor_none others [] (by decide)).symm
  | succ turns ih =>
    cases read : stripOne subject with
    | none => rw [stripFor_none _ subject read, stripFor_none _ subject read]
    | some rest =>
      have shorter := stripOne_shorter subject rest read
      obtain ⟨fewer, rfl⟩ : ∃ fewer, others = fewer + 1 := ⟨others - 1, by omega⟩
      rw [stripFor_some _ subject rest read, stripFor_some _ subject rest read]
      exact ih fewer rest (by omega) (by omega)

theorem stripAll_step (subject rest : List Char) (read : stripOne subject = some rest) : stripAll subject = stripAll rest := by
  have shorter := stripOne_shorter subject rest read
  unfold stripAll
  obtain ⟨fewer, length⟩ : ∃ fewer, subject.length = fewer + 1 := ⟨subject.length - 1, by omega⟩
  rw [length, stripFor_some _ subject rest read]
  exact stripFor_same fewer rest.length rest (by omega) (Nat.le_refl _)

theorem stripAll_done (subject : List Char) (read : stripOne subject = none) : stripAll subject = subject := by
  exact stripFor_none subject.length subject read

theorem stripAll_keeps (property : List Char -> Prop) (subject : List Char) (holds : property subject)
    (step : ∀ before rest, property before -> stripOne before = some rest -> property rest) : property (stripAll subject) := by
  have kept : ∀ turns text, property text -> property (stripFor turns text) := by
    intro turns
    induction turns with
    | zero => exact fun text holds => holds
    | succ turns ih =>
      intro text holds
      cases read : stripOne text with
      | some stripped =>
        rw [stripFor_some turns text stripped read]
        exact ih stripped (step text stripped holds read)
      | none =>
        rw [stripFor_none _ text read]
        exact holds
  exact kept subject.length subject holds

theorem stripAll_ends (subject : List Char) : stripOne (stripAll subject) = none := by
  have ended : ∀ turns text, text.length ≤ turns -> stripOne (stripFor turns text) = none := by
    intro turns
    induction turns with
    | zero =>
      intro text short
      obtain rfl := List.eq_nil_of_length_eq_zero (Nat.le_zero.mp short)
      decide
    | succ turns ih =>
      intro text short
      cases read : stripOne text with
      | some stripped =>
        have shorter := stripOne_shorter text stripped read
        rw [stripFor_some turns text stripped read]
        exact ih stripped (by omega)
      | none =>
        rw [stripFor_none _ text read]
        exact read
  exact ended subject.length subject (Nat.le_refl _)

/-! ### A subject under replies and forwards. -/

def Counts (counter : List Char) : Prop :=
  counter = [] ∨ ∃ digits : List Char, digits ≠ [] ∧ digits.all Char.isDigit = true ∧
    (counter = '[' :: (digits ++ [']']) ∨ counter = '(' :: (digits ++ [')']))

/-- A reply or forward mark, as it may be written. -/
structure Marker where
  word : List Char
  before : List Char
  spelled : List Char
  counter : List Char
  gap : List Char
  after : List Char
  known : word ∈ prefixes
  folded : spelled.map Char.toLower = word
  counts : Counts counter
  blank : ∀ char ∈ before ++ gap ++ after, isWhitespace char = true

def Marker.text (marker : Marker) : List Char :=
  marker.before ++ (marker.spelled ++ (marker.counter ++ (marker.gap ++ ':' :: marker.after)))

def Marker.lowered (marker : Marker) : List Char :=
  marker.before ++ (marker.word ++ (marker.counter ++ (marker.gap ++ ':' :: marker.after)))

def decoration (markers : List Marker) : List Char := markers.flatMap Marker.text

def leadingTag (subject : List Char) : Option (List Char × List Char) :=
  if (trimStart subject).head? = some '[' then (splitOnce ']' subject).map (fun parts => (parts.1 ++ [']'], parts.2)) else none

variable (tables : Tables)

variable (subject : List Char)

/-- Normalising once is enough, and marks before the subject or after its tag change nothing. -/
def Stable : Prop :=
  normalizeSubject tables (normalizeSubject tables subject) = normalizeSubject tables subject ∧
    ∀ markers, normalizeSubject tables (decoration markers ++ subject) = normalizeSubject tables subject ∧
      ∀ tag rest, leadingTag subject = some (tag, rest) ->
        normalizeSubject tables (tag ++ (decoration markers ++ rest)) = normalizeSubject tables subject

def settled (text : List Char) : Bool :=
  let (tag, rest) := splitLeadingTag text
  tag.isEmpty || rest.isEmpty || (text = tag ++ ' ' :: rest && (stripOne rest).isNone)

def marked : List Char := (leadingTag subject).elim subject (fun parts => parts.2)

def steady : Bool :=
  !opensOnSigma tables (marked subject) && settled (stripAll (collapse (toLowercase tables subject)))

/-! ### One mark -/

theorem prefixes_letters : ∀ word ∈ prefixes, word ≠ [] ∧ word.all Char.isLower = true := by decide +kernel

theorem isLower_solid (char : Char) (letter : char.isLower = true) :
    isWhitespace char = false ∧ char ≠ '[' ∧ char ≠ '(' ∧ char ≠ ':' := by
  have low : 97 ≤ char.toNat ∧ char.toNat ≤ 122 := by
    unfold Char.isLower at letter
    simp only [ge_iff_le, Bool.and_eq_true, decide_eq_true_eq, UInt32.le_iff_toNat_le] at letter
    exact letter
  refine ⟨?_, ?_, ?_, ?_⟩
  next =>
    unfold isWhitespace
    simp only [List.contains_eq_mem, List.mem_cons, List.not_mem_nil, or_false, Bool.or_eq_false_iff, Bool.and_eq_false_iff,
      decide_eq_false_iff_not]
    omega
  all_goals
    rintro rfl
    exact absurd low (by decide)

def Ends (rest : List Char) : Prop := ∀ char ∈ rest.head?, char.isLower = false

theorem afterWord_other (word other rest : List Char) (known : word ∈ prefixes) (also : other ∈ prefixes) (apart : other ≠ word)
    (ends : Ends rest) : afterWord (word ++ rest) other = none := by
  unfold afterWord
  cases stripped : stripFront other (word ++ rest) with
  | none => rfl
  | some behind =>
    have whole := stripFront_some _ _ _ stripped
    rcases List.append_eq_append_iff.mp whole with ⟨more, longer, left⟩ | ⟨more, longer, left⟩
    next =>
      -- The other word goes on past this one, and nothing here does.
      cases more with
      | nil => exact absurd (by simpa using longer) apart
      | cons char more =>
        have letters := (prefixes_letters other also).2
        rw [longer, List.all_append, List.all_cons] at letters
        have not_letter := ends char (by rw [left]; rfl)
        simp [not_letter] at letters
    next =>
      cases more with
      | nil => exact absurd (by simpa using longer.symm) apart
      | cons char more =>
        have letters := (prefixes_letters word known).2
        rw [longer, List.all_append, List.all_cons] at letters
        have letter : char.isLower = true := by
          simp only [Bool.and_eq_true] at letters
          exact letters.2.1
        obtain ⟨solid, not_square, not_round, not_colon⟩ := isLower_solid char letter
        have no_counter : ∀ opening closing, char ≠ opening -> counted opening closing behind = none := by
          intro opening closing other
          unfold counted stripFront
          rw [left, if_neg]
          next => rfl
          next => simpa [List.isPrefixOf] using fun same => other same.symm
        have uncounted : stripCounter behind = behind := by
          unfold stripCounter
          rw [no_counter '[' ']' not_square, no_counter '(' ')' not_round]
          rfl
        rw [Option.bind_some, uncounted, left]
        have kept : trimStart (char :: more ++ rest) = char :: more ++ rest := List.dropWhile_cons_of_neg (by simp [solid])
        rw [kept]
        unfold stripFront
        rw [if_neg]
        next => rfl
        next => simpa [List.isPrefixOf] using fun same => not_colon same.symm

theorem findSome_only {A B : Type} (read : A -> Option B) (values : List A) (value : A) (result : B) (among : value ∈ values)
    (here : read value = some result) (others : ∀ other ∈ values, other ≠ value -> read other = none) :
    values.findSome? read = some result := by
  induction values with
  | nil => cases among
  | cons first values ih =>
    rw [List.findSome?_cons]
    by_cases same : first = value
    case pos => rw [same, here]
    case neg =>
      rw [others first List.mem_cons_self same]
      apply ih
      next => exact (List.mem_cons.mp among).resolve_left (fun equal => same equal.symm)
      next => exact fun other inside => others other (List.mem_cons_of_mem _ inside)

theorem blank_not_lower (char : Char) (blank : isWhitespace char = true) : char.isLower = false := by
  rw [Bool.eq_false_iff]
  intro letter
  rw [(isLower_solid char letter).1] at blank
  cases blank

theorem trimStart_blanks (blanks rest : List Char) (blank : ∀ char ∈ blanks, isWhitespace char = true) :
    trimStart (blanks ++ rest) = trimStart rest := by
  unfold trimStart
  exact List.dropWhile_append_of_pos blank

theorem counted_here (opening closing : Char) (digits rest : List Char) (some_digit : digits ≠ [])
    (all_digits : digits.all Char.isDigit = true) (apart : closing.isDigit = false) :
    counted opening closing (opening :: (digits ++ closing :: rest)) = some rest := by
  have absent : closing ∉ digits := by
    intro inside
    rw [List.all_eq_true.mp all_digits closing inside] at apart
    cases apart
  unfold counted
  rw [show opening :: (digits ++ closing :: rest) = [opening] ++ (digits ++ closing :: rest) by rfl, stripFront_append]
  rw [Option.bind_some, splitOnce_append closing digits rest absent, Option.bind_some, if_pos ⟨some_digit, all_digits⟩]

theorem counted_other (opening closing first : Char) (rest : List Char) (other : first ≠ opening) :
    counted opening closing (first :: rest) = none := by
  unfold counted stripFront
  rw [if_neg]
  next => rfl
  next => simpa [List.isPrefixOf] using fun same => other same.symm

theorem stripCounter_counter (counter rest : List Char) (counts : Counts counter)
    (plain : ∀ char ∈ rest.head?, char ≠ '[' ∧ char ≠ '(') : stripCounter (counter ++ rest) = rest := by
  unfold stripCounter
  rcases counts with rfl | ⟨digits, some_digit, all_digits, rfl | rfl⟩
  next =>
    cases rest with
    | nil => rfl
    | cons char rest =>
      obtain ⟨not_square, not_round⟩ := plain char rfl
      rw [List.nil_append, counted_other '[' ']' char rest not_square, counted_other '(' ')' char rest not_round]
      rfl
  next =>
    rw [List.cons_append, List.append_assoc, List.singleton_append,
      counted_here '[' ']' digits rest some_digit all_digits (by decide)]
    rfl
  next =>
    rw [List.cons_append, List.append_assoc, List.singleton_append, counted_other '[' ']' '(' _ (by decide),
      counted_here '(' ')' digits rest some_digit all_digits (by decide)]
    rfl

theorem stripOne_mark (word counter gap rest : List Char) (known : word ∈ prefixes) (counts : Counts counter)
    (blank : ∀ char ∈ gap, isWhitespace char = true) :
    stripOne (word ++ (counter ++ (gap ++ ':' :: rest))) = some (trimStart rest) := by
  have plain : ∀ char ∈ (gap ++ ':' :: rest).head?, char.isLower = false ∧ char ≠ '[' ∧ char ≠ '(' := by
    cases gap with
    | nil => simp
    | cons char gap =>
      intro first same
      obtain rfl : char = first := by simpa using same
      have is_blank := blank char List.mem_cons_self
      refine ⟨blank_not_lower char is_blank, ?_, ?_⟩
      all_goals
        rintro rfl
        exact absurd is_blank (by decide)
  have ends : Ends (counter ++ (gap ++ ':' :: rest)) := by
    rcases counts with rfl | ⟨digits, _, _, rfl | rfl⟩
    next => exact fun char first => (plain char first).1
    next => simp [Ends]
    next => simp [Ends]
  obtain ⟨some_letter, letters⟩ := prefixes_letters word known
  obtain ⟨char, more, rfl⟩ := List.exists_cons_of_ne_nil some_letter
  rw [List.all_cons, Bool.and_eq_true] at letters
  have kept : trimStart ((char :: more) ++ (counter ++ (gap ++ ':' :: rest))) = (char :: more) ++ (counter ++ (gap ++ ':' :: rest)) :=
    List.dropWhile_cons_of_neg (by simp [(isLower_solid char letters.1).1])
  unfold stripOne
  rw [kept]
  apply findSome_only _ _ (char :: more) _ known
  next =>
    unfold afterWord
    rw [stripFront_append, Option.bind_some, stripCounter_counter counter _ counts (fun char first => (plain char first).2),
      trimStart_blanks gap _ blank]
    have colon : trimStart (':' :: rest) = [':'] ++ rest := List.dropWhile_cons_of_neg (by decide)
    rw [colon, stripFront_append, Option.map_some]
  next => exact fun other also apart => afterWord_other (char :: more) other _ known also apart ends

theorem stripOne_head (text rest : List Char) (read : stripOne text = some rest) : ∃ char ∈ (trimStart text).head?, char.isLower = true := by
  obtain ⟨word, known, found⟩ := List.exists_of_findSome?_eq_some read
  unfold afterWord at found
  obtain ⟨behind, stripped, _⟩ := Option.bind_eq_some_iff.mp found
  obtain ⟨some_letter, letters⟩ := prefixes_letters word known
  obtain ⟨char, more, rfl⟩ := List.exists_cons_of_ne_nil some_letter
  rw [List.all_cons, Bool.and_eq_true] at letters
  exact ⟨char, by rw [stripFront_some _ _ _ stripped]; rfl, letters.1⟩

theorem stripOne_suffix (text rest : List Char) (read : stripOne text = some rest) : ∃ before after, text = before ++ after ∧ rest = trimStart after := by
  obtain ⟨word, known, found⟩ := List.exists_of_findSome?_eq_some read
  unfold afterWord at found
  obtain ⟨behind, stripped, found⟩ := Option.bind_eq_some_iff.mp found
  obtain ⟨later, colon, rfl⟩ := Option.map_eq_some_iff.mp found
  have tail : ∀ part : List Char, ∃ before, part = before ++ trimStart part := fun part =>
    ⟨part.takeWhile isWhitespace, List.takeWhile_append_dropWhile.symm⟩
  have counter_tail : ∃ before, behind = before ++ stripCounter behind := by
    have found_tail : ∀ opening closing after, counted opening closing behind = some after -> ∃ before, behind = before ++ after := by
      intro opening closing after counter
      unfold counted at counter
      obtain ⟨inner, opened, counter⟩ := Option.bind_eq_some_iff.mp counter
      obtain ⟨⟨digits, closed⟩, split, counter⟩ := Option.bind_eq_some_iff.mp counter
      split at counter
      next =>
        cases counter
        refine ⟨[opening] ++ (digits ++ [closing]), ?_⟩
        rw [stripFront_some _ _ _ opened, (splitOnce_some closing inner digits closed split).1]
        simp
      next => cases counter
    unfold stripCounter
    cases square : counted '[' ']' behind with
    | some after => exact found_tail _ _ after square
    | none =>
      cases round : counted '(' ')' behind with
      | some after => exact found_tail _ _ after round
      | none => exact ⟨[], rfl⟩
  obtain ⟨first, leading⟩ := tail text
  obtain ⟨second, middle⟩ := counter_tail
  obtain ⟨third, spaced⟩ := tail (stripCounter behind)
  refine ⟨first ++ (word ++ (second ++ (third ++ [':']))), later, ?_, rfl⟩
  have marked := stripFront_some _ _ _ colon
  calc text = first ++ trimStart text := leading
    _ = first ++ (word ++ behind) := by rw [stripFront_some _ _ _ stripped]
    _ = first ++ (word ++ (second ++ (third ++ ([':'] ++ later)))) := by rw [middle, ← marked, ← spaced, ← middle]
    _ = _ := by simp

end Postio.SubjectLine

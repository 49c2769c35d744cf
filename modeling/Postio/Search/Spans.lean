import Postio.Search.Parser

set_option autoImplicit false

namespace Postio.Search

open Slices (reach slice Boundary)

/-! Whether reading a query comes to an end, and where its tokens stand. -/

/-- The value an operator reads as a date, and what it makes of the date. -/
def dateOperand (field : Field) (raw : Text) : Option ((NaiveDate -> Single) × Text) :=
  if raw.head? = some '{' || (unquote raw).isEmpty then none
  else
    match field with
    | .after => some (.after, unquote raw)
    | .before => some (.before, unquote raw)
    | _ => none

variable (env : Env) (today : NaiveDate) (raw input : Text)

/-- `operator` where overflow is checked: only a date is read with arithmetic that may. -/
def operatorChecked (negated : Bool) (field : Field) (raw : Text) : Except Overflow TokenKind :=
  match dateOperand field raw with
  | some (make, value) =>
    (parseDateChecked env.unicode value today).map (fun date =>
      match date with
      | some date => .filter { negated, filter := .single (make date) }
      | none => .unfinished { negated, field, value })
  | none => .ok (operator env today negated field raw)

def classifyChecked : Except Overflow (Option TokenKind) :=
  if meaningless raw then .ok none
  else
    match operands raw with
    | some (negated, field, value) => (operatorChecked env today negated field value).map some
    | none => .ok (freeText raw)

def tokensChecked (env : Env) (today : NaiveDate) : List (Nat × Text) -> Except Overflow (List Token)
  | [] => .ok []
  | (start, raw) :: rest =>
    (classifyChecked env today raw).bind (fun kind =>
      (tokensChecked env today rest).map (fun tokens => (kind.map (tokenAt start raw)).toList ++ tokens))

/-- `parse` where overflow is checked, as in every build but a release. -/
def parseChecked : Except Overflow ParsedQuery :=
  (tokensChecked env today (query.words input)).map (fun tokens => { input, tokens })

/-- Whether a word asks for a date that multiplies beyond a `u32`. -/
def Exceeds : Prop :=
  ∃ negated field value make date, operands raw = some (negated, field, value) ∧
    dateOperand field value = some (make, date) ∧ Overflows env.unicode date

theorem operatorChecked_exact (negated : Bool) (field : Field) (raw : Text) :
    ((∃ make date, dateOperand field raw = some (make, date) ∧ Overflows env.unicode date) →
      operatorChecked env today negated field raw = .error .multiply) ∧
    ((¬ ∃ make date, dateOperand field raw = some (make, date) ∧ Overflows env.unicode date) →
      operatorChecked env today negated field raw = .ok (operator env today negated field raw)) := by
  unfold operatorChecked
  cases asked : dateOperand field raw with
  | none => exact ⟨by simp, fun _ => rfl⟩
  | some operand =>
    obtain ⟨make, value⟩ := operand
    obtain ⟨overflows, reads⟩ := parseDateChecked_exact env.unicode value today
    constructor
    next =>
      rintro ⟨make, date, same, excess⟩
      cases same
      simp only [overflows excess, Except.map]
    next =>
      intro fine
      have small : ¬ Overflows env.unicode value := fun excess => fine ⟨make, value, rfl, excess⟩
      simp only [reads small, Except.map]
      unfold dateOperand at asked
      split at asked
      next => cases asked
      next usable =>
        rw [Bool.or_eq_true, not_or, decide_eq_true_eq] at usable
        congr 1
        split at asked
        next =>
          cases asked
          unfold operator
          rw [if_neg (by decide), if_neg usable.1]
          simp only [usable.2, readValue, Bool.false_eq_true, if_false]
          cases parseDate env.unicode (unquote raw) today <;> rfl
        next =>
          cases asked
          unfold operator
          rw [if_neg (by decide), if_neg usable.1]
          simp only [usable.2, readValue, Bool.false_eq_true, if_false]
          cases parseDate env.unicode (unquote raw) today <;> rfl
        next => cases asked

theorem operands_meaningless (empty : meaningless raw = true) : operands raw = none := by
  have split : ∀ text : Text, (∀ char ∈ text, char = '-' ∨ char = '"') → splitOperator text = none := by
    intro text
    induction text with
    | nil => simp [splitOperator]
    | cons char text ih =>
      intro only
      obtain ⟨first, rest⟩ := List.forall_mem_cons.mp only
      unfold splitOperator
      rcases first with rfl | rfl
      next => simp [ih rest]
      next => simp
  unfold meaningless at empty
  simp only [List.all_eq_true, Bool.or_eq_true, decide_eq_true_eq] at empty
  have body : ∀ char ∈ (negation raw).2, char = '-' ∨ char = '"' := by
    intro char inside
    refine empty char ?_
    unfold negation at inside
    split at inside
    next rest =>
      split at inside
      next => exact inside
      next => exact List.mem_cons_of_mem _ inside
    next => exact inside
  unfold operands
  rw [split _ body]
  rfl

theorem classifyChecked_exact : (Exceeds env raw → classifyChecked env today raw = .error .multiply) ∧
      (¬ Exceeds env raw → classifyChecked env today raw = .ok (classify env today raw)) := by
  unfold classifyChecked classify
  by_cases empty : meaningless raw = true
  case pos =>
    rw [if_pos empty, if_pos empty]
    refine ⟨?_, fun _ => rfl⟩
    rintro ⟨negated, field, value, make, date, read, -⟩
    rw [operands_meaningless raw empty] at read
    cases read
  case neg =>
    rw [if_neg empty, if_neg empty]
    cases read : operands raw with
    | none =>
      refine ⟨?_, fun _ => rfl⟩
      rintro ⟨negated, field, value, make, date, other, -⟩
      rw [read] at other
      cases other
    | some found =>
      obtain ⟨negated, field, value⟩ := found
      obtain ⟨overflows, reads⟩ := operatorChecked_exact env today negated field value
      constructor
      next =>
        rintro ⟨_, _, _, make, date, same, asked, excess⟩
        rw [read] at same
        cases same
        simp only [overflows ⟨make, date, asked, excess⟩, Except.map]
      next =>
        intro fine
        have small := reads (fun ⟨make, date, asked, excess⟩ => fine ⟨negated, field, value, make, date, read, asked, excess⟩)
        simp only [small, Except.map]

theorem tokensChecked_exact (found : List (Nat × Text)) :
    ((∃ word ∈ found, Exceeds env word.2) → tokensChecked env today found = .error .multiply) ∧
    ((∀ word ∈ found, ¬ Exceeds env word.2) → tokensChecked env today found =
      .ok (found.filterMap (fun word => (classify env today word.2).map (tokenAt word.1 word.2)))) := by
  induction found with
  | nil => exact ⟨by simp, fun _ => rfl⟩
  | cons word rest ih =>
    obtain ⟨start, raw⟩ := word
    obtain ⟨overflows, reads⟩ := classifyChecked_exact env today raw
    unfold tokensChecked
    constructor
    next =>
      rintro ⟨word, inside, excess⟩
      by_cases here : Exceeds env raw
      case pos => simp only [overflows here, Except.bind]
      case neg =>
        rcases List.mem_cons.mp inside with rfl | inside
        next => exact absurd excess here
        next => simp only [reads here, Except.bind, ih.1 ⟨word, inside, excess⟩, Except.map]
    next =>
      intro fine
      obtain ⟨first, others⟩ := List.forall_mem_cons.mp fine
      simp only [reads first, Except.bind, ih.2 others, Except.map]
      cases kind : classify env today raw <;> simp [kind]

theorem parseChecked_exact :
    ((∃ raw ∈ query.raws input, Exceeds env raw) → parseChecked env today input = .error .multiply) ∧
      ((∀ raw ∈ query.raws input, ¬ Exceeds env raw) → parseChecked env today input = .ok (parse env today input)) := by
  obtain ⟨overflows, reads⟩ := tokensChecked_exact env today (query.words input)
  unfold parseChecked Scanner.raws
  constructor
  next =>
    rintro ⟨raw, inside, excess⟩
    obtain ⟨word, among, rfl⟩ := List.mem_map.mp inside
    simp only [overflows ⟨word, among, excess⟩, Except.map]
  next =>
    intro fine
    simp only [reads (fun word inside => fine word.2 (List.mem_map_of_mem inside)), Except.map]
    rfl

def Separates (char : Char) : Prop := Lines.isWhitespace char = true ∨ char = '-' ∨ char = '"'

/-- The tokens stand in the input where they are said to, one after the other, and what is in none of them separates. -/
structure Stands (parsed : ParsedQuery) : Prop where
  ascending : parsed.tokens.Pairwise (fun first second => first.span.stop ≤ second.span.start)
  bounded : ∀ token ∈ parsed.tokens, Boundary Char.utf8Size parsed.input token.span.start ∧
    Boundary Char.utf8Size parsed.input token.span.stop ∧ token.span.start < token.span.stop
  raw : ∀ token ∈ parsed.tokens, slice Char.utf8Size token.span.start token.span.stop parsed.input = token.raw
  between : ∀ front char back, parsed.input = front ++ char :: back →
    Separates char ∨ ∃ token ∈ parsed.tokens, token.span.start ≤ reach Char.utf8Size front ∧
      reach Char.utf8Size front < token.span.stop

theorem freeText_none (dropped : freeText raw = none) : ∀ char ∈ raw, char = '-' ∨ char = '"' := by
  have quotes : ∀ text : Text, unquote text = [] → ∀ char ∈ text, char = '"' := by
    intro text empty
    have all : ∀ char ∈ text.dropWhile isQuote, isQuote char = true := by
      have dropped := List.rdropWhile_eq_nil_iff.mp empty
      exact dropped
    have none : text.dropWhile isQuote = [] := by
      cases rest : text.dropWhile isQuote with
      | nil => rfl
      | cons char others =>
        have failed := List.head?_dropWhile_not isQuote text
        rw [rest] at failed all
        have quote := all char List.mem_cons_self
        simp [quote] at failed
    have every := List.dropWhile_eq_nil_iff.mp none
    exact fun char inside => of_decide_eq_true (every char inside)
  have empty : unquote (negation raw).2 = [] := by
    unfold freeText at dropped
    simp only at dropped
    split at dropped
    next empty => exact List.isEmpty_iff.mp empty
    next => cases dropped
  intro char inside
  have body := quotes _ empty
  unfold negation at body
  split at body
  next rest =>
    split at body
    next => exact .inr (body char inside)
    next =>
      rcases List.mem_cons.mp inside with rfl | inside
      next => exact .inl rfl
      next => exact .inr (body char inside)
  next => exact .inr (body char inside)

theorem classify_none (dropped : classify env today raw = none) :
    ∀ char ∈ raw, char = '-' ∨ char = '"' := by
  unfold classify at dropped
  split at dropped
  next empty => simpa [meaningless] using empty
  next =>
    split at dropped
    next => cases dropped
    next => exact freeText_none raw dropped

theorem parse_stands : Stands (parse env today input) := by
  have rendered := query.words_rendered input
  have stands := rendered.stands query
  have apart := rendered.apart query
  have between := rendered.between query utf8Size_pos
  have word_of : ∀ token ∈ (parse env today input).tokens, ∃ word ∈ query.words input, ∃ kind, token = tokenAt word.1 word.2 kind := by
    intro token inside
    obtain ⟨word, among, made⟩ := List.mem_filterMap.mp inside
    obtain ⟨kind, -, rfl⟩ := Option.map_eq_some_iff.mp made
    exact ⟨word, among, kind, rfl⟩
  have placed : ∀ word ∈ query.words input, ∃ before after, input = before ++ (word.2 ++ after) ∧
      reach Char.utf8Size before = word.1 ∧ word.2 ≠ [] := by
    intro word inside
    obtain ⟨before, after, whole, reached, isWord⟩ := stands word inside
    refine ⟨before, after, whole, (Nat.zero_add _).symm.trans reached, ?_⟩
    intro empty
    rw [empty] at isWord
    exact isWord
  refine ⟨?_, ?_, ?_, ?_⟩
  next =>
    refine List.Pairwise.filterMap _ ?_ apart
    intro first second ordered one made two also
    obtain ⟨kind, -, rfl⟩ := Option.map_eq_some_iff.mp made
    obtain ⟨other, -, rfl⟩ := Option.map_eq_some_iff.mp also
    exact ordered
  next =>
    intro token inside
    obtain ⟨word, among, kind, rfl⟩ := word_of token inside
    obtain ⟨before, after, whole, reached, filled⟩ := placed word among
    refine ⟨⟨before, word.2 ++ after, whole, reached⟩, ⟨before ++ word.2, after, ?_, ?_⟩, ?_⟩
    next => rw [List.append_assoc]; exact whole
    next => rw [Slices.reach_append, reached]; rfl
    next =>
      have further := reach_pos word.2 filled
      exact Nat.lt_add_of_pos_right further
  next =>
    intro token inside
    obtain ⟨word, among, kind, rfl⟩ := word_of token inside
    obtain ⟨before, after, whole, reached, filled⟩ := placed word among
    have cut := Slices.slice_reach Char.utf8Size utf8Size_pos before word.2 after
    rw [← whole, reached] at cut
    exact cut
  next =>
    intro front char back whole
    rcases between front back char whole with blank | ⟨word, among, low, high, inside⟩
    next => exact .inl (.inl blank)
    next =>
      cases kind : classify env today word.2 with
      | none => exact .inl (.inr (classify_none env today word.2 kind char inside))
      | some found =>
        rw [Nat.zero_add] at low high
        refine .inr ⟨tokenAt word.1 word.2 found, ?_, low, high⟩
        exact List.mem_filterMap.mpr ⟨word, among, by rw [kind]; rfl⟩

/-- Parsing answers, with exact spans, just when no word asks for a number of quarters or years that multiplies out of
its type. -/
theorem parse_total : (∃ parsed, parseChecked env today input = .ok parsed ∧ parsed.input = input ∧ Stands parsed) <->
      ∀ raw ∈ query.raws input, ¬ Exceeds env raw := by
  obtain ⟨overflows, reads⟩ := parseChecked_exact env today input
  constructor
  next =>
    rintro ⟨parsed, answered, -⟩ raw inside excess
    rw [overflows ⟨raw, inside, excess⟩] at answered
    cases answered
  next => exact fun fine => ⟨_, reads fine, rfl, parse_stands env today input⟩

def plainEnv : Env := { unicode := asciiTables, decode := id }

def someDay : NaiveDate := { date := { year := 2026, month := 8, day := 22, valid := by decide }, inRange := by decide }

/-- Three times as many months as quarters are more than a `u32` holds. -/
theorem quarters_overflow :
    parseChecked plainEnv someDay "after:1500000000q".toList = .error .multiply ∧
      ¬ ∀ (env : Env) (today : NaiveDate) (input : Text),
        ∃ parsed, parseChecked env today input = .ok parsed ∧ parsed.input = input ∧ Stands parsed := by
  have overflows : parseChecked plainEnv someDay "after:1500000000q".toList = .error .multiply := by
    decide +kernel
  refine ⟨overflows, fun always => ?_⟩
  obtain ⟨parsed, answered, -⟩ := always plainEnv someDay "after:1500000000q".toList
  rw [overflows] at answered
  cases answered

end Postio.Search

import Postio.Search.Parser

set_option autoImplicit false

namespace Postio.Search

/-! The canonical text of a clause: the one form term edits write. -/

variable (state : Scan) (negated : Bool) (field : Field) (value : Text)

def quoted : Text :=
  if value.isEmpty || value.any (fun char => Lines.isWhitespace char || char = '{' || char = '}') then '"' :: value ++ ['"']
  else value

def padded (width number : Nat) : Text :=
  List.replicate (width - (Nat.toDigits 10 number).length) '0' ++ Nat.toDigits 10 number

/-- `%Y`: four digits, with a sign where they are not enough. -/
def spellYear (year : Int) : Text :=
  (if year < 0 then ['-'] else if 9999 < year then ['+'] else []) ++ padded 4 year.natAbs

/-- `%Y-%m-%d`. -/
def spellDate (date : NaiveDate) : Text :=
  spellYear date.date.year ++ '-' :: (padded 2 date.date.month ++ '-' :: padded 2 date.date.day)

def State.word : State -> Text
  | .unread => "unread".toList
  | .read => "read".toList
  | .flagged => "flagged".toList
  | .bulk => "bulk".toList
  | .automated => "automated".toList

/-- One value's text, without its keyword. -/
def spellValue : Single -> Text
  | .name _ value => quoted value
  | .header name none => name
  | .header name (some value) => name ++ '=' :: quoted value
  | .withAddresses addresses => quoted (Separated.join ',' addresses)
  | .hasAttachment => "attachment".toList
  | .hasAction => "action".toList
  | .is state => state.word
  | .after date => spellDate date
  | .before date => spellDate date
  | .larger bytes => spellSize bytes
  | .smaller bytes => spellSize bytes

def spellOne (single : Single) : Text := single.field.keyword ++ ':' :: spellValue single

/-- A set is its field's keyword and its members' values in braces. -/
def spellFilter : Filter -> Text
  | .anyOf set =>
    let values := set.members.map (fun member =>
      ((Lines.splitOnce ':' (spellOne member)).map Prod.snd).getD (spellOne member))
    set.field.keyword ++ ':' :: '{' :: (Separated.join ' ' values ++ ['}'])
  | .single value => spellOne value

def spell (clause : Clause) : Text := if clause.negated then '-' :: spellFilter clause.filter else spellFilter clause.filter

def Filter.operand : Filter -> Text
  | .anyOf set => '{' :: (Separated.join ' ' (set.members.map spellValue) ++ ['}'])
  | .single value => spellValue value

def opener : Text := (if negated then ['-'] else []) ++ field.keyword ++ [':']

theorem keyword_plain : ':' ∉ field.keyword ∧ '"' ∉ field.keyword ∧ '-' ∉ field.keyword ∧ field.keyword ≠ [] := by
  cases field with
  | name field => cases field <;> decide
  | _ => decide

theorem spell_eq (clause : Clause) : spell clause = opener clause.negated clause.filter.field ++ clause.filter.operand := by
  have body : spellFilter clause.filter = clause.filter.field.keyword ++ ':' :: clause.filter.operand := by
    cases clause.filter with
    | single value => rfl
    | anyOf set =>
      have values : ∀ member : Single,
          ((Lines.splitOnce ':' (spellOne member)).map Prod.snd).getD (spellOne member) = spellValue member := by
        intro member
        rw [spellOne, Lines.splitOnce_append ':' _ _ (keyword_plain member.field).1]
        rfl
      simp only [spellFilter, values, Filter.operand, Filter.field]
  unfold spell opener
  cases clause.negated <;> simp [body]

/-! ### Reading an operator -/

theorem splitOperator_append (keyword value : Text) (no_quote : '"' ∉ keyword) (no_colon : ':' ∉ keyword) :
    splitOperator (keyword ++ ':' :: value) = some (keyword, value) := by
  induction keyword with
  | nil => rfl
  | cons char keyword ih =>
    rw [List.mem_cons, not_or] at no_quote no_colon
    rw [List.cons_append, splitOperator, if_neg (Ne.symm no_quote.1), if_neg (Ne.symm no_colon.1), ih no_quote.2 no_colon.2]
    rfl

theorem operands_opener :
    operands (opener negated field ++ value) = some (negated, field, value) := by
  obtain ⟨no_colon, no_quote, no_dash, filled⟩ := keyword_plain field
  have body : negation (opener negated field ++ value) = (negated, field.keyword ++ ':' :: value) := by
    obtain ⟨first, rest, word⟩ := List.exists_cons_of_ne_nil filled
    have letter : first ≠ '-' := fun same => no_dash (by simp [word, same])
    unfold opener negation
    cases negated with
    | true => simp [word]
    | false =>
      simp only [word, List.nil_append, List.cons_append, Bool.false_eq_true, if_false]
      split
      next same => exact absurd (List.cons.inj same).1 letter
      next => simp
  unfold operands
  rw [body]
  simp only [splitOperator_append _ _ no_quote no_colon, Option.bind_some, parse_keyword, Option.map_some]

theorem meaningless_opener : meaningless (opener negated field ++ value) = false := by
  unfold meaningless opener
  simp

theorem classify_opener (env : Env) (today : NaiveDate) (negated : Bool) (field : Field) (value : Text) :
    classify env today (opener negated field ++ value) = some (operator env today negated field value) := by
  unfold classify
  rw [meaningless_opener, operands_opener]
  rfl

/-! ### A spelled clause is one word -/

theorem unbroken_opener :
    query.Unbroken query.start (opener negated field) ∧
      query.state (opener negated field) = { before := opener negated field, inQuotes := false, inSet := false } ∧
      opensSet (opener negated field) = true := by
  have solid : ∀ char ∈ opener negated field, query.blank char = false := by
    cases field with
    | name field => cases negated <;> cases field <;> exact Lines.forall_of_all _ (by decide)
    | _ => cases negated <;> exact Lines.forall_of_all _ (by decide)
  refine ⟨query.unbroken_solid _ _ solid, ?_, ?_⟩
  next =>
    cases field with
    | name field => cases negated <;> cases field <;> rfl
    | _ => cases negated <;> rfl
  next =>
    cases field with
    | name field => cases negated <;> cases field <;> decide
    | _ => cases negated <;> decide

theorem scan_plain (text : Text) (plain : ∀ char ∈ text, char ≠ '"' ∧ char ≠ '{' ∧ char ≠ '}') :
    text.foldl Scan.next state = { state with before := state.before ++ text } := by
  induction text generalizing state with
  | nil => simp
  | cons char text ih =>
    obtain ⟨⟨no_quote, no_open, no_close⟩, rest⟩ := List.forall_mem_cons.mp plain
    rw [List.foldl_cons, ih _ rest]
    simp [Scan.next, no_quote, no_open, no_close]

theorem scan_inside (text : Text) (open_quote : state.inQuotes = true) (no_quote : '"' ∉ text) :
    text.foldl Scan.next state = { state with before := state.before ++ text } ∧ query.Unbroken state text := by
  induction text generalizing state with
  | nil => exact ⟨by simp, trivial⟩
  | cons char text ih =>
    rw [List.mem_cons, not_or] at no_quote
    have step : state.next char = { state with before := state.before ++ [char] } := by
      simp [Scan.next, Ne.symm no_quote.1, open_quote]
    have further := ih { state with before := state.before ++ [char] } open_quote no_quote.2
    refine ⟨?_, ?_, ?_⟩
    next => rw [List.foldl_cons, step, further.1]; simp
    next => simp [query, open_quote]
    next =>
      have next := further.2
      rwa [← step] at next

theorem quoted_cases :
    quoted value = '"' :: value ++ ['"'] ∨
      quoted value = value ∧ value ≠ [] ∧ ∀ char ∈ value, Lines.isWhitespace char = false ∧ char ≠ '{' ∧ char ≠ '}' := by
  unfold quoted
  split
  next => exact .inl rfl
  next bare =>
    refine .inr ⟨rfl, ?_, ?_⟩
    next =>
      rintro rfl
      exact bare rfl
    next =>
      intro char inside
      simp only [Bool.or_eq_true, not_or, List.any_eq_true, not_exists, not_and, decide_eq_true_eq] at bare
      have apart := bare.2 char inside
      exact ⟨Bool.eq_false_iff.mpr apart.1.1, apart.1.2, apart.2⟩

theorem scan_quoted (closed : state.inQuotes = false) (no_quote : '"' ∉ value) :
    (quoted value).foldl Scan.next state = { state with before := state.before ++ quoted value } ∧
      query.Unbroken state (quoted value) := by
  rcases quoted_cases value with wrapped | ⟨bare, -, solid⟩
  next =>
    rw [wrapped]
    have first : state.next '"' = { state with before := state.before ++ ['"'], inQuotes := true } := by
      simp [Scan.next, closed]
    obtain ⟨whole, unbroken⟩ := scan_inside { state with before := state.before ++ ['"'], inQuotes := true } value rfl no_quote
    have last : ({ state with before := state.before ++ ['"'] ++ value, inQuotes := true } : Scan).next '"' =
        { state with before := state.before ++ ('"' :: value ++ ['"']) } := by
      simp [Scan.next, closed]
    constructor
    next => rw [List.cons_append, List.foldl_cons, first, List.foldl_append, whole, List.foldl_cons, last, List.foldl_nil,
      List.cons_append]
    next =>
      have quote : query.blank '"' = false := by decide
      refine ⟨by rw [quote]; rfl, ?_⟩
      refine Scanner.Unbroken.append query _ value ['"'] ?_ ⟨by rw [quote]; rfl, trivial⟩
      rwa [← first] at unbroken
  next =>
    rw [bare]
    refine ⟨scan_plain state value fun char inside => ⟨?_, (solid char inside).2⟩, ?_⟩
    next =>
      rintro rfl
      exact no_quote inside
    next => exact query.unbroken_solid state value fun char inside => (solid char inside).1

theorem scan_members (values : List Text) (closed : state.inQuotes = false) (inside : state.inSet = true)
    (no_quote : ∀ value ∈ values, '"' ∉ value) :
    (Separated.join ' ' (values.map quoted)).foldl Scan.next state =
        { state with before := state.before ++ Separated.join ' ' (values.map quoted) } ∧
      query.Unbroken state (Separated.join ' ' (values.map quoted)) := by
  induction values generalizing state with
  | nil => exact ⟨by simp, trivial⟩
  | cons value values ih =>
    obtain ⟨here, rest⟩ := List.forall_mem_cons.mp no_quote
    obtain ⟨read, unbroken⟩ := scan_quoted state value closed here
    cases values with
    | nil => simpa using And.intro read unbroken
    | cons other values =>
      rw [List.map_cons, Separated.join_cons _ _ _ (by simp)]
      have space : ({ state with before := state.before ++ quoted value } : Scan).next ' ' =
          { state with before := state.before ++ quoted value ++ [' '] } := by
        simp [Scan.next]
      obtain ⟨further, behind⟩ := ih { state with before := state.before ++ quoted value ++ [' '] } closed inside rest
      constructor
      next =>
        rw [List.foldl_append, read, List.foldl_cons, space, further]
        simp
      next =>
        refine Scanner.Unbroken.append query state _ _ unbroken ?_
        have same : List.foldl query.next state (quoted value) = { state with before := state.before ++ quoted value } := read
        rw [same]
        refine ⟨by simp [query, inside], ?_⟩
        rwa [← space] at behind

end Postio.Search

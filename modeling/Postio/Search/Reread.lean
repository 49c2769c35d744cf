import Postio.Search.Spans
import Postio.Search.SpelledBack

set_option autoImplicit false

namespace Postio.Search

/-! Which spelled clauses are one word, and so one token. -/

variable (env : Env) (negated : Bool) (name : Text) (field : Field) (today : NaiveDate)

def NameHolds : Prop :=
  ∀ front char back, name = front ++ char :: back → Lines.isWhitespace char = true → front.head? = some '{' ∧ '}' ∉ front

/-- What comes back from its own spelling. -/
def Single.Holds : Single -> Prop
  | .header named value => NameHolds named ∧ ∀ text ∈ value, normalizeValue env text = text
  | .after date => (Single.after date).DayHolds
  | .before date => (Single.before date).DayHolds
  | _ => True

def Filter.Holds (env : Env) : Filter -> Prop
  | .single value => value.Holds env
  | .anyOf _ => True

theorem isWord_opener (operand : Text)
    (unbroken : query.Unbroken (query.state (opener negated field)) operand) : query.IsWord (opener negated field ++ operand) := by
  obtain ⟨front, -, -⟩ := unbroken_opener negated field
  have whole := Scanner.Unbroken.append query query.start _ _ front unbroken
  obtain ⟨char, rest, shape⟩ := List.exists_cons_of_ne_nil (l := opener negated field) (by simp [opener])
  rw [shape, List.cons_append] at whole ⊢
  obtain ⟨solid, behind⟩ := whole
  have closed : query.closed query.start = true := rfl
  rw [closed, Bool.and_true] at solid
  exact ⟨solid, behind⟩

theorem kinds_word (word rest : Text) (kind : TokenKind) (isWord : query.IsWord word)
    (ends : query.Ends (query.state word) rest) (read : classify env today word = some kind) :
    (parse env today (word ++ rest)).kinds = kind :: (parse env today rest).kinds := by
  rw [parse_kinds, parse_kinds, query.raws_word word rest isWord ends, List.filterMap_cons_some read]

theorem kinds_single (word : Text) (kind : TokenKind) (isWord : query.IsWord word)
    (read : classify env today word = some kind) : (parse env today word).kinds = [kind] := by
  rw [parse_kinds, query.raws_single word isWord, List.filterMap_cons_some read]
  rfl

theorem scan_value (single : Single) (no_quote : single.QuoteFree) (field : single.field ≠ .header) :
    (spellValue single).foldl Scan.next (query.state (opener negated single.field)) =
        { before := opener negated single.field ++ spellValue single, inQuotes := false, inSet := false } ∧
      query.Unbroken (query.state (opener negated single.field)) (spellValue single) := by
  obtain ⟨-, state, -⟩ := unbroken_opener negated single.field
  rw [state]
  by_cases sets : single.field.takesSet = true
  case pos =>
    rw [spellValue_quoted single sets]
    exact scan_quoted _ single.plain rfl (plain_no_quote single sets no_quote)
  case neg =>
    obtain ⟨-, plain⟩ := spellValue_ordinary single field (Bool.eq_false_iff.mpr sets)
    exact ⟨scan_plain _ _ fun char inside => (plain char inside).2, query.unbroken_solid _ _ fun char inside => (plain char inside).1⟩

theorem scan_set (found : AnyOf) (no_quote : ∀ single ∈ found.members, single.QuoteFree) :
    (Filter.anyOf found).operand.foldl Scan.next (query.state (opener negated found.field)) =
        { before := opener negated found.field ++ (Filter.anyOf found).operand, inQuotes := false, inSet := false } ∧
      query.Unbroken (query.state (opener negated found.field)) (Filter.anyOf found).operand := by
  obtain ⟨-, state, opens⟩ := unbroken_opener negated found.field
  have sets : ∀ single ∈ found.members, single.field.takesSet = true :=
    fun single inside => (found.uniform single inside).symm ▸ found.takesSet
  have spelled : found.members.map spellValue = (found.members.map Single.plain).map quoted := by
    rw [List.map_map]
    exact List.map_congr_left fun single inside => spellValue_quoted single (sets single inside)
  have quotes : ∀ value ∈ found.members.map Single.plain, '"' ∉ value := by
    intro value inside
    obtain ⟨single, among, rfl⟩ := List.mem_map.mp inside
    exact plain_no_quote single (sets single among) (no_quote single among)
  have brace : Scan.next { before := opener negated found.field, inQuotes := false, inSet := false } '{' =
      { before := opener negated found.field ++ ['{'], inQuotes := false, inSet := true } := by
    simp [Scan.next, opens]
  have solid : query.blank '{' = false ∧ query.blank '}' = false := by decide
  obtain ⟨read, inside⟩ := scan_members { before := opener negated found.field ++ ['{'], inQuotes := false, inSet := true }
    (found.members.map Single.plain) rfl rfl quotes
  rw [state, Filter.operand, spelled]
  constructor
  next =>
    rw [List.foldl_cons, brace, List.foldl_append, read]
    simp [Scan.next]
  next =>
    refine ⟨by rw [solid.1]; rfl, ?_⟩
    rw [← brace] at inside
    exact Scanner.Unbroken.append query _ _ ['}'] inside ⟨by rw [solid.2]; rfl, trivial⟩

/-! ### A header's name -/

theorem opensSet_behind (front : Text) (filled : front ≠ []) :
    opensSet (opener negated field ++ front) = false := by
  obtain ⟨no_colon, -, no_dash, word⟩ := keyword_plain field
  have body : (Lines.stripFront ['-'] (opener negated field ++ front)).getD (opener negated field ++ front) =
      field.keyword ++ ':' :: front := by
    obtain ⟨first, rest, shape⟩ := List.exists_cons_of_ne_nil word
    have letter : '-' ≠ first := fun same => no_dash (by rw [shape, same]; exact List.mem_cons_self)
    cases negated with
    | true => simp [opener, shape, Lines.stripFront]
    | false => simp [opener, shape, Lines.stripFront, letter]
  unfold opensSet
  simp only [body]
  -- What stands before a last colon still has the operator's own.
  cases cut : stripSuffix [':'] (field.keyword ++ ':' :: front) with
  | none => rfl
  | some keyword =>
    have whole := (stripSuffix_some [':'] _ keyword cut).symm
    have colon : ':' ∈ keyword := by
      obtain ⟨front, last, rfl⟩ := (List.eq_nil_or_concat front).resolve_left filled
      have same : keyword = field.keyword ++ ':' :: front := by
        rw [List.concat_eq_append, ← List.cons_append, ← List.append_assoc] at whole
        exact (List.append_inj' whole rfl).1
      rw [same]
      simp
    simp [colon]

theorem scan_name (front : Text) (no_quote : '"' ∉ front) :
    front.foldl Scan.next { before := opener negated field, inQuotes := false, inSet := false } =
      { before := opener negated field ++ front, inQuotes := false,
        inSet := decide (front.head? = some '{') && !front.contains '}' } := by
  obtain ⟨-, -, opens⟩ := unbroken_opener negated field
  induction front using List.reverseRecOn with
  | nil => simp
  | append_singleton front char ih =>
    rw [List.mem_append, not_or, List.mem_singleton] at no_quote
    rw [List.foldl_append, ih no_quote.1, List.foldl_cons, List.foldl_nil]
    cases front with
    | nil =>
      by_cases brace : char = '{'
      case pos =>
        subst brace
        simp [Scan.next, opens]
      case neg => simp [Scan.next, Ne.symm no_quote.2, brace]
    | cons first front =>
      have behind := opensSet_behind negated field (first :: front) (by simp)
      by_cases close : char = '}'
      case pos =>
        subst close
        simp [Scan.next]
        exact fun either head apart => (either.resolve_left (fun other => other head)).resolve_left apart
      case neg => simp [Scan.next, Ne.symm no_quote.2, behind, close, Ne.symm close]

theorem nameHolds_iff (no_quote : '"' ∉ name) :
    NameHolds name <-> query.Unbroken (query.state (opener negated .header)) name := by
  obtain ⟨-, state, -⟩ := unbroken_opener negated .header
  rw [state, query.unbroken_iff]
  have each : ∀ front char back, name = front ++ char :: back →
      ((Lines.isWhitespace char = true → front.head? = some '{' ∧ '}' ∉ front) <->
        (query.blank char && query.closed (front.foldl query.next
          { before := opener negated .header, inQuotes := false, inSet := false })) = false) := by
    intro front char back whole
    have apart : '"' ∉ front := fun inside => no_quote (by simp [whole, inside])
    have scanned : front.foldl query.next { before := opener negated .header, inQuotes := false, inSet := false } = _ :=
      scan_name negated .header front apart
    rw [scanned]
    simp only [query]
    by_cases blank : Lines.isWhitespace char = true
    case pos => simp [blank]
    case neg => simp [blank]
  exact forall_congr' fun front => forall_congr' fun char => forall_congr' fun back =>
    ⟨fun holds whole => (each front char back whole).mp (holds whole), fun holds whole => (each front char back whole).mpr (holds whole)⟩

theorem unbroken_header (value : Option Text) (no_quote : (Single.header name value).QuoteFree)
    (holds : NameHolds name) : query.Unbroken (query.state (opener negated .header)) (spellValue (.header name value)) := by
  obtain ⟨-, state, -⟩ := unbroken_opener negated .header
  have front := (nameHolds_iff negated name no_quote.1).mp holds
  cases value with
  | none => exact front
  | some text =>
    have scanned := scan_name negated .header name no_quote.1
    have equals : query.blank '=' = false := by decide
    change query.Unbroken _ (name ++ '=' :: quoted text)
    refine Scanner.Unbroken.append query _ name _ front ⟨by rw [equals]; rfl, ?_⟩
    refine (scan_quoted _ text ?_ (no_quote.2 text rfl)).2
    rw [state]
    change (Scan.next (name.foldl Scan.next _) '=').inQuotes = false
    rw [scanned]
    rfl

theorem normalizeName_length : (normalizeName name).length ≤ name.length := by
  unfold normalizeName asciiLower
  rw [List.length_map]
  exact (Lines.trim_sublist name).length_le

theorem broken_header (negated : Bool) (name : Text) (value : Option Text)
    (no_quote : (Single.header name value).QuoteFree) (usable : (Single.header name value).Usable) (breaks : ¬ NameHolds name) :
    (parse env today (opener negated .header ++ spellValue (.header name value))).kinds.head? ≠
      some (.filter { negated, filter := .single (.header name value) }) := by
  have taken := query.take_exact (query.state (opener negated .header)) name
  generalize query.take (query.state (opener negated .header)) name = cut at taken
  obtain ⟨whole, unbroken, state, ends⟩ := taken
  rcases ends with nothing | ⟨item, after, rest, blank, closed⟩
  next =>
    rw [nothing, List.append_nil] at whole
    rw [whole] at unbroken
    exact absurd ((nameHolds_iff negated name no_quote.1).mpr unbroken) breaks
  next =>
    obtain ⟨tail, spelled⟩ : ∃ tail, spellValue (.header name value) = name ++ tail := by
      cases value with
      | none => exact ⟨[], (List.append_nil name).symm⟩
      | some text => exact ⟨'=' :: quoted text, rfl⟩
    have reached : query.state (opener negated .header ++ cut.word) = cut.state := by
      rw [state]
      exact List.foldl_append
    have first := kinds_word env today (opener negated .header ++ cut.word) (item :: after ++ tail) _
      (isWord_opener negated .header cut.word unbroken)
      (.inr ⟨item, after ++ tail, rfl, blank, by rw [reached]; exact closed⟩)
      (classify_opener env today negated .header cut.word)
    have text : opener negated .header ++ spellValue (.header name value) =
        opener negated .header ++ cut.word ++ (item :: after ++ tail) := by
      rw [spelled, ← whole, rest]
      simp
    rw [text, first, List.head?_cons]
    intro same
    have made := Option.some.inj same
    obtain ⟨-, -, no_equals, -⟩ := usable
    have apart : '=' ∉ cut.word := fun inside => no_equals (by rw [← whole]; simp [inside])
    have parts : headerParts cut.word = (cut.word, none) := by
      rw [headerParts, Lines.splitOnce_none '=' cut.word apart]
    unfold operator header at made
    rw [if_pos rfl] at made
    simp only [parts] at made
    split at made
    next => cases made
    next =>
      simp only [TokenKind.filter.injEq, Clause.mk.injEq, Filter.single.injEq, Single.header.injEq, true_and] at made
      have short : name.length ≤ cut.word.length := by
        rw [← made.1]
        exact Nat.le_trans (normalizeName_length _) (unquote_sublist _).length_le
      have longer := congrArg List.length whole
      rw [List.length_append, rest, List.length_cons] at longer
      omega

/-! ### The round trip -/

theorem filter_usable (input : Text) (token : Token)
    (inside : token ∈ (parse env today input).tokens) (clause : Clause) (kind : token.kind = .filter clause) :
    ∀ single ∈ clause.filter.alternatives, single.Usable := by
  obtain ⟨word, -, made⟩ := List.mem_filterMap.mp inside
  obtain ⟨found, read, rfl⟩ := Option.map_eq_some_iff.mp made
  change found = .filter clause at kind
  subst kind
  unfold classify at read
  split at read
  next => cases read
  next =>
    split at read
    next negated field value _ => exact operator_usable env today negated field value clause (Option.some.inj read)
    next =>
      unfold freeText at read
      simp only at read
      split at read <;> cases read

theorem kinds_spell (lawful : env.unicode.Lawful) (today : NaiveDate) (clause : Clause)
    (usable : ∀ single ∈ clause.filter.alternatives, single.Usable)
    (no_quote : ∀ single ∈ clause.filter.alternatives, single.QuoteFree) :
    (parse env today (spell clause)).kinds = [.filter clause] <-> clause.filter.Holds env := by
  obtain ⟨negated, filter⟩ := clause
  rw [spell_eq]
  cases filter with
  | anyOf found =>
    have isWord := isWord_opener negated found.field _ (scan_set negated found no_quote).2
    have read := operator_set env lawful today negated found usable no_quote
    refine iff_of_true (kinds_single env today _ _ isWord ?_) trivial
    rw [← read]
    exact classify_opener env today negated found.field _
  | single value =>
    have here := usable value List.mem_cons_self
    have quotes := no_quote value List.mem_cons_self
    by_cases header : value.field = .header
    case neg =>
      have isWord := isWord_opener negated value.field _ (scan_value negated value quotes header).2
      have same : Filter.Holds env (.single value) = value.DayHolds := by
        cases value with
        | header _ _ => exact absurd rfl header
        | _ => rfl
      have single := kinds_single env today _ _ isWord (classify_opener env today negated value.field _)
      rw [same, ← operator_single env lawful today negated value here quotes header]
      change (parse env today (opener negated value.field ++ spellValue value)).kinds = _ <-> _
      rw [single, List.cons.injEq, eq_self_iff_true, and_true]
    case pos =>
      cases value with
      | header name value =>
        change (parse env today (opener negated .header ++ spellValue (.header name value))).kinds = _ <->
          NameHolds name ∧ ∀ text ∈ value, normalizeValue env text = text
        by_cases holds : NameHolds name
        case pos =>
          have isWord := isWord_opener negated .header _ (unbroken_header negated name value quotes holds)
          have single := kinds_single env today _ _ isWord (classify_opener env today negated .header _)
          rw [single, ← operator_header env today negated name value here quotes, List.cons.injEq, eq_self_iff_true, and_true]
          exact (and_iff_right holds).symm
        case neg =>
          refine iff_of_false (fun same => ?_) (fun both => holds both.1)
          exact broken_header env today negated name value quotes here holds (by rw [same]; rfl)
      | _ => cases header

/-- A clause of a query comes back from its spelling as the one token, just when its day has four digits
and its header's name is one word and its value decoded. -/
theorem spell_parse (lawful : env.unicode.Lawful) (today : NaiveDate) (input : Text) (token : Token)
    (inside : token ∈ (parse env today input).tokens) (clause : Clause) (kind : token.kind = .filter clause)
    (no_quote : ∀ single ∈ clause.filter.alternatives, single.QuoteFree) :
    (∃ back, (parse env today (spell clause)).tokens = [back] ∧ back.kind = .filter clause) <-> clause.filter.Holds env := by
  rw [← kinds_spell env lawful today clause (filter_usable env today input token inside clause kind) no_quote]
  unfold ParsedQuery.kinds
  rw [List.map_eq_singleton_iff]

theorem spell_parse_ada : ∃ back,
    (parse plainEnv someDay "-from:\"ada lovelace\"".toList).tokens = [back] ∧
      back.kind = .filter { negated := true, filter := .single (.name .fromWho "ada lovelace".toList) } :=
  have spelled : spell { negated := true, filter := .single (.name .fromWho "ada lovelace".toList) } =
      "-from:\"ada lovelace\"".toList := by decide
  spelled ▸ (spell_parse plainEnv asciiTables_lawful someDay "-from:\"ada lovelace\"".toList
    { span := { start := 0, stop := 20 }, raw := "-from:\"ada lovelace\"".toList,
      kind := .filter { negated := true, filter := .single (.name .fromWho "ada lovelace".toList) } } (by decide +kernel)
    { negated := true, filter := .single (.name .fromWho "ada lovelace".toList) } rfl
    (List.forall_mem_singleton.mpr (show '"' ∉ "ada lovelace".toList by decide))).mpr trivial

/-- A header's name in quotes is spelled without them. -/
theorem spell_header_broken : ¬ ∀ (env : Env) (today : NaiveDate) (input : Text) (token : Token) (clause : Clause),
    env.unicode.Lawful → token ∈ (parse env today input).tokens → token.kind = .filter clause →
      (∀ single ∈ clause.filter.alternatives, single.QuoteFree) →
      ∃ back, (parse env today (spell clause)).tokens = [back] ∧ back.kind = .filter clause := by
  intro always
  obtain ⟨back, single, -⟩ := always plainEnv someDay "header:\"x y\"".toList
    { span := { start := 0, stop := 12 }, raw := "header:\"x y\"".toList,
      kind := .filter { negated := false, filter := .single (.header "x y".toList none) } }
    { negated := false, filter := .single (.header "x y".toList none) } asciiTables_lawful (by decide +kernel) rfl
    (List.forall_mem_singleton.mpr ⟨by decide, fun _ absent => by cases absent⟩)
  have two : (parse plainEnv someDay (spell { negated := false, filter := .single (.header "x y".toList none) })).tokens.length = 2 := by
    decide +kernel
  rw [single] at two
  cases two

end Postio.Search

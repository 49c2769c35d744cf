import Postio.Search.Edits

set_option autoImplicit false

namespace Postio.Search

/-! Dates turned rolling or fixed. -/

def Clause.bound (clause : Clause) : Option NaiveDate :=
  match clause.filter with
  | .single (.after date) | .single (.before date) => some date
  | _ => none

variable (env : Env) (today date : NaiveDate)

def Single.clamp : Single -> Single
  | .after date => .after (if date.date.number ≤ today.date.number then date else today)
  | .before date => .before (if date.date.number ≤ today.date.number then date else today)
  | other => other

def Clause.clamp (today : NaiveDate) (clause : Clause) : Clause :=
  match clause.filter with
  | .single value => { clause with filter := .single (value.clamp today) }
  | .anyOf _ => clause

def TokenKind.clause : TokenKind -> Option Clause
  | .filter clause => some clause
  | _ => none

def ParsedQuery.filters (query : ParsedQuery) : List Clause := query.tokens.filterMap (fun token => token.kind.clause)

theorem filters_kinds (query : ParsedQuery) : query.filters = query.kinds.filterMap TokenKind.clause := by
  unfold ParsedQuery.filters ParsedQuery.kinds
  rw [List.filterMap_map]
  rfl

/-! ### An age read again -/

theorem read_age (unicode : Unicode) (lawful : unicode.Lawful) (days : Nat) (small : days < u32) :
    Relative.read unicode (Nat.toDigits 10 days ++ ['d']) = some (.back days .day) := by
  have filled : Nat.toDigits 10 days ≠ [] := Nat.toDigits_ne_nil
  have all : ∀ char ∈ Nat.toDigits 10 days, char.isDigit = true := List.all_eq_true.mp (Lines.digits_of_toDigits days)
  have value : Lines.parseDecimal u32 (Nat.toDigits 10 days) = some days := by
    have read := parseDecimal_padded 0 days small
    rwa [show padded 0 days = Nat.toDigits 10 days by simp [padded]] at read
  generalize Nat.toDigits 10 days = digits at filled all value
  have compacted : Relative.compact unicode (digits ++ ['d']) = digits ++ ['d'] := by
    have kept : digits.filter (fun char => !Lines.isWhitespace char && char ≠ '-' && char ≠ '_') = digits := by
      rw [List.filter_eq_self]
      intro char inside
      have digit := all char inside
      have no_dash : char ≠ '-' := fun same => absurd digit (by rw [same]; decide)
      have no_line : char ≠ '_' := fun same => absurd digit (by rw [same]; decide)
      simp [Lines.digit_solid char digit, no_dash, no_line]
    have letter : unicode.lower 'd' = ['d'] := lawful.lower 'd' (by decide)
    have last : ['d'].filter (fun char => !Lines.isWhitespace char && char ≠ '-' && char ≠ '_') = ['d'] := by decide
    unfold Relative.compact
    rw [List.filter_append, kept, last, List.flatMap_append,
      lower_small unicode lawful digits (fun char inside => (digit_small char (all char inside)).2), List.flatMap_cons, letter]
    rfl
  have letter : ∀ char : Char, char.isDigit = false → (digits ++ ['d']).head? ≠ some char := by
    intro char other same
    rw [List.head?_append_of_ne_nil _ filled] at same
    rw [all char (List.mem_of_head? same)] at other
    cases other
  have no_word : ∀ (first : Char) (rest : Text), first.isDigit = false → digits ++ ['d'] ≠ first :: rest := by
    intro first rest other same
    exact letter first other (by rw [same]; rfl)
  have no_ago : stripSuffix "ago".toList (digits ++ ['d']) = none := by
    have back : "ago".toList.reverse = 'o' :: ['g', 'a'] := by decide
    unfold stripSuffix
    rw [back, stripFront_none 'o' _ _ (by simp)]
    rfl
  have no_last : Relative.stripLast (digits ++ ['d']) = digits ++ ['d'] := by
    have one : "last".toList = 'l' :: ['a', 's', 't'] := by decide
    have two : "past".toList = 'p' :: ['a', 's', 't'] := by decide
    have three : "previous".toList = 'p' :: ['r', 'e', 'v', 'i', 'o', 'u', 's'] := by decide
    unfold Relative.stripLast
    rw [one, two, three, stripFront_none 'l' _ _ (letter 'l' (by decide)), stripFront_none 'p' _ _ (letter 'p' (by decide)),
      stripFront_none 'p' _ _ (letter 'p' (by decide))]
    rfl
  have run : (digits ++ ['d']).takeWhile Char.isDigit = digits := by
    rw [List.takeWhile_append_of_pos all, List.takeWhile_cons_of_neg (by decide), List.append_nil]
  have today : "today".toList = 't' :: ['o', 'd', 'a', 'y'] := by decide
  have now : "now".toList = 'n' :: ['o', 'w'] := by decide
  have yesterday : "yesterday".toList = 'y' :: ['e', 's', 't', 'e', 'r', 'd', 'a', 'y'] := by decide
  have unit : DateUnit.spellings.lookup ['d'] = some .day := by decide
  unfold Relative.read
  simp only
  rw [compacted, no_ago, Option.getD_none, no_last, run, List.drop_left, unit,
    if_neg (by rw [today, now]; exact not_or.mpr ⟨no_word 't' _ (by decide), no_word 'n' _ (by decide)⟩),
    if_neg (by rw [yesterday]; exact no_word 'y' _ (by decide)), if_neg (by simpa using filled), value]
  rfl

theorem age_ordinary (days : Nat) : Nat.toDigits 10 days ++ ['d'] ≠ [] ∧ ∀ char ∈ Nat.toDigits 10 days ++ ['d'], Ordinary char := by
  have all : ∀ char ∈ Nat.toDigits 10 days, char.isDigit = true := List.all_eq_true.mp (Lines.digits_of_toDigits days)
  refine ⟨by simp, fun char inside => ordinary_of char ?_⟩
  rcases List.mem_append.mp inside with digit | letter
  next => exact .inl (all char digit)
  next =>
    obtain rfl := List.mem_singleton.mp letter
    exact .inr (.inl (by decide))

theorem parseDate_age (unicode : Unicode) (lawful : unicode.Lawful) (today date : NaiveDate) (days : Nat) (small : days < u32)
    (reached : today.checkedSubDays days = some date) : parseDate unicode (Nat.toDigits 10 days ++ ['d']) today = some date := by
  obtain ⟨filled, ordinary⟩ := age_ordinary days
  unfold parseDate relative
  simp only
  rw [Lines.trim_solid _ (fun char inside => (ordinary char inside).1), if_neg (by simp), read_age unicode lawful days small]
  change (today.checkedSubDays days).orElse _ = some date
  rw [reached]
  rfl

theorem number_apart : today.date.number - date.date.number ≤ NaiveDate.bound := by
  have bounds := today.inRange
  have others := date.inRange
  have high := today.date.day_of_year
  have low := date.date.day_of_year
  have leap : ∀ year, (Calendar.isLeap year).toNat ≤ 1 := fun year => Bool.toNat_le _
  have leaps := leap today.date.year
  unfold Calendar.Date.number Calendar.daysTo NaiveDate.bound
  omega

theorem age_reaches :
    today.checkedSubDays (today.date.number - date.date.number).toNat =
      some (if date.date.number ≤ today.date.number then date else today) := by
  have apart := number_apart today date
  unfold NaiveDate.checkedSubDays
  rw [if_pos (by omega)]
  split
  next before =>
    rw [Calendar.Date.back_number today.date date.date _ (by omega)]
    exact date.ofDate_self
  next ahead =>
    rw [Calendar.Date.back_number today.date today.date _ (by omega)]
    exact today.ofDate_self

/-! ### A rewritten token -/

def Dates (field : Field) (make : NaiveDate -> Single) : Prop :=
  field = .after ∧ make = Single.after ∨ field = .before ∧ make = Single.before

theorem operator_age (lawful : env.unicode.Lawful) (today date : NaiveDate) (negated : Bool) (field : Field)
    (make : NaiveDate -> Single) (dates : Dates field make) :
    classify env today (rolled today negated field date) =
      some (.filter { negated, filter := .single ((make date).clamp today) }) := by
  have small : (today.date.number - date.date.number).toNat < u32 := by
    have apart := number_apart today date
    unfold NaiveDate.bound at apart
    unfold u32
    omega
  obtain ⟨filled, ordinary⟩ := age_ordinary (today.date.number - date.date.number).toNat
  have read := parseDate_age env.unicode lawful today _ _ small (age_reaches today date)
  unfold rolled
  rw [List.append_assoc, classify_opener]
  generalize Nat.toDigits 10 (today.date.number - date.date.number).toNat ++ ['d'] = age at filled ordinary read
  have bare : age.head? ≠ some '{' := fun head => (ordinary '{' (List.mem_of_head? head)).2.2.1 rfl
  have plain : unquote age = age := unquote_plain age fun inside => (ordinary '"' inside).2.1 rfl
  have apart : field ≠ .header := by
    rcases dates with ⟨rfl, -⟩ | ⟨rfl, -⟩ <;> decide
  have value : readValue env today age field = some ((make date).clamp today) := by
    rcases dates with ⟨rfl, rfl⟩ | ⟨rfl, rfl⟩
    next =>
      change (parseDate env.unicode age today).map Single.after = _
      rw [read]
      rfl
    next =>
      change (parseDate env.unicode age today).map Single.before = _
      rw [read]
      rfl
  unfold operator
  rw [if_neg apart, if_neg bare, plain]
  simp only
  rw [if_neg (by simpa using filled), value]

theorem opener_ordinary (negated : Bool) (field : Field) (operand : Text) (ordinary : ∀ char ∈ operand, Ordinary char) :
    query.IsWord (opener negated field ++ operand) ∧ query.closed (query.state (opener negated field ++ operand)) = true := by
  obtain ⟨-, state, -⟩ := unbroken_opener negated field
  refine ⟨isWord_opener negated field operand ?_, ?_⟩
  next => exact query.unbroken_solid _ _ fun char inside => (ordinary char inside).1
  next =>
    have reached : query.state (opener negated field ++ operand) = operand.foldl Scan.next (query.state (opener negated field)) :=
      List.foldl_append
    rw [reached, state, scan_plain _ operand fun char inside => (ordinary char inside).2]
    exact (closed_iff _).mpr ⟨rfl, rfl⟩

theorem dated_cases (rolling : Bool) (token : Token) : (∃ negated field make date, Dates field make ∧
      token.kind = .filter { negated, filter := .single (make date) } ∧
      dated today rolling token = if rolling then rolled today negated field date else opener negated field ++ spellDate date) ∨
    dated today rolling token = token.raw ∧ ∀ clause ∈ token.kind.clause, clause.bound = none ∧ clause.clamp today = clause := by
  have spelled : ∀ (negated : Bool) (field : Field) (make : NaiveDate -> Single) (date : NaiveDate),
      Dates field make → spell { negated, filter := .single (make date) } = opener negated field ++ spellDate date := by
    intro negated field make date dates
    rcases dates with ⟨rfl, rfl⟩ | ⟨rfl, rfl⟩ <;> exact spell_eq _
  unfold dated
  cases kind : token.kind with
  | unfinished operator => exact .inr ⟨rfl, by simp [TokenKind.clause]⟩
  | text term => exact .inr ⟨rfl, by simp [TokenKind.clause]⟩
  | filter clause =>
    obtain ⟨negated, filter⟩ := clause
    cases filter with
    | anyOf found => exact .inr ⟨rfl, by simp [TokenKind.clause, Clause.bound, Clause.clamp]⟩
    | single value =>
      cases value with
      | after date =>
        refine .inl ⟨negated, .after, .after, date, .inl ⟨rfl, rfl⟩, rfl, ?_⟩
        rw [← spelled negated .after .after date (.inl ⟨rfl, rfl⟩)]
      | before date =>
        refine .inl ⟨negated, .before, .before, date, .inr ⟨rfl, rfl⟩, rfl, ?_⟩
        rw [← spelled negated .before .before date (.inr ⟨rfl, rfl⟩)]
      | _ => exact .inr ⟨rfl, by simp [TokenKind.clause, Clause.bound, Clause.clamp, Single.clamp]⟩

theorem spellDate_ordinary : ∀ char ∈ spellDate date, Ordinary char := by
  intro char inside
  refine ordinary_of char ?_
  rcases (spellDate_plain date).2 char inside with digit | sign
  next => exact .inl digit
  next => exact .inr (.inr sign)

theorem dated_word (rolling : Bool) (token : Token) (isWord : query.IsWord token.raw) :
    query.IsWord (dated today rolling token) ∧
      (query.closed (query.state token.raw) = true → query.closed (query.state (dated today rolling token)) = true) := by
  rcases dated_cases today rolling token with ⟨negated, field, make, date, -, -, written⟩ | ⟨same, -⟩
  next =>
    have both : query.IsWord (dated today rolling token) ∧ query.closed (query.state (dated today rolling token)) = true := by
      rw [written]
      cases rolling with
      | true =>
        simp only [if_true, rolled, List.append_assoc]
        exact opener_ordinary negated field _ (age_ordinary _).2
      | false => exact opener_ordinary negated field _ (spellDate_ordinary date)
    exact ⟨both.1, fun _ => both.2⟩
  next =>
    rw [same]
    exact ⟨isWord, id⟩

theorem dated_rolling (lawful : env.unicode.Lawful) (today : NaiveDate) (token : Token)
    (own : classify env today token.raw = some token.kind) :
    (classify env today (dated today true token)).bind TokenKind.clause = token.kind.clause.map (Clause.clamp today) := by
  rcases dated_cases today true token with ⟨negated, field, make, date, dates, kind, written⟩ | ⟨same, unbound⟩
  next =>
    rw [written, if_pos rfl, operator_age env lawful today date negated field make dates, kind]
    rfl
  next =>
    rw [same, own, Option.bind_some]
    cases clause : token.kind.clause with
    | none => rfl
    | some clause' => rw [Option.map_some, (unbound clause' clause).2]

theorem dated_fixed (lawful : env.unicode.Lawful) (today : NaiveDate) (token : Token)
    (own : classify env today token.raw = some token.kind)
    (four : ∀ clause ∈ token.kind.clause, ∀ date ∈ clause.bound, 1000 ≤ date.date.year ∧ date.date.year ≤ 9999) :
    classify env today (dated today false token) = some token.kind := by
  rcases dated_cases today false token with ⟨negated, field, make, date, dates, kind, written⟩ | ⟨same, -⟩
  next =>
    rw [kind] at four
    have years : 1000 ≤ date.date.year ∧ date.date.year ≤ 9999 := by
      rcases dates with ⟨rfl, rfl⟩ | ⟨rfl, rfl⟩ <;> exact four _ rfl date rfl
    rw [written, kind, if_neg (by decide), classify_opener]
    rcases dates with ⟨rfl, rfl⟩ | ⟨rfl, rfl⟩
    next =>
      exact congrArg some ((operator_single env lawful today negated (.after date) trivial trivial (fun same => by cases same)).mpr years)
    next =>
      exact congrArg some ((operator_single env lawful today negated (.before date) trivial trivial (fun same => by cases same)).mpr years)
  next => rw [same, own]

/-! ### The whole query -/

theorem dates_filters (input : Text) (rolling : Bool) :
    (parse env today (apply env today input (.dates rolling))).filters =
      (parse env today input).tokens.filterMap
        (fun token => (classify env today (dated today rolling token)).bind TokenKind.clause) := by
  obtain ⟨isWord, closed⟩ := (words_iff _).mp (tokens_words env today input)
  have written : ((Edit.dates rolling).written env.unicode today (parse env today input).tokens).filterMap id =
      (parse env today input).tokens.map (dated today rolling) := by
    unfold Edit.written
    simp only
    rw [List.filterMap_map]
    exact congrFun List.filterMap_eq_map _
  have words : query.Words ((parse env today input).tokens.map (dated today rolling)) := by
    rw [words_iff]
    constructor
    next =>
      intro word inside
      obtain ⟨token, among, rfl⟩ := List.mem_map.mp inside
      exact (dated_word today rolling token (isWord _ (List.mem_map_of_mem among))).1
    next =>
      intro word inside
      rw [← List.map_dropLast] at inside closed
      obtain ⟨token, among, rfl⟩ := List.mem_map.mp inside
      exact (dated_word today rolling token (isWord _ (List.mem_map_of_mem (List.dropLast_subset _ among)))).2
        (closed _ (List.mem_map_of_mem among))
  obtain ⟨each, fronts⟩ := (words_iff _).mp words
  rw [filters_kinds, parse_kinds, apply, written, raws_join _ each, settled_self _ fronts, List.filterMap_filterMap,
    List.filterMap_map]
  rfl

/-- Made rolling, a query has its clauses, in order, with every bound that lies ahead brought to today;
fixed, it has them as they are where the bounds' years have four digits. -/
theorem dates_keep (lawful : env.unicode.Lawful) (today : NaiveDate) (input : Text) :
    (parse env today (apply env today input (.dates true))).filters = (parse env today input).filters.map (Clause.clamp today) ∧
      ((∀ clause ∈ (parse env today input).filters, ∀ date ∈ clause.bound, 1000 ≤ date.date.year ∧ date.date.year ≤ 9999) →
        (parse env today (apply env today input (.dates false))).filters = (parse env today input).filters) := by
  constructor
  next =>
    rw [dates_filters, ParsedQuery.filters, List.map_filterMap]
    exact List.filterMap_congr fun token inside =>
      dated_rolling env lawful today token (token_classify env today input token inside)
  next =>
    intro four
    rw [dates_filters]
    refine List.filterMap_congr fun token inside => ?_
    rw [dated_fixed env lawful today token (token_classify env today input token inside), Option.bind_some]
    intro clause here
    exact four clause (List.mem_filterMap.mpr ⟨token, inside, here⟩)

theorem dates_keep_july :
    (parse plainEnv someDay (apply plainEnv someDay "-after:2026-07-01 atlas".toList (.dates true))).filters =
        (parse plainEnv someDay "-after:2026-07-01 atlas".toList).filters.map (Clause.clamp someDay) ∧
      (parse plainEnv someDay (apply plainEnv someDay "-after:2026-07-01 atlas".toList (.dates false))).filters =
        (parse plainEnv someDay "-after:2026-07-01 atlas".toList).filters :=
  have kept := dates_keep plainEnv asciiTables_lawful someDay "-after:2026-07-01 atlas".toList
  ⟨kept.1, kept.2 (by decide +kernel)⟩

/-- A bound that lies ahead has no age. -/
theorem dates_ahead : ¬ ∀ (env : Env) (today : NaiveDate) (input : Text) (rolling : Bool), env.unicode.Lawful →
    (parse env today (apply env today input (.dates rolling))).filters = (parse env today input).filters := by
  intro always
  have same := always plainEnv someDay "before:2026-09-01".toList true asciiTables_lawful
  exact absurd same (by decide +kernel)

end Postio.Search

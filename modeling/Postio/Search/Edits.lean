import Postio.Search.Reread

set_option autoImplicit false

namespace Postio.Search

/-! Words put together to a query again. -/

variable (env : Env) (unicode : Unicode) {A : Type} (word : Text) (words : List Text) (clause : Clause)
    (today : NaiveDate) (input : Text)

def close : Text :=
  let word := if word.count '"' % 2 = 1 then word ++ ['"'] else word
  if leavesSetOpen word then word ++ ['}'] else word

def settled : List Text -> List Text
  | [] => []
  | [last] => [last]
  | word :: second :: rest => close word :: settled (second :: rest)

def join (words : List Text) : Text := Separated.join ' ' (settled words)

/-! ### A word closed -/

theorem inQuotes_count (state : Scan) (word : Text) :
    (word.foldl Scan.next state).inQuotes = (state.inQuotes != decide (word.count '"' % 2 = 1)) := by
  induction word generalizing state with
  | nil => simp
  | cons char word ih =>
    rw [List.foldl_cons, ih, List.count_cons]
    by_cases quote : char = '"'
    case pos =>
      subst quote
      simp only [Scan.next, if_true, beq_self_eq_true]
      rcases Nat.mod_two_eq_zero_or_one (word.count '"') with even | odd
      next => cases state.inQuotes <;> simp [even, Nat.add_mod]
      next => cases state.inQuotes <;> simp [odd, Nat.add_mod]
    case neg => simp [Scan.next, quote]

theorem inQuotes_state : (query.state word).inQuotes = decide (word.count '"' % 2 = 1) := by
  have counted := inQuotes_count query.start word
  rw [show query.start.inQuotes = false from rfl, Bool.false_bne] at counted
  exact counted

theorem closed_iff (state : Scan) : query.closed state = true <-> state.inQuotes = false ∧ state.inSet = false := by
  change (!state.inQuotes && !state.inSet) = true <-> _
  simp

theorem isWord_push (char : Char) (solid : query.blank char = false) (isWord : query.IsWord word) :
    query.IsWord (word ++ [char]) := by
  cases word with
  | nil => exact isWord.elim
  | cons first word =>
    exact ⟨isWord.1, Scanner.Unbroken.append query _ word [char] isWord.2 ⟨by rw [solid]; rfl, trivial⟩⟩

theorem close_isWord (isWord : query.IsWord word) : query.IsWord (close word) := by
  have solid : query.blank '"' = false ∧ query.blank '}' = false := by decide
  unfold close
  simp only
  split
  next =>
    split
    next => exact isWord_push _ '}' solid.2 (isWord_push word '"' solid.1 isWord)
    next => exact isWord_push word '"' solid.1 isWord
  next =>
    split
    next => exact isWord_push word '}' solid.2 isWord
    next => exact isWord

theorem state_push (char : Char) : query.state (word ++ [char]) = (query.state word).next char := by
  rw [Scanner.state, List.foldl_append]
  rfl

theorem close_closed : query.closed (query.state (close word)) = true := by
  -- First no quote is open, then no set.
  have braced : ∀ text : Text, (query.state text).inQuotes = false →
      query.closed (query.state (if leavesSetOpen text then text ++ ['}'] else text)) = true := by
    intro text closed
    split
    next opens =>
      have inside : (query.state text).inSet = true := opens
      rw [state_push, closed_iff]
      simp [Scan.next, closed, inside]
    next opens =>
      have outside : (query.state text).inSet = false := Bool.eq_false_iff.mpr opens
      exact (closed_iff _).mpr ⟨closed, outside⟩
  unfold close
  refine braced _ ?_
  split
  next odd =>
    rw [state_push]
    simp [Scan.next, inQuotes_state, odd]
  next even => rw [inQuotes_state, decide_eq_false even]

theorem spell_closed (no_quote : ∀ single ∈ clause.filter.alternatives, single.QuoteFree)
    (field : clause.filter.field ≠ .header) : query.IsWord (spell clause) ∧ query.closed (query.state (spell clause)) = true := by
  obtain ⟨negated, filter⟩ := clause
  have scanned : filter.operand.foldl Scan.next (query.state (opener negated filter.field)) =
        { before := opener negated filter.field ++ filter.operand, inQuotes := false, inSet := false } ∧
      query.Unbroken (query.state (opener negated filter.field)) filter.operand := by
    cases filter with
    | single value => exact scan_value negated value (no_quote value List.mem_cons_self) field
    | anyOf found => exact scan_set negated found no_quote
  have reached : query.state (opener negated filter.field ++ filter.operand) =
      filter.operand.foldl Scan.next (query.state (opener negated filter.field)) := List.foldl_append
  rw [spell_eq]
  refine ⟨isWord_opener negated filter.field _ scanned.2, ?_⟩
  rw [reached, scanned.1]
  exact (closed_iff _).mpr ⟨rfl, rfl⟩

theorem close_self (closed : query.closed (query.state word) = true) : close word = word := by
  have both := (closed_iff _).mp closed
  rw [inQuotes_state, decide_eq_false_iff_not] at both
  have outside : leavesSetOpen word = false := both.2
  unfold close
  simp [both.1, outside]

/-! ### Words read again -/

theorem words_iff : query.Words words <->
    (∀ word ∈ words, query.IsWord word) ∧ ∀ word ∈ words.dropLast, query.closed (query.state word) = true := by
  induction words with
  | nil => simp [Scanner.Words]
  | cons word words ih =>
    cases words with
    | nil => simp [Scanner.Words]
    | cons second words =>
      have split : query.Words (word :: second :: words) <->
          query.IsWord word ∧ query.closed (query.state word) = true ∧ query.Words (second :: words) := Iff.rfl
      rw [split, ih, List.dropLast_cons_cons]
      constructor
      next =>
        rintro ⟨here, closed, rest, fronts⟩
        exact ⟨List.forall_mem_cons.mpr ⟨here, rest⟩, List.forall_mem_cons.mpr ⟨closed, fronts⟩⟩
      next =>
        rintro ⟨each, fronts⟩
        obtain ⟨here, rest⟩ := List.forall_mem_cons.mp each
        obtain ⟨closed, further⟩ := List.forall_mem_cons.mp fronts
        exact ⟨here, closed, rest, further⟩

theorem settled_words (isWord : ∀ word ∈ words, query.IsWord word) : query.Words (settled words) := by
  induction words with
  | nil => trivial
  | cons word words ih =>
    obtain ⟨here, rest⟩ := List.forall_mem_cons.mp isWord
    cases words with
    | nil => exact here
    | cons second words =>
      have further := ih rest
      rw [settled]
      cases shape : settled (second :: words) with
      | nil => exact close_isWord word here
      | cons other others =>
        rw [shape] at further
        exact ⟨close_isWord word here, close_closed word, further⟩

theorem settled_self (closed : ∀ word ∈ words.dropLast, query.closed (query.state word) = true) :
    settled words = words := by
  induction words with
  | nil => rfl
  | cons word words ih =>
    cases words with
    | nil => rfl
    | cons second words =>
      rw [List.dropLast_cons_cons] at closed
      obtain ⟨here, rest⟩ := List.forall_mem_cons.mp closed
      rw [settled, close_self word here, ih rest]

theorem raws_joined (apart : query.Words words) : query.raws (Separated.join ' ' words) = words := by
  induction words with
  | nil => rfl
  | cons word words ih =>
    cases words with
    | nil => simpa using query.raws_single word apart
    | cons second words =>
      obtain ⟨isWord, closed, further⟩ := apart
      have space : query.blank ' ' = true := by decide
      rw [Separated.join_cons _ _ _ (by simp), query.raws_word word _ isWord (.inr ⟨' ', _, rfl, space, closed⟩),
        query.raws_blank ' ' _ space, ih further]

theorem raws_join (isWord : ∀ word ∈ words, query.IsWord word) : query.raws (join words) = settled words :=
  raws_joined _ (settled_words words isWord)

/-! ### Tokens read again -/

/-- A token's text and what it means. -/
abbrev Sense := Text × TokenKind

def sense (raw : Text) : Option Sense := (classify env today raw).map (fun kind => (raw, kind))

def ParsedQuery.senses (query : ParsedQuery) : List Sense := query.tokens.map (fun token => (token.raw, token.kind))

theorem parse_senses : (parse env today input).senses = (query.raws input).filterMap (sense env today):= by
  unfold ParsedQuery.senses parse Scanner.raws sense
  simp only [List.map_filterMap, List.filterMap_map]
  congr 1
  funext word
  simp only [Option.map_map, Function.comp_def, tokenAt]

theorem kinds_senses (query : ParsedQuery) : query.kinds = query.senses.map Prod.snd := by
  unfold ParsedQuery.kinds ParsedQuery.senses
  rw [List.map_map]
  rfl

theorem senses_join (words : List Text) (isWord : ∀ word ∈ words, query.IsWord word) :
    (parse env today (join words)).senses = (settled words).filterMap (sense env today) := by
  rw [parse_senses, raws_join words isWord]

theorem raws_words : query.Words (query.raws input) := (query.words_rendered input).isWords query

theorem words_sublist (kept : List Text) (sub : kept.Sublist words) (apart : query.Words words) : query.Words kept := by
  have fronts : kept.dropLast.Sublist words.dropLast := by
    have turned := sub.reverse.tail.reverse
    rwa [List.tail_reverse, List.tail_reverse, List.reverse_reverse, List.reverse_reverse] at turned
  rw [words_iff] at apart ⊢
  exact ⟨fun word inside => apart.1 word (sub.subset inside), fun word inside => apart.2 word (fronts.subset inside)⟩

theorem tokens_words :
    query.Words ((parse env today input).tokens.map Token.raw) := by
  have sub : ((parse env today input).tokens.map Token.raw).Sublist (query.raws input) := by
    unfold parse Scanner.raws
    induction query.words input with
    | nil => exact .slnil
    | cons word words ih =>
      rw [List.map_cons, List.filterMap_cons]
      cases classify env today word.2 with
      | none => exact ih.cons _
      | some kind => exact ih.cons_cons _
  exact words_sublist _ _ sub (raws_words input)

theorem token_classify (token : Token)
    (inside : token ∈ (parse env today input).tokens) : classify env today token.raw = some token.kind := by
  obtain ⟨word, -, made⟩ := List.mem_filterMap.mp inside
  obtain ⟨kind, read, rfl⟩ := Option.map_eq_some_iff.mp made
  exact read

/-! Term edits: the one way anything but the keyboard changes a query. -/

inductive Edit where
  | add (clause : Clause)
  | remove (token : Nat)
  | replace (token : Nat) (clause : Clause)
  | toggle (filter : Filter)
  | setDates (after before : Option NaiveDate)
  | clearFilters
  | exclude (filter : Filter)
  | dates (rolling : Bool)

/-! ### Values -/

def Single.same : Single -> Single -> Bool
  | .name field value, .name other text => field = other && unicode.lowerText value = unicode.lowerText text
  | value, other => value = other

/-- Whether two filters ask for the same thing: two sets do when each holds every value of the other. -/
def Filter.same (unicode : Unicode) : Filter -> Filter -> Bool
  | .single value, .single other => value.same unicode other
  | .anyOf set, .anyOf other =>
    set.members.all (fun value => other.members.any (fun held => value.same unicode held)) &&
      other.members.all (fun value => set.members.any (fun held => value.same unicode held))
  | _, _ => false

def Filter.holds (filter wanted : Filter) : Bool :=
  filter.alternatives.any (fun held => Filter.same unicode (.single held) wanted)

def holder (negated : Bool) (filter : Filter) (kind : TokenKind) : Option Clause :=
  match kind with
  | .filter clause => if clause.negated = negated && clause.filter.holds unicode filter then some clause else none
  | _ => none

def without (filter : Filter) : Option Clause :=
  (Filter.ofMembers (clause.filter.alternatives.filter (fun held => !Filter.same unicode (.single held) filter))).map
    (fun rest => { negated := clause.negated, filter := rest })

/-! ### The words an edit leaves -/

/-- Whether a clause of this polarity already holds every value. -/
def carries (kind : TokenKind) : Bool :=
  match kind with
  | .filter held => held.negated = clause.negated &&
      clause.filter.alternatives.all (fun wanted => held.filter.alternatives.any (fun value => value.same unicode wanted))
  | _ => false

def halfTyped (kind : TokenKind) : Bool :=
  match kind with
  | .unfinished operator => operator.negated = clause.negated && operator.field = clause.filter.field
  | _ => false

def lastIndex (fits : A -> Bool) (items : List A) : Option Nat :=
  (items.reverse.findIdx? fits).map (fun behind => items.length - 1 - behind)

section

-- How a clause is written among the words.
variable {A : Type} (unicode : Unicode) (write : Clause -> A)

variable (kinds : List TokenKind) (negated : Bool) (filter : Filter)

def add (words : List (Option A)) (clause : Clause) : List (Option A) :=
  if kinds.any (carries unicode clause) then words
  else
    match lastIndex (halfTyped clause) kinds with
    | some index => words.set index (some (write clause))
    | none => words ++ [some (write clause)]

/-- Every clause of this polarity that holds the filter, without it. -/
def takeOut (words : List A) (negated : Bool) (filter : Filter) : List (Option A) :=
  List.zipWith (fun kind word =>
    match holder unicode negated filter kind with
    | some clause => (without unicode clause filter).map write
    | none => some word) kinds words

/-- Where a clause holds the filter alone. -/
def emptied : Option Nat :=
  kinds.findIdx? (fun kind =>
    match holder unicode negated filter kind with
    | some clause => (without unicode clause filter).isNone
    | none => false)

/-- A clause of this polarity and field, with one value more. A set is no value of one. -/
def extended (kind : TokenKind) : Option Filter :=
  match kind, filter with
  | .filter held, .single value =>
    if held.negated = negated && held.filter.field = value.field then Filter.ofMembers (held.filter.alternatives ++ [value])
    else none
  | _, _ => none

def joined : Option (Nat × Filter) :=
  if filter.field.takesSet then
    kinds.zipIdx.findSome? (fun (kind, index) => (extended negated filter kind).map (fun set => (index, set)))
  else none

/-- Take the filter out of this polarity's clauses; or, when none holds it, out of the other's and into this one's. -/
def flip (words : List A) (filter : Filter) (negated : Bool) : List (Option A) :=
  if kinds.any (fun kind => (holder unicode negated filter kind).isSome) then takeOut unicode write kinds words negated filter
  else
    let words := takeOut unicode write kinds words (!negated) filter
    match joined kinds negated filter, emptied unicode kinds (!negated) filter with
    | some (index, set), _ => words.set index (some (write { negated, filter := set }))
    | none, some index => words.set index (some (write { negated, filter }))
    | none, none => add unicode write kinds words { negated, filter }

end

/-- The first token of the field becomes the bound, and every other goes. -/
def placeDate {A : Type} (field : Field) (spelled : Option A) : Bool -> List Token -> List (Option A) -> List (Option A)
  | placed, token :: tokens, word :: words =>
    if token.field = some field then
      (if placed then none else spelled) :: placeDate field spelled true tokens words
    else word :: placeDate field spelled placed tokens words
  | placed, _, words =>
    match spelled with
    | some text => if placed then words else words ++ [some text]
    | none => words

@[simp]
theorem placeDate_nil (field : Field) (spelled : Option A) (placed : Bool) (words : List (Option A)) :
    placeDate field spelled placed [] words = if placed then words else words ++ (spelled.map some).toList := by
  cases spelled with
  | none => cases placed <;> simp [placeDate]
  | some text => cases placed <;> rfl

theorem placeDate_cons (field : Field) (spelled : Option A) (placed : Bool) (token : Token) (tokens : List Token)
    (word : Option A) (words : List (Option A)) : placeDate field spelled placed (token :: tokens) (word :: words) =
      if token.field = some field then (if placed then none else spelled) :: placeDate field spelled true tokens words
      else word :: placeDate field spelled placed tokens words := rfl

def afterClause (date : NaiveDate) : Clause := { negated := false, filter := .single (.after date) }

def beforeClause (date : NaiveDate) : Clause := { negated := false, filter := .single (.before date) }

def rolled (negated : Bool) (field : Field) (date : NaiveDate) : Text :=
  opener negated field ++ Nat.toDigits 10 (today.date.number - date.date.number).toNat ++ ['d']

def dated (rolling : Bool) (token : Token) : Text :=
  match token.kind with
  | .filter clause =>
    match clause.filter with
    | .single (.after date) => if rolling then rolled today clause.negated .after date else spell clause
    | .single (.before date) => if rolling then rolled today clause.negated .before date else spell clause
    | _ => token.raw
  | _ => token.raw

def Edit.written (tokens : List Token) : Edit -> List (Option Text)
  | .add clause => Search.add unicode spell (tokens.map Token.kind) (tokens.map (fun token => some token.raw)) clause
  | .remove index => (tokens.map (fun token => some token.raw)).set index none
  | .replace index clause => (tokens.map (fun token => some token.raw)).set index (some (spell clause))
  | .toggle filter => flip unicode spell (tokens.map Token.kind) (tokens.map Token.raw) filter false
  | .exclude filter => flip unicode spell (tokens.map Token.kind) (tokens.map Token.raw) filter true
  | .setDates after before =>
    let words := placeDate .after (after.map (fun date => spell (afterClause date))) false tokens
      (tokens.map (fun token => some token.raw))
    placeDate .before (before.map (fun date => spell (beforeClause date))) false tokens words
  | .clearFilters => tokens.map (fun token => if token.field.isSome then none else some token.raw)
  | .dates rolling => tokens.map (fun token => some (dated today rolling token))

def apply (edit : Edit) : Text :=
  join ((edit.written env.unicode today (parse env today input).tokens).filterMap id)

/-! ### An edited query read again -/

theorem apply_senses (edit : Edit)
    (isWord : ∀ word ∈ (edit.written env.unicode today (parse env today input).tokens).filterMap id, query.IsWord word) :
    (parse env today (apply env today input edit)).senses =
      (settled ((edit.written env.unicode today (parse env today input).tokens).filterMap id)).filterMap (sense env today) :=
  senses_join env today _ isWord

end Postio.Search

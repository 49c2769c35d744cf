import Postio.Search.EditFrames
import Postio.Search.RollingDates

set_option autoImplicit false

namespace Postio.Search

/-! Relaxations: the ways out of a search that found nothing. -/

def maxRelaxations : Nat := 8

inductive Loosen where
  | drop (token : Nat)
  | anywhere (token : Nat)
  | folderNotLabel (token : Nat)
  deriving DecidableEq

def Loosen.token : Loosen -> Nat
  | .drop token | .anywhere token | .folderNotLabel token => token

structure Relaxation where
  loosen : Loosen
  query : Text
  deriving DecidableEq

def wordsFor (value : Text) : Text :=
  if value.any (fun char => Lines.isWhitespace char || char = ':') || value.head? = some '-' then '"' :: value ++ ['"']
  else value

def asFolder : Single -> Option Single
  | .name .label name => some (.name .inFolder name)
  | _ => none

def folders (labels : Filter) : Option Filter := Filter.ofMembers (labels.alternatives.filterMap asFolder)

def rebuilt (tokens : List Token) (index : Nat) (word : Option Text) : Text :=
  join (tokens.zipIdx.filterMap (fun pair => if pair.2 = index then word else some pair.1.raw))

/-- What a positive filter can be loosened to. -/
def loosened (tokens : List Token) (index : Nat) (filter : Filter) : List Relaxation :=
  match filter with
  | .single (.name .subject value) =>
    [{ loosen := .anywhere index, query := rebuilt tokens index (some (wordsFor value)) }]
  | filter =>
    if filter.field = .name .label then
      ((folders filter).map (fun found =>
        { loosen := .folderNotLabel index
          query := rebuilt tokens index (some (spell { negated := false, filter := found })) })).toList
    else []

def relaxationsAt (tokens : List Token) (texts : Nat) (token : Token) (index : Nat) : List Relaxation :=
  let dropped := { loosen := .drop index, query := rebuilt tokens index none }
  match token.kind with
  | .unfinished _ => []
  | .text _ => if texts < 2 then [] else [dropped]
  | .filter clause => dropped :: (if clause.negated then [] else loosened tokens index clause.filter)

def ParsedQuery.texts (query : ParsedQuery) : Nat :=
  query.tokens.countP (fun token => match token.kind with | .text _ => true | _ => false)

def relax (query : ParsedQuery) : List Relaxation :=
  (query.tokens.zipIdx.flatMap (fun pair => relaxationsAt query.tokens query.texts pair.1 pair.2)).take maxRelaxations

/-! ### One token changed -/

theorem raws_some (tokens : List Token) : (tokens.map (fun token => some token.raw) : List (Option Text)) = (tokens.map Token.raw).map some := by
  rw [List.map_map]
  rfl

theorem rebuilt_eq (tokens : List Token) (index : Nat) (word : Option Text) :
    rebuilt tokens index word = join (((tokens.map (fun token => some token.raw)).set index word).filterMap id) := by
  have moved : ∀ offset, (tokens.zipIdx offset).filterMap
      (fun pair => if pair.2 = offset + index then word else some pair.1.raw) =
        ((tokens.map (fun token => some token.raw)).set index word).filterMap id := by
    induction tokens generalizing index with
    | nil => exact fun _ => rfl
    | cons token tokens ih =>
      intro offset
      rw [List.zipIdx_cons, List.filterMap_cons, List.map_cons]
      cases index with
      | zero =>
        have kept : ∀ pair ∈ tokens.zipIdx (offset + 1),
            (if pair.2 = offset + 0 then word else some pair.1.raw) = some pair.1.raw := by
          intro pair inside
          have later := List.le_snd_of_mem_zipIdx inside
          rw [if_neg (by omega)]
        have rest : (tokens.zipIdx (offset + 1)).filterMap (fun pair => some pair.1.raw) = tokens.map Token.raw := by
          conv_rhs => rw [← List.zipIdx_map_fst (offset + 1) tokens]
          rw [List.map_map]
          exact congrFun List.filterMap_eq_map _
        have others : (tokens.map (fun token => some token.raw) : List (Option Text)).filterMap id = tokens.map Token.raw := by
          rw [raws_some, filterMap_some]
        rw [List.filterMap_congr kept, rest, List.set_cons_zero, if_pos (Nat.add_zero offset).symm, List.filterMap_cons, others]
        rfl
      | succ index =>
        have further := ih index (offset + 1)
        rw [List.set_cons_succ, filterMap_cons_kept, ← further, if_neg (by simp)]
        simp only
        congr 2
        funext pair
        rw [show offset + (index + 1) = offset + 1 + index by omega]
  have start := moved 0
  rw [Nat.zero_add] at start
  exact congrArg join start

theorem rebuilt_drop (tokens : List Token) (index : Nat) : rebuilt tokens index none = join ((tokens.map Token.raw).eraseIdx index) := by
  rw [rebuilt_eq, raws_some, filterMap_erased]

theorem rebuilt_put (tokens : List Token) (index : Nat) (word : Text) :
    rebuilt tokens index (some word) = join ((tokens.map Token.raw).set index word) := by
  rw [rebuilt_eq, raws_some, filterMap_set]

theorem raws_drop (words : List Text) (apart : query.Words words) (index : Nat) :
    query.raws (join (words.eraseIdx index)) = words.eraseIdx index := by
  have kept := words_sublist words _ (List.eraseIdx_sublist words index) apart
  obtain ⟨isWord, closed⟩ := (words_iff _).mp kept
  rw [raws_join _ isWord, settled_self _ closed]

theorem mem_set_front {A : Type} (items : List A) (index : Nat) (new item : A) (inside : item ∈ (items.set index new).dropLast) :
    item ∈ items.dropLast ∨ item = new := by
  induction items generalizing index with
  | nil => cases inside
  | cons first items ih =>
    cases items with
    | nil => cases index <;> cases inside
    | cons second items =>
      cases index with
      | zero =>
        rw [List.set_cons_zero, List.dropLast_cons_cons] at inside
        rcases List.mem_cons.mp inside with same | inside
        next => exact .inr same
        next => exact .inl (by rw [List.dropLast_cons_cons]; exact List.mem_cons_of_mem _ inside)
      | succ index =>
        have shape : ((first :: second :: items).set (index + 1) new).dropLast = first :: ((second :: items).set index new).dropLast := by
          rw [List.set_cons_succ]
          cases index <;> simp [List.set_cons_succ]
        rw [shape] at inside
        rw [List.dropLast_cons_cons]
        rcases List.mem_cons.mp inside with rfl | inside
        next => exact .inl List.mem_cons_self
        next => exact (ih index inside).imp (List.mem_cons_of_mem _) id

theorem raws_put (words : List Text) (apart : query.Words words) (index : Nat) (word : Text) (isWord : query.IsWord word)
    (closed : query.closed (query.state word) = true) : query.raws (join (words.set index word)) = words.set index word := by
  obtain ⟨each, fronts⟩ := (words_iff _).mp apart
  rw [raws_join, settled_self]
  next =>
    intro other inside
    rcases mem_set_front words index word other inside with kept | rfl
    next => exact fronts other kept
    next => exact closed
  next =>
    intro other inside
    rcases List.mem_or_eq_of_mem_set inside with kept | rfl
    next => exact each other kept
    next => exact isWord

/-! ### A subject as free words -/

theorem opensSet_bare (before : Text) (no_colon : ':' ∉ before) : opensSet before = false := by
  have within : ((Lines.stripFront ['-'] before).getD before).Sublist before := by
    cases stripped : Lines.stripFront ['-'] before with
    | none => exact List.Sublist.refl _
    | some rest =>
      rw [Lines.stripFront_some _ _ _ stripped]
      exact List.sublist_append_right _ _
  unfold opensSet
  simp only
  cases cut : stripSuffix [':'] ((Lines.stripFront ['-'] before).getD before) with
  | none => rfl
  | some keyword =>
    rw [stripSuffix_some _ _ _ cut] at within
    exact absurd (within.subset (by simp)) no_colon

theorem scan_bare (before text : Text) (no_colon : ':' ∉ before ++ text) (no_quote : '"' ∉ text) :
    text.foldl Scan.next { before, inQuotes := false, inSet := false } =
      { before := before ++ text, inQuotes := false, inSet := false } := by
  induction text generalizing before with
  | nil => simp
  | cons char text ih =>
    rw [List.mem_cons, not_or] at no_quote
    have closed : opensSet before = false := opensSet_bare before fun inside => no_colon (List.mem_append_left _ inside)
    have step : Scan.next { before, inQuotes := false, inSet := false } char =
        { before := before ++ [char], inQuotes := false, inSet := false } := by
      simp [Scan.next, Ne.symm no_quote.1, closed]
    rw [List.foldl_cons, step, ih (before ++ [char]) (by simpa using no_colon) no_quote.2]
    simp

theorem splitOperator_bare (text : Text) (no_colon : ':' ∉ text) : splitOperator text = none := by
  induction text with
  | nil => rfl
  | cons char text ih =>
    rw [List.mem_cons, not_or] at no_colon
    unfold splitOperator
    rw [if_neg (Ne.symm no_colon.1), ih no_colon.2]
    split <;> rfl

theorem classify_words (env : Env) (today : NaiveDate) (raw value : Text) (quoted : Bool) (operators : operands raw = none)
    (text : freeText raw = some (.text { negated := false, value, quoted })) (no_quote : '"' ∉ value)
    (within : ∀ char ∈ value, char ∈ raw) :
    ((∃ char ∈ value, char ≠ '-') → classify env today raw = some (.text { negated := false, value, quoted })) ∧
      ∀ kind, classify env today raw = some kind → kind.field = none := by
  unfold classify
  rw [operators, text]
  constructor
  next =>
    rintro ⟨char, inside, other⟩
    rw [if_neg]
    intro dashes
    have dash := List.all_eq_true.mp dashes char (within char inside)
    simp only [Bool.or_eq_true, decide_eq_true_eq] at dash
    rcases dash with same | rfl
    next => exact other same
    next => exact no_quote inside
  next =>
    intro kind read
    split at read
    next => cases read
    next =>
      cases read
      rfl

theorem wordsFor_word (env : Env) (today : NaiveDate) (value : Text) (filled : value ≠ []) (no_quote : '"' ∉ value) :
    query.IsWord (wordsFor value) ∧ query.closed (query.state (wordsFor value)) = true ∧
      ((∃ char ∈ value, char ≠ '-') → ∃ quoted, classify env today (wordsFor value) = some (.text { negated := false, value, quoted })) ∧
      ∀ kind, classify env today (wordsFor value) = some kind → kind.field = none := by
  unfold wordsFor
  split
  next =>
    have first : query.start.next '"' = { before := ['"'], inQuotes := true, inSet := false } := rfl
    obtain ⟨read, unbroken⟩ := scan_inside { before := ['"'], inQuotes := true, inSet := false } value rfl no_quote
    have quote : query.blank '"' = false := by decide
    have state : query.state ('"' :: value ++ ['"']) =
        { before := '"' :: value ++ ['"'], inQuotes := false, inSet := false } := by
      rw [Scanner.state, List.cons_append, List.foldl_cons]
      change List.foldl Scan.next (query.start.next '"') (value ++ ['"']) = _
      rw [first, List.foldl_append, read]
      rfl
    have text : freeText ('"' :: value ++ ['"']) = some (.text { negated := false, value, quoted := true }) := by
      have whole : negation ('"' :: value ++ ['"']) = (false, '"' :: value ++ ['"']) := rfl
      unfold freeText
      rw [whole]
      simp only
      rw [unquote_wrapped value no_quote, if_neg (by simpa using filled)]
      rfl
    obtain ⟨means, free⟩ := classify_words env today _ value true rfl text no_quote (fun char inside => by simp [inside])
    refine ⟨⟨quote, ?_⟩, by rw [state]; rfl, fun other => ⟨true, means other⟩, free⟩
    change query.Unbroken (query.start.next '"') (value ++ ['"'])
    rw [first]
    exact Scanner.Unbroken.append query _ value ['"'] unbroken ⟨by rw [quote]; rfl, trivial⟩
  next plain =>
    simp only [Bool.or_eq_true, not_or, List.any_eq_true, not_exists, not_and, decide_eq_true_eq] at plain
    obtain ⟨solid, no_dash⟩ := plain
    have no_colon : ':' ∉ value := fun inside => (solid ':' inside).2 rfl
    have state : query.state value = { before := value, inQuotes := false, inSet := false } :=
      scan_bare [] value (by simpa using no_colon) no_quote
    have whole : negation value = (false, value) := by
      unfold negation
      split
      next rest => exact absurd rfl no_dash
      next => rfl
    have operators : operands value = none := by
      unfold operands
      rw [whole]
      simp only
      rw [splitOperator_bare value no_colon]
      rfl
    have bare : value.head? ≠ some '"' := fun head => no_quote (List.mem_of_head? head)
    have text : freeText value = some (.text { negated := false, value, quoted := false }) := by
      unfold freeText
      rw [whole]
      simp only
      rw [unquote_plain value no_quote, if_neg (by simpa using filled), decide_eq_false bare]
    obtain ⟨means, free⟩ := classify_words env today value value false operators text no_quote fun _ inside => inside
    refine ⟨?_, by rw [state]; rfl, fun other => ⟨false, means other⟩, free⟩
    obtain ⟨char, rest, rfl⟩ := List.exists_cons_of_ne_nil filled
    have each : ∀ other ∈ char :: rest, query.blank other = false := fun other inside => Bool.eq_false_iff.mpr (solid other inside).1
    exact ⟨each char List.mem_cons_self,
      query.unbroken_solid _ rest fun other inside => each other (List.mem_cons_of_mem _ inside)⟩

/-! ### Where a relaxation comes from -/

theorem mem_relax (query : ParsedQuery) (found : Relaxation) (inside : found ∈ relax query) :
    ∃ token index, query.tokens[index]? = some token ∧ found ∈ relaxationsAt query.tokens query.texts token index := by
  obtain ⟨pair, among, made⟩ := List.mem_flatMap.mp (List.mem_of_mem_take inside)
  exact ⟨pair.1, pair.2, List.mem_zipIdx_iff_getElem?.mp among, made⟩

theorem relaxationsAt_cases (tokens : List Token) (texts index : Nat) (token : Token) (found : Relaxation)
    (inside : found ∈ relaxationsAt tokens texts token index) :
    found = { loosen := .drop index, query := rebuilt tokens index none } ∨
    (∃ value, token.kind = .filter { negated := false, filter := .single (.name .subject value) } ∧
      found = { loosen := .anywhere index, query := rebuilt tokens index (some (wordsFor value)) }) ∨
    ∃ labels made, token.kind = .filter { negated := false, filter := labels } ∧ labels.field = .name .label ∧
      folders labels = some made ∧
      found = { loosen := .folderNotLabel index
                query := rebuilt tokens index (some (spell { negated := false, filter := made })) } := by
  unfold relaxationsAt at inside
  simp only at inside
  split at inside
  next => cases inside
  next =>
    split at inside
    next => cases inside
    next => exact .inl (List.mem_singleton.mp inside)
  next clause kind =>
    obtain ⟨negated, filter⟩ := clause
    replace inside := List.mem_cons.mp inside
    rcases inside with same | inside
    next => exact .inl same
    next =>
      cases negated with
      | true => cases inside
      | false =>
        simp only [Bool.false_eq_true, if_false] at inside
        unfold loosened at inside
        split at inside
        next value => exact .inr (.inl ⟨value, kind, List.mem_singleton.mp inside⟩)
        next =>
          split at inside
          next label =>
            obtain ⟨made, shape, rfl⟩ := Option.map_eq_some_iff.mp (Option.mem_toList.mp inside)
            exact .inr (.inr ⟨filter, made, kind, label, shape, rfl⟩)
          next => cases inside

theorem relaxationsAt_distinct (tokens : List Token) (texts index : Nat) (token : Token) :
    (relaxationsAt tokens texts token index).Pairwise (fun first second => first.loosen ≠ second.loosen) := by
  unfold relaxationsAt loosened
  simp only
  split
  next => exact .nil
  next =>
    split
    next => exact .nil
    next => exact List.pairwise_singleton _ _
  next clause _ =>
    split
    next => exact List.pairwise_singleton _ _
    next =>
      split
      next => simp
      next =>
        split
        next => cases folders clause.filter <;> simp
        next => exact List.pairwise_singleton _ _

theorem relax_distinct (query : ParsedQuery) : (relax query).Pairwise (fun first second => first.loosen ≠ second.loosen) := by
  have from_here : ∀ (rest : List Token) (offset : Nat),
      ((rest.zipIdx offset).flatMap (fun pair => relaxationsAt query.tokens query.texts pair.1 pair.2)).Pairwise
          (fun first second => first.loosen ≠ second.loosen) ∧
        ∀ found ∈ (rest.zipIdx offset).flatMap (fun pair => relaxationsAt query.tokens query.texts pair.1 pair.2),
          offset ≤ found.loosen.token := by
    intro rest
    induction rest with
    | nil => exact fun _ => ⟨.nil, by simp⟩
    | cons token rest ih =>
      intro offset
      obtain ⟨apart, later⟩ := ih (offset + 1)
      have here : ∀ found ∈ relaxationsAt query.tokens query.texts token offset, found.loosen.token = offset := by
        intro found inside
        rcases relaxationsAt_cases _ _ _ _ found inside with rfl | ⟨_, -, rfl⟩ | ⟨_, _, -, -, -, rfl⟩ <;> rfl
      rw [List.zipIdx_cons, List.flatMap_cons]
      constructor
      next =>
        refine List.pairwise_append.mpr ⟨relaxationsAt_distinct _ _ _ _, apart, ?_⟩
        intro first inside second behind same
        have one := here first inside
        have two := later second behind
        rw [same] at one
        omega
      next =>
        intro found inside
        rcases List.mem_append.mp inside with inside | inside
        next => exact Nat.le_of_eq (here found inside).symm
        next => exact Nat.le_of_succ_le (later found inside)
  exact (from_here query.tokens 0).1.sublist (List.take_sublist _ _)

/-! ### What a relaxation says -/

theorem folders_spelled (env : Env) (lawful : env.unicode.Lawful) (today : NaiveDate) (labels made : Filter)
    (field : labels.field = .name .label) (shape : folders labels = some made)
    (usable : ∀ single ∈ labels.alternatives, single.Usable) (no_quote : ∀ single ∈ labels.alternatives, single.QuoteFree) :
    made.alternatives.map some = labels.alternatives.map asFolder ∧ made.field = .name .inFolder ∧
      Spellable env today { negated := false, filter := made } := by
  have named : ∀ single ∈ labels.alternatives, ∃ name, single = .name .label name := by
    intro single inside
    have same : single.field = .name .label := by
      cases labels with
      | single value =>
        obtain rfl := List.mem_singleton.mp inside
        exact field
      | anyOf found => rw [found.uniform single inside, ← field]; rfl
    cases single with
    | name other name =>
      cases same
      exact ⟨name, rfl⟩
    | _ => cases same
  have listed := ofMembers_alternatives _ made shape
  have whole : made.alternatives.map some = labels.alternatives.map asFolder := by
    rw [listed]
    clear listed shape field usable no_quote
    generalize labels.alternatives = singles at named
    induction singles with
    | nil => rfl
    | cons single singles ih =>
      obtain ⟨⟨name, rfl⟩, rest⟩ := List.forall_mem_cons.mp named
      rw [List.filterMap_cons, List.map_cons, ← ih rest]
      rfl
  have each : ∀ single ∈ made.alternatives, ∃ name, single = .name .inFolder name ∧ Single.name .label name ∈ labels.alternatives := by
    intro single inside
    rw [listed] at inside
    obtain ⟨label, among, folder⟩ := List.mem_filterMap.mp inside
    obtain ⟨name, rfl⟩ := named label among
    cases folder
    exact ⟨name, rfl, among⟩
  have folder : made.field = .name .inFolder := by
    cases made with
    | single value =>
      obtain ⟨name, rfl, -⟩ := each value List.mem_cons_self
      rfl
    | anyOf found =>
      obtain ⟨first, rest, members⟩ := List.exists_cons_of_length_pos (Nat.lt_of_lt_of_le Nat.zero_lt_two found.several)
      obtain ⟨name, rfl, -⟩ := each first (by rw [Filter.alternatives, members]; exact List.mem_cons_self)
      exact (found.uniform _ (by rw [members]; exact List.mem_cons_self)).symm
  have quotes : ∀ single ∈ made.alternatives, single.QuoteFree := by
    intro single inside
    obtain ⟨name, rfl, among⟩ := each single inside
    exact (no_quote (.name .label name) among : '"' ∉ name)
  refine ⟨whole, folder, quotes, (kinds_spell env lawful today _ ?_ quotes).mpr ?_⟩
  next =>
    intro single inside
    obtain ⟨name, rfl, among⟩ := each single inside
    exact (usable (.name .label name) among : name ≠ [])
  next =>
    cases made with
    | anyOf found => trivial
    | single value =>
      obtain ⟨name, rfl, -⟩ := each value List.mem_cons_self
      trivial

/-- What a relaxation's query reads as: the query with one token dropped, or another in its place. -/
def Loosened (env : Env) (today : NaiveDate) (query : ParsedQuery) (found : Relaxation) : Prop :=
  match found.loosen with
  | .drop index => index < query.tokens.length ∧ (parse env today found.query).senses = query.senses.eraseIdx index
  | .anywhere index => ∃ value,
      query.kinds[index]? = some (.filter { negated := false, filter := .single (.name .subject value) }) ∧
      ((∃ char ∈ value, char ≠ '-') → ∃ quoted,
        (parse env today found.query).senses = query.senses.set index (wordsFor value, .text { negated := false, value, quoted }))
  | .folderNotLabel index => ∃ labels made,
      query.kinds[index]? = some (.filter { negated := false, filter := labels }) ∧ labels.field = .name .label ∧
      made.alternatives.map some = labels.alternatives.map asFolder ∧
      (parse env today found.query).senses = query.senses.set index (spelled { negated := false, filter := made })

def Alike (query : ParsedQuery) (first second : Relaxation) : Prop :=
  ∃ dropped other, first.loosen = .drop dropped ∧ second.loosen = .drop other ∧
    ∀ index, min dropped other ≤ index → index < max dropped other →
      (query.tokens.map Token.raw)[index]? = (query.tokens.map Token.raw)[index + 1]?

theorem eraseIdx_run {A : Type} (items : List A) (first second : Nat)
    (same : items.eraseIdx first = items.eraseIdx second) (index : Nat) (low : first ≤ index) (high : index < second) :
    items[index]? = items[index + 1]? := by
  have here := congrArg (fun others => others[index]?) same
  simp only [List.getElem?_eraseIdx] at here
  rw [if_neg (by omega), if_pos high] at here
  exact here.symm

/-- The words a relaxation's query is read as: a token dropped, or a positive one with another word in its place. -/
inductive Made (query : ParsedQuery) (found : Relaxation) (words : List Text) : Prop where
  | drop (index : Nat) (loosen : found.loosen = .drop index) (inside : index < query.tokens.length)
      (dropped : words = (query.tokens.map Token.raw).eraseIdx index)
  | anywhere (index : Nat) (value word : Text) (loosen : found.loosen = .anywhere index) (inside : index < query.tokens.length)
      (kind : query.kinds[index]? = some (.filter { negated := false, filter := .single (.name .subject value) }))
      (other : (query.tokens.map Token.raw)[index]? ≠ some word) (put : words = (query.tokens.map Token.raw).set index word)
  | folder (index : Nat) (labels : Filter) (word : Text) (loosen : found.loosen = .folderNotLabel index)
      (inside : index < query.tokens.length)
      (kind : query.kinds[index]? = some (.filter { negated := false, filter := labels })) (field : labels.field = .name .label)
      (other : (query.tokens.map Token.raw)[index]? ≠ some word) (put : words = (query.tokens.map Token.raw).set index word)

theorem senses_raws (env : Env) (today : NaiveDate) (input : Text) :
    (parse env today input).senses.map Prod.fst = (parse env today input).tokens.map Token.raw := by
  unfold ParsedQuery.senses
  rw [List.map_map]
  rfl

theorem relax_made (env : Env) (lawful : env.unicode.Lawful) (today : NaiveDate) (input : Text)
    (no_quote : ∀ clause ∈ (parse env today input).filters, ∀ single ∈ clause.filter.alternatives, single.QuoteFree)
    (found : Relaxation) (inside : found ∈ relax (parse env today input)) :
    Loosened env today (parse env today input) found ∧ Made (parse env today input) found (query.raws found.query) := by
  obtain ⟨token, index, placed, made⟩ := mem_relax _ found inside
  have among : token ∈ (parse env today input).tokens := List.mem_of_getElem? placed
  have within : index < (parse env today input).tokens.length := (List.getElem?_eq_some_iff.mp placed).1
  have words := tokens_words env today input
  have raws := senses_raws env today input
  have own : ∀ row ∈ (parse env today input).senses, classify env today row.1 = some row.2 :=
    fun row inside => (senses_own env today input row inside).2
  have kinds : ∀ kind, token.kind = kind → (parse env today input).kinds[index]? = some kind := by
    rintro kind rfl
    rw [ParsedQuery.kinds, List.getElem?_map, placed]
    rfl
  have raw : ((parse env today input).tokens.map Token.raw)[index]? = some token.raw := by
    rw [List.getElem?_map, placed]
    rfl
  -- A word in a token's place is read as itself.
  have put : ∀ word kind, query.raws found.query = ((parse env today input).tokens.map Token.raw).set index word →
      classify env today word = some kind →
      (parse env today found.query).senses = (parse env today input).senses.set index (word, kind) := by
    intro word kind read means
    have same : ((parse env today input).tokens.map Token.raw).set index word =
        ((parse env today input).senses.set index (word, kind)).map Prod.fst := by
      rw [List.map_set, raws]
    rw [parse_senses, read, same, filterMap_own]
    intro row inside
    rcases List.mem_or_eq_of_mem_set inside with kept | rfl
    next => exact own row kept
    next => exact means
  have differs : ∀ word kind, token.kind = kind → (∀ other, classify env today word = some other → other.field ≠ kind.field) →
      ((parse env today input).tokens.map Token.raw)[index]? ≠ some word := by
    rintro word kind rfl apart same
    rw [raw] at same
    have read := token_classify env today input token among
    rw [Option.some.inj same] at read
    exact apart _ read rfl
  have clauses : ∀ clause, token.kind = .filter clause → (∀ single ∈ clause.filter.alternatives, single.Usable) ∧
      ∀ single ∈ clause.filter.alternatives, single.QuoteFree := by
    intro clause kind
    refine ⟨filter_usable env today input token among clause kind, no_quote clause ?_⟩
    exact List.mem_filterMap.mpr ⟨token, among, by rw [kind]; rfl⟩
  rcases relaxationsAt_cases _ _ _ _ found made with rfl | ⟨value, kind, rfl⟩ | ⟨labels, filter, kind, field, shape, rfl⟩
  next =>
    have read : query.raws (rebuilt (parse env today input).tokens index none) = _ :=
      (congrArg query.raws (rebuilt_drop _ index)).trans (raws_drop _ words index)
    refine ⟨⟨within, ?_⟩, .drop index rfl within read⟩
    have same : ((parse env today input).tokens.map Token.raw).eraseIdx index =
        ((parse env today input).senses.eraseIdx index).map Prod.fst := by
      rw [← List.eraseIdx_map, raws]
    rw [parse_senses, read, same, filterMap_own]
    exact fun row inside => own row (List.mem_of_mem_eraseIdx inside)
  next =>
    obtain ⟨usable, quotes⟩ := clauses _ kind
    obtain ⟨isWord, closed, means, free⟩ := wordsFor_word env today value (usable _ List.mem_cons_self) (quotes _ List.mem_cons_self)
    have read : query.raws (rebuilt (parse env today input).tokens index (some (wordsFor value))) = _ :=
      (congrArg query.raws (rebuilt_put _ index _)).trans (raws_put _ words index _ isWord closed)
    refine ⟨⟨value, kinds _ kind, fun other => ?_⟩, .anywhere index value _ rfl within (kinds _ kind) ?_ read⟩
    next =>
      obtain ⟨quoted, text⟩ := means other
      exact ⟨quoted, put _ _ read text⟩
    next =>
      refine differs _ _ kind fun other means => ?_
      rw [free other means]
      exact fun same => by cases same
  next =>
    obtain ⟨usable, quotes⟩ := clauses _ kind
    obtain ⟨whole, folder, spellable⟩ := folders_spelled env lawful today labels filter field shape usable quotes
    obtain ⟨isWord, means⟩ := spellable_word env today _ spellable
    have apart : filter.field ≠ .header := by
      rw [folder]
      decide
    have closed := (spell_closed _ spellable.1 apart).2
    have read : query.raws (rebuilt (parse env today input).tokens index (some (spell { negated := false, filter }))) = _ :=
      (congrArg query.raws (rebuilt_put _ index _)).trans (raws_put _ words index _ isWord closed)
    refine ⟨⟨labels, filter, kinds _ kind, field, whole, put _ _ read means⟩,
      .folder index labels _ rfl within (kinds _ kind) field ?_ read⟩
    refine differs _ _ kind fun other same => ?_
    rw [means] at same
    cases same
    change some filter.field ≠ some labels.field
    rw [folder, field]
    decide

theorem made_alike (query : ParsedQuery) (first second : Relaxation) (words : List Text) (one : Made query first words)
    (two : Made query second words) (apart : first.loosen ≠ second.loosen) : Alike query first second := by
  have dropped : ∀ index, index < query.tokens.length → ((query.tokens.map Token.raw).eraseIdx index).length + 1 = query.tokens.length := by
    intro index inside
    rw [List.length_eraseIdx, List.length_map, if_pos inside]
    omega
  -- What one puts in a token's place the other leaves there.
  have clash : ∀ (index other : Nat) (word text : Text), index < query.tokens.length →
      (query.tokens.map Token.raw)[index]? ≠ some word → index ≠ other →
      (query.tokens.map Token.raw).set index word ≠ (query.tokens.map Token.raw).set other text := by
    intro index other word text inside differs away same
    have here := congrArg (fun words => words[index]?) same
    simp only [List.getElem?_set_self (by simpa using inside : index < (query.tokens.map Token.raw).length),
      List.getElem?_set_ne (Ne.symm away)] at here
    exact differs here.symm
  have longer : ∀ (index other : Nat) (word : Text), index < query.tokens.length →
      (query.tokens.map Token.raw).eraseIdx index ≠ (query.tokens.map Token.raw).set other word := by
    intro index other word inside same
    have counted := dropped index inside
    rw [same, List.length_set, List.length_map] at counted
    omega
  cases one with
  | drop index loosen inside shape =>
    cases two with
    | drop other loosen' inside' shape' =>
      refine ⟨index, other, loosen, loosen', fun place low high => ?_⟩
      rcases Nat.le_total index other with order | order
      next =>
        rw [Nat.min_eq_left order] at low
        rw [Nat.max_eq_right order] at high
        exact eraseIdx_run _ index other (shape.symm.trans shape') place low high
      next =>
        rw [Nat.min_eq_right order] at low
        rw [Nat.max_eq_left order] at high
        exact eraseIdx_run _ other index (shape'.symm.trans shape) place low high
    | anywhere other value word loosen' inside' kind differs put => exact absurd (shape.symm.trans put) (longer index other word inside)
    | folder other labels word loosen' inside' kind field differs put =>
      exact absurd (shape.symm.trans put) (longer index other word inside)
  | anywhere index value word loosen inside kind differs put =>
    cases two with
    | drop other loosen' inside' shape => exact absurd (shape.symm.trans put) (longer other index word inside')
    | anywhere other value' word' loosen' inside' kind' differs' put' =>
      have away : index ≠ other := by
        rintro rfl
        exact apart (loosen.trans loosen'.symm)
      exact absurd (put.symm.trans put') (clash index other word word' inside differs away)
    | folder other labels word' loosen' inside' kind' field differs' put' =>
      have away : index ≠ other := by
        rintro rfl
        rw [kind] at kind'
        cases kind'
        cases field
      exact absurd (put.symm.trans put') (clash index other word word' inside differs away)
  | folder index labels word loosen inside kind field differs put =>
    cases two with
    | drop other loosen' inside' shape => exact absurd (shape.symm.trans put) (longer other index word inside')
    | anywhere other value word' loosen' inside' kind' differs' put' =>
      have away : index ≠ other := by
        rintro rfl
        rw [kind'] at kind
        cases kind
        cases field
      exact absurd (put.symm.trans put') (clash index other word word' inside differs away)
    | folder other labels' word' loosen' inside' kind' field' differs' put' =>
      have away : index ≠ other := by
        rintro rfl
        exact apart (loosen.trans loosen'.symm)
      exact absurd (put.symm.trans put') (clash index other word word' inside differs away)

/-- Every relaxation differs from the query by the one token it loosens, and two are the same query only where they drop
one of a run of tokens typed alike. -/
theorem relax_exact (env : Env) (lawful : env.unicode.Lawful) (today : NaiveDate) (input : Text)
    (no_quote : ∀ clause ∈ (parse env today input).filters, ∀ single ∈ clause.filter.alternatives, single.QuoteFree) :
    (∀ found ∈ relax (parse env today input), Loosened env today (parse env today input) found) ∧
      (relax (parse env today input)).Pairwise (fun first second => first.query = second.query →
        Alike (parse env today input) first second) := by
  refine ⟨fun found inside => (relax_made env lawful today input no_quote found inside).1, ?_⟩
  refine (relax_distinct _).imp_of_mem fun {first second} one two apart same => ?_
  have made := (relax_made env lawful today input no_quote first one).2
  have other := (relax_made env lawful today input no_quote second two).2
  rw [← same] at other
  exact made_alike _ first second _ made other apart

theorem relax_exact_subject :
    (∀ found ∈ relax (parse plainEnv someDay "subject:budget label:atlas".toList),
        Loosened plainEnv someDay (parse plainEnv someDay "subject:budget label:atlas".toList) found) ∧
      (relax (parse plainEnv someDay "subject:budget label:atlas".toList)).length = 4 :=
  ⟨(relax_exact plainEnv asciiTables_lawful someDay "subject:budget label:atlas".toList (by
      have two : (parse plainEnv someDay "subject:budget label:atlas".toList).filters =
          [{ negated := false, filter := .single (.name .subject "budget".toList) },
            { negated := false, filter := .single (.name .label "atlas".toList) }] := by decide +kernel
      rw [two]
      intro clause inside single among
      simp only [List.mem_cons, List.not_mem_nil, or_false] at inside
      rcases inside with rfl | rfl
      next =>
        obtain rfl := List.mem_singleton.mp among
        exact (by decide : '"' ∉ "budget".toList)
      next =>
        obtain rfl := List.mem_singleton.mp among
        exact (by decide : '"' ∉ "atlas".toList))).1, by decide +kernel⟩

/-- Dropping either of two words alike leaves the same query. -/
theorem relax_repeated : ¬ ∀ (env : Env) (today : NaiveDate) (input : Text), env.unicode.Lawful →
    (∀ clause ∈ (parse env today input).filters, ∀ single ∈ clause.filter.alternatives, single.QuoteFree) →
      (relax (parse env today input)).Pairwise (fun first second => first.query ≠ second.query) := by
  intro always
  have none_there : (parse plainEnv someDay "a a".toList).filters = [] := by decide +kernel
  have apart := always plainEnv someDay "a a".toList asciiTables_lawful (by rw [none_there]; simp)
  exact absurd apart (by decide +kernel)

end Postio.Search

import Postio.Search.Edits

set_option autoImplicit false

namespace Postio.Search

/-! What an edit does to the tokens of a query: it touches the ones it names. -/

variable (env : Env) {A : Type} (unicode : Unicode) (field : Field) (today : NaiveDate) (clause : Clause)
    (bound : Option Sense) (items : List A) (rows : List Sense) (tokens : List Token)

def Spellable : Prop :=
  (∀ single ∈ clause.filter.alternatives, single.QuoteFree) ∧ (parse env today (spell clause)).kinds = [.filter clause]

def spelled : Sense := (spell clause, .filter clause)

/-- The first token of the field becomes the bound, or the bound is appended; every other token of the field goes. -/
def placed (field : Field) (bound : Option Sense) : List Sense -> List Sense
  | [] => bound.toList
  | row :: rows =>
    if row.2.field = some field then bound.toList ++ rows.filter (fun row => row.2.field ≠ some field)
    else row :: placed field bound rows

/-- What an edit says of the tokens' texts and meanings. -/
def Edit.meant : Edit -> List Sense
  | .add clause =>
    if rows.any (fun row => carries unicode clause row.2) then rows
    else
      match lastIndex (fun row => halfTyped clause row.2) rows with
      | some index => rows.set index (spelled clause)
      | none => rows ++ [spelled clause]
  | .remove index => rows.eraseIdx index
  | .replace index clause => rows.set index (spelled clause)
  | .setDates after before =>
    placed .before (before.map (fun date => spelled (beforeClause date)))
      (placed .after (after.map (fun date => spelled (afterClause date))) rows)
  | .clearFilters => rows.filter (fun row => row.2.field.isNone)
  | _ => rows

def Edit.names : Edit -> Bool
  | .toggle _ | .exclude _ | .dates _ => false
  | _ => true

def Edit.clauses : Edit -> List Clause
  | .add clause | .replace _ clause => [clause]
  | .setDates after before => (after.map afterClause).toList ++ (before.map beforeClause).toList
  | _ => []

def reread : List Sense :=
  (settled (rows.map Prod.fst)).filterMap (sense env today)

def leftOpen (row : Sense) : Bool := !query.closed (query.state row.1)

/-! ### A spelled clause is a word -/

theorem spellable_word (spellable : Spellable env today clause) :
    query.IsWord (spell clause) ∧ classify env today (spell clause) = some (.filter clause) := by
  obtain ⟨no_quote, kinds⟩ := spellable
  have usable : ∀ single ∈ clause.filter.alternatives, single.Usable := by
    obtain ⟨token, inside, kind⟩ := List.map_eq_singleton_iff.mp kinds
    exact filter_usable env today (spell clause) token (by rw [inside]; exact List.mem_cons_self) clause kind
  have isWord : query.IsWord (spell clause) := by
    obtain ⟨negated, filter⟩ := clause
    rw [spell_eq] at kinds ⊢
    cases filter with
    | anyOf found => exact isWord_opener negated found.field _ (scan_set negated found no_quote).2
    | single value =>
      have quotes := no_quote value List.mem_cons_self
      by_cases header : value.field = .header
      case neg => exact isWord_opener negated value.field _ (scan_value negated value quotes header).2
      case pos =>
        cases value with
        | header name value =>
          have holds : NameHolds name := by
            by_contra breaks
            refine broken_header env today negated name value quotes (usable _ List.mem_cons_self) breaks ?_
            change (parse env today (opener negated .header ++ spellValue (.header name value))).kinds = _ at kinds
            rw [kinds]
            rfl
          exact isWord_opener negated .header _ (unbroken_header negated name value quotes holds)
        | _ => cases header
  refine ⟨isWord, ?_⟩
  rw [parse_kinds, query.raws_single _ isWord, List.filterMap_cons, List.filterMap_nil] at kinds
  cases read : classify env today (spell clause) with
  | none => rw [read] at kinds; cases kinds
  | some kind =>
    rw [read] at kinds
    exact congrArg some (List.cons.inj kinds).1

/-! ### The words written are the tokens meant -/

theorem filterMap_some : (items.map some).filterMap id = items := by
  rw [List.filterMap_map]
  exact List.filterMap_some

theorem filterMap_cons_kept (item : A) (items : List (Option A)) :
    (some item :: items).filterMap id = item :: items.filterMap id := rfl

theorem filterMap_set (index : Nat) (item : A) :
    ((items.map some).set index (some item)).filterMap id = items.set index item := by
  rw [← List.map_set, filterMap_some]

theorem filterMap_erased (index : Nat) : ((items.map some).set index none).filterMap id = items.eraseIdx index:= by
  induction items generalizing index with
  | nil => rfl
  | cons item items ih =>
    cases index with
    | zero => simp
    | succ index => simpa using ih index

theorem lastIndex_map {B : Type} (view : A -> B) (fits : B -> Bool) (items : List A) :
    lastIndex fits (items.map view) = lastIndex (fun item => fits (view item)) items := by
  unfold lastIndex
  rw [← List.map_reverse, List.findIdx?_map, List.length_map]
  rfl

theorem placeDate_map {B : Type} (view : A -> B) (field : Field) (bound : Option A) (done : Bool) (tokens : List Token)
    (words : List (Option A)) : (placeDate field bound done tokens words).map (Option.map view) =
      placeDate field (bound.map view) done tokens (words.map (Option.map view)) := by
  induction tokens generalizing done words with
  | nil => cases bound <;> cases done <;> simp
  | cons token tokens ih =>
    cases words with
    | nil => cases bound <;> cases done <;> simp [placeDate]
    | cons word words =>
      rw [List.map_cons, placeDate_cons, placeDate_cons]
      split
      next => cases done <;> simp [ih]
      next => simp [ih]

def Fits (token : Token) (slot : Option Sense) : Prop :=
  (token.field = some field → ∃ row, slot = some row ∧ row.2.field = some field) ∧
    (token.field ≠ some field → ∀ row ∈ slot, row.2.field ≠ some field)

theorem placeDate_done (slots : List (Option Sense))
    (pushed : List Sense) (fits : List.Forall₂ (Fits field) tokens slots) (apart : ∀ row ∈ pushed, row.2.field ≠ some field) :
    (placeDate field bound true tokens (slots ++ pushed.map some)).filterMap id =
      (slots.filterMap id ++ pushed).filter (fun row => row.2.field ≠ some field) := by
  induction fits with
  | nil =>
    have kept : pushed.filter (fun row => row.2.field ≠ some field) = pushed :=
      List.filter_eq_self.mpr fun row inside => decide_eq_true (apart row inside)
    rw [List.nil_append, List.filterMap_nil, List.nil_append, kept]
    simp
  | @cons token slot tokens slots here _ ih =>
    rw [List.cons_append, placeDate_cons]
    split
    next mine =>
      obtain ⟨row, rfl, same⟩ := here.1 mine
      simpa [same] using ih
    next other =>
      cases slot with
      | none => simpa using ih
      | some row =>
        have differs := here.2 other row rfl
        simpa [differs] using ih

theorem placeDate_placed (slots : List (Option Sense))
    (pushed : List Sense) (fits : List.Forall₂ (Fits field) tokens slots) (apart : ∀ row ∈ pushed, row.2.field ≠ some field) :
    (placeDate field bound false tokens (slots ++ pushed.map some)).filterMap id =
      placed field bound (slots.filterMap id ++ pushed) := by
  induction fits with
  | nil =>
    -- No token of the field is left, and none was met: the bound is appended.
    have appended : placed field bound pushed = pushed ++ bound.toList := by
      induction pushed with
      | nil => rfl
      | cons row pushed ih =>
        obtain ⟨here, rest⟩ := List.forall_mem_cons.mp apart
        rw [placed, if_neg here, ih rest, List.cons_append]
    rw [List.nil_append, List.filterMap_nil, List.nil_append, appended]
    cases bound <;> simp
  | @cons token slot tokens slots here rest ih =>
    rw [List.cons_append, placeDate_cons]
    split
    next mine =>
      obtain ⟨row, rfl, same⟩ := here.1 mine
      have behind := placeDate_done field bound tokens slots pushed rest apart
      have first : placed field bound ((some row :: slots).filterMap id ++ pushed) =
          bound.toList ++ (slots.filterMap id ++ pushed).filter (fun row => row.2.field ≠ some field) := by
        rw [filterMap_cons_kept, List.cons_append, placed, if_pos same]
      rw [first, ← behind]
      cases bound <;> simp
    next other =>
      cases slot with
      | none => simpa using ih
      | some row =>
        have differs := here.2 other row rfl
        have first : placed field bound ((some row :: slots).filterMap id ++ pushed) =
            row :: placed field bound (slots.filterMap id ++ pushed) := by
          rw [filterMap_cons_kept, List.cons_append, placed, if_neg differs]
        rw [first, ← ih]
        simp

theorem placeDate_other (other : Field) (apart : field ≠ other) (bound : Option Sense)
    (own : ∀ row ∈ bound, row.2.field = some field) (done : Bool) (tokens : List Token) (slots : List (Option Sense))
    (fits : List.Forall₂ (Fits other) tokens slots) : ∃ (left : List (Option Sense)) (pushed : List Sense),
      placeDate field bound done tokens slots = left ++ pushed.map some ∧ List.Forall₂ (Fits other) tokens left ∧
        ∀ row ∈ pushed, row.2.field ≠ some other := by
  have differs : ∀ row ∈ bound, row.2.field ≠ some other := by
    intro row inside same
    rw [own row inside] at same
    exact apart (Option.some.inj same)
  induction fits generalizing done with
  | nil =>
    cases bound with
    | none => exact ⟨[], [], by simp, .nil, by simp⟩
    | some row =>
      cases done with
      | true => exact ⟨[], [], by simp, .nil, by simp⟩
      | false => exact ⟨[], [row], by simp, .nil, by simpa using differs⟩
  | @cons token slot tokens slots here rest ih =>
    rw [placeDate_cons]
    split
    next mine =>
      obtain ⟨left, pushed, shape, aligned, beyond⟩ := ih true
      rw [shape]
      refine ⟨(if done then none else bound) :: left, pushed, by simp, .cons ⟨?_, ?_⟩ aligned, beyond⟩
      next =>
        intro theirs
        rw [mine] at theirs
        exact absurd (Option.some.inj theirs) apart
      next =>
        intro _ row inside
        cases done with
        | true => cases inside
        | false => exact differs row inside
    next =>
      obtain ⟨left, pushed, shape, aligned, beyond⟩ := ih done
      rw [shape]
      exact ⟨slot :: left, pushed, by simp, .cons here aligned, beyond⟩

def senseOf (token : Token) : Sense := (token.raw, token.kind)

theorem written_setDates (after before : Option NaiveDate) :
    ((Edit.setDates after before).written unicode today tokens).filterMap id =
      ((Edit.setDates after before).meant unicode (tokens.map senseOf)).map Prod.fst := by
  have aligned : ∀ field, List.Forall₂ (Fits field) tokens (tokens.map (fun token => some (senseOf token))) := by
    intro field
    induction tokens with
    | nil => exact .nil
    | cons token tokens ih =>
      refine .cons ⟨fun mine => ⟨_, rfl, mine⟩, ?_⟩ ih
      rintro other row inside
      cases inside
      exact other
  have raws : (tokens.map (fun token => some token.raw) : List (Option Text)) =
      (tokens.map (fun token => some (senseOf token))).map (Option.map Prod.fst) := by
    rw [List.map_map]
    rfl
  have texts : ∀ (make : NaiveDate -> Clause) (date : Option NaiveDate), date.map (fun date => spell (make date)) =
      (date.map (fun date => spelled (make date))).map Prod.fst := by
    intro make date
    rw [Option.map_map]
    rfl
  have views : ∀ slots : List (Option Sense), (slots.map (Option.map Prod.fst)).filterMap id = (slots.filterMap id).map Prod.fst := by
    intro slots
    rw [List.filterMap_map, List.map_filterMap]
    rfl
  obtain ⟨left, pushed, shape, fits, apart⟩ := placeDate_other .after .before (by decide)
    (after.map (fun date => spelled (afterClause date)))
    (by intro row inside; obtain ⟨date, -, rfl⟩ := Option.map_eq_some_iff.mp inside; rfl) false tokens _ (aligned .before)
  have first := placeDate_placed .after (after.map (fun date => spelled (afterClause date))) tokens _ [] (aligned .after) (by simp)
  have second := placeDate_placed .before (before.map (fun date => spelled (beforeClause date))) tokens left pushed fits apart
  have kept : (tokens.map (fun token => some (senseOf token))).filterMap id = tokens.map senseOf := by
    rw [← filterMap_some (tokens.map senseOf), List.map_map]
    rfl
  rw [List.map_nil, List.append_nil, List.append_nil, kept, shape] at first
  have between : left.filterMap id ++ pushed = (left ++ pushed.map some).filterMap id := by
    rw [List.filterMap_append, filterMap_some]
  rw [between, first] at second
  unfold Edit.written Edit.meant
  simp only
  rw [raws, texts, texts, ← placeDate_map, ← placeDate_map, views, shape, second]

theorem written_meant (edit : Edit) (names : edit.names = true) :
    (edit.written unicode today tokens).filterMap id = (edit.meant unicode (tokens.map senseOf)).map Prod.fst := by
  have kept : (tokens.map (fun token => some token.raw)).filterMap id = tokens.map Token.raw := by
    rw [← filterMap_some (tokens.map Token.raw), List.map_map]
    rfl
  have texts : (tokens.map senseOf).map Prod.fst = tokens.map Token.raw := by
    rw [List.map_map]
    rfl
  have listed : (tokens.map (fun token => some token.raw) : List (Option Text)) = (tokens.map Token.raw).map some := by
    rw [List.map_map]
    rfl
  have put : ∀ index clause, ((tokens.map (fun token => some token.raw)).set index (some (spell clause))).filterMap id =
      ((tokens.map senseOf).set index (spelled clause)).map Prod.fst := by
    intro index clause
    rw [List.map_set, texts, listed, filterMap_set]
    rfl
  cases edit with
  | add clause =>
    have held : (tokens.map senseOf).any (fun row => carries unicode clause row.2) = (tokens.map Token.kind).any (carries unicode clause) := by
      rw [List.any_map, List.any_map]
      rfl
    have half : lastIndex (fun row => halfTyped clause row.2) (tokens.map senseOf) = lastIndex (halfTyped clause) (tokens.map Token.kind) := by
      rw [lastIndex_map, lastIndex_map]
      rfl
    unfold Edit.written Edit.meant Search.add
    simp only [held, half]
    split
    next => rw [kept, texts]
    next =>
      cases lastIndex (halfTyped clause) (tokens.map Token.kind) with
      | some index => exact put index clause
      | none =>
        simp only [List.filterMap_append, List.map_append, kept, texts]
        rfl
  | remove index =>
    have erased : ((tokens.map senseOf).eraseIdx index).map Prod.fst = (tokens.map Token.raw).eraseIdx index := by
      rw [← List.eraseIdx_map, texts]
    change ((tokens.map (fun token => some token.raw)).set index none).filterMap id = _
    rw [listed, filterMap_erased]
    exact erased.symm
  | replace index clause => exact put index clause
  | setDates after before => exact written_setDates unicode today tokens after before
  | clearFilters =>
    change (tokens.map (fun token => if token.field.isSome then none else some token.raw)).filterMap id =
      ((tokens.map senseOf).filter (fun row => row.2.field.isNone)).map Prod.fst
    clear kept texts listed put
    rw [List.filterMap_map]
    induction tokens with
    | nil => rfl
    | cons token tokens ih =>
      have same : (senseOf token).2.field = token.field := rfl
      rw [List.filterMap_cons, ih, List.map_cons, List.filter_cons, same]
      cases shape : token.field with
      | none => simp [shape, senseOf]
      | some field => simp [shape]
  | toggle _ => cases names
  | exclude _ => cases names
  | dates _ => cases names

theorem mem_placed (row : Sense) (inside : row ∈ placed field bound rows) : row ∈ rows ∨ row ∈ bound:= by
  induction rows with
  | nil => exact .inr (Option.mem_toList.mp inside)
  | cons first rows ih =>
    unfold placed at inside
    split at inside
    next =>
      rcases List.mem_append.mp inside with placed | further
      next => exact .inr (Option.mem_toList.mp placed)
      next => exact .inl (List.mem_cons_of_mem _ (List.mem_filter.mp further).1)
    next =>
      rcases List.mem_cons.mp inside with rfl | inside
      next => exact .inl List.mem_cons_self
      next => exact (ih inside).imp (List.mem_cons_of_mem _) id

theorem mem_meant (edit : Edit) (rows : List Sense) (row : Sense) (inside : row ∈ edit.meant unicode rows) :
    row ∈ rows ∨ ∃ clause ∈ edit.clauses, row = spelled clause := by
  have put : ∀ index clause, row ∈ rows.set index (spelled clause) → row ∈ rows ∨ row = spelled clause := by
    intro index clause inside
    exact List.mem_or_eq_of_mem_set inside
  cases edit with
  | add clause =>
    unfold Edit.meant at inside
    simp only at inside
    split at inside
    next => exact .inl inside
    next =>
      split at inside
      next index _ => exact (put index clause inside).imp id fun same => ⟨clause, List.mem_cons_self, same⟩
      next =>
        rcases List.mem_append.mp inside with kept | new
        next => exact .inl kept
        next => exact .inr ⟨clause, List.mem_cons_self, List.mem_singleton.mp new⟩
  | remove index => exact .inl (List.mem_of_mem_eraseIdx inside)
  | replace index clause => exact (put index clause inside).imp id fun same => ⟨clause, List.mem_cons_self, same⟩
  | setDates after before =>
    rcases mem_placed _ _ _ row inside with inside | bound
    next =>
      rcases mem_placed _ _ _ row inside with kept | bound
      next => exact .inl kept
      next =>
        obtain ⟨date, rfl, rfl⟩ := Option.map_eq_some_iff.mp bound
        exact .inr ⟨afterClause date, by simp [Edit.clauses], rfl⟩
    next =>
      obtain ⟨date, rfl, rfl⟩ := Option.map_eq_some_iff.mp bound
      exact .inr ⟨beforeClause date, by simp [Edit.clauses], rfl⟩
  | clearFilters => exact .inl (List.mem_filter.mp inside).1
  | toggle _ => exact .inl inside
  | exclude _ => exact .inl inside
  | dates _ => exact .inl inside

/-! ### The tokens after an edit -/

theorem filterMap_own (own : ∀ row ∈ rows, classify env today row.1 = some row.2) : (rows.map Prod.fst).filterMap (sense env today) = rows := by
  induction rows with
  | nil => rfl
  | cons row rows ih =>
    obtain ⟨here, rest⟩ := List.forall_mem_cons.mp own
    rw [List.map_cons, List.filterMap_cons, sense, here, ih rest]
    rfl

theorem reread_self (own : ∀ row ∈ rows, classify env today row.1 = some row.2) (closed : ∀ row ∈ rows.dropLast, leftOpen row = false) :
    reread env today rows = rows := by
  have settles : settled (rows.map Prod.fst) = rows.map Prod.fst := by
    refine settled_self _ fun word inside => ?_
    rw [← List.map_dropLast] at inside
    obtain ⟨row, among, rfl⟩ := List.mem_map.mp inside
    simpa [leftOpen] using closed row among
  rw [reread, settles, filterMap_own env today rows own]

theorem senses_own (input : Text) :
    ∀ row ∈ (parse env today input).senses, query.IsWord row.1 ∧ classify env today row.1 = some row.2 := by
  intro row inside
  obtain ⟨token, among, rfl⟩ := List.mem_map.mp inside
  have isWord := ((words_iff _).mp (tokens_words env today input)).1 token.raw (List.mem_map_of_mem among)
  exact ⟨isWord, token_classify env today input token among⟩

theorem senses_closed (input : Text) :
    ∀ row ∈ (parse env today input).senses.dropLast, leftOpen row = false := by
  intro row inside
  have fronts := ((words_iff _).mp (tokens_words env today input)).2 row.1 ?_
  next => simp [leftOpen, fronts]
  next =>
    have texts : (parse env today input).tokens.map Token.raw = (parse env today input).senses.map Prod.fst := by
      unfold ParsedQuery.senses
      rw [List.map_map]
      rfl
    rw [texts, ← List.map_dropLast]
    exact List.mem_map_of_mem inside

/-- An edit leaves the tokens it does not name their texts and meanings, in order; only, a token left open is closed,
and read again so, where another follows it. -/
theorem apply_frame (input : Text) (edit : Edit) (names : edit.names = true)
    (spellable : ∀ clause ∈ edit.clauses, Spellable env today clause) :
    let before := (parse env today input).senses
    let after := (parse env today (apply env today input edit)).senses
    let meant := edit.meant env.unicode before
    after = reread env today meant ∧
      (∀ row ∈ before.dropLast, leftOpen row = false) ∧
      ((∀ row ∈ meant.dropLast, leftOpen row = false) → after = meant) ∧
      ∀ clause, edit = .add clause → before.any (fun row => carries env.unicode clause row.2) = true → after = before := by
  have written := written_meant env.unicode today (parse env today input).tokens edit names
  have own : ∀ row ∈ edit.meant env.unicode (parse env today input).senses,
      query.IsWord row.1 ∧ classify env today row.1 = some row.2 := by
    intro row inside
    rcases mem_meant env.unicode edit _ row inside with kept | ⟨clause, among, rfl⟩
    next => exact senses_own env today input row kept
    next => exact spellable_word env today clause (spellable clause among)
  have after : (parse env today (apply env today input edit)).senses =
      reread env today (edit.meant env.unicode (parse env today input).senses) := by
    rw [apply_senses, written]
    next => rfl
    next =>
      intro word inside
      rw [written] at inside
      obtain ⟨row, among, rfl⟩ := List.mem_map.mp inside
      exact (own row among).1
  refine ⟨after, senses_closed env today input, ?_, ?_⟩
  next => exact fun closed => after.trans (reread_self env today _ (fun row inside => (own row inside).2) closed)
  next =>
    rintro clause rfl held
    have same : (Edit.add clause).meant env.unicode (parse env today input).senses = (parse env today input).senses := by
      unfold Edit.meant
      exact if_pos held
    rw [after, same]
    exact reread_self env today _ (fun row inside => (senses_own env today input row inside).2) (senses_closed env today input)

def attached : Clause := { negated := false, filter := .single .hasAttachment }

theorem attached_spellable : Spellable plainEnv someDay attached :=
  ⟨List.forall_mem_singleton.mpr trivial, by decide +kernel⟩

theorem apply_frame_atlas :
    (parse plainEnv someDay (apply plainEnv someDay "\"q3 plan\" has: atlas".toList (.add attached))).senses =
      (Edit.add attached).meant plainEnv.unicode (parse plainEnv someDay "\"q3 plan\" has: atlas".toList).senses :=
  (apply_frame plainEnv someDay "\"q3 plan\" has: atlas".toList (.add attached) rfl
    (List.forall_mem_singleton.mpr attached_spellable)).2.2.1 (by decide +kernel)

/-- A set left open is a clause once another follows it. -/
theorem apply_closes : ¬ ∀ (env : Env) (today : NaiveDate) (input : Text) (edit : Edit), edit.names = true →
    (∀ clause ∈ edit.clauses, Spellable env today clause) →
    (parse env today (apply env today input edit)).senses = edit.meant env.unicode (parse env today input).senses := by
  intro always
  have framed := always plainEnv someDay "from:\x7bada tomas".toList (.add attached) rfl
    (List.forall_mem_singleton.mpr attached_spellable)
  have half : ((Edit.add attached).meant plainEnv.unicode (parse plainEnv someDay "from:\x7bada tomas".toList).senses).head? =
      some ("from:\x7bada tomas".toList, .unfinished { negated := false, field := .name .fromWho, value := "\x7bada tomas".toList }) := by
    decide +kernel
  rw [← framed] at half
  exact absurd half (by decide +kernel)

end Postio.Search

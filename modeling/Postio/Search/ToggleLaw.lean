import Postio.Search.RollingDates
import Postio.Search.Toggles

set_option autoImplicit false

namespace Postio.Search

/-! The law of Toggle and Exclude. -/

variable (unicode : Unicode) (query : ParsedQuery) (value : Single) (negated : Bool)

def flipEdit (filter : Filter) : Edit := if negated then .exclude filter else .toggle filter

def ParsedQuery.values (query : ParsedQuery) : List (Bool × Single) := query.kinds.flatMap TokenKind.values

def ParsedQuery.terms : List TextTerm := query.kinds.filterMap TokenKind.term

def ParsedQuery.carriers (value : Single) : List Clause :=
  query.filters.filter (fun clause => clause.negated = negated && clause.filter.holds unicode (.single value))

def ParsedQuery.InForce (value : Single) : Prop :=
  query.carriers unicode negated value ≠ []

/-- What one flip of a value makes of a query. -/
structure Flipped (unicode : Unicode) (value : Single) (negated : Bool) (query edited : ParsedQuery) : Prop where
  -- Carried before, it is carried no more; the other sign's values are as they were.
  out : query.carriers unicode negated value ≠ [] → edited.carriers unicode negated value = [] ∧
    edited.values.filter (fun pair => pair.1 ≠ negated) = query.values.filter (fun pair => pair.1 ≠ negated)
  -- Not carried before, one clause of the sign carries it, and none of the other.
  into : query.carriers unicode negated value = [] →
    (edited.carriers unicode negated value).length = 1 ∧ edited.carriers unicode (!negated) value = []
  -- Every other value keeps its clause's sign and its place.
  others : edited.values.filter (fun pair => !pair.2.same unicode value) =
    query.values.filter (fun pair => !pair.2.same unicode value)
  terms : edited.terms = query.terms

/-! ### Values compared -/

def Single.key : Single -> Single
  | .name field value => .name field (unicode.lowerText value)
  | other => other

theorem same_iff (other : Single) :
    value.same unicode other = true <-> value.key unicode = other.key unicode := by
  cases value with
  | name field text => cases other <;> simp [Single.same, Single.key]
  | _ => cases other <;> simp [Single.same, Single.key]

theorem key_field : (value.key unicode).field = value.field := by
  cases value <;> rfl

theorem same_left (other third : Single) (same : value.same unicode other = true) :
    third.same unicode value = third.same unicode other := by
  rw [Bool.eq_iff_iff, same_iff, same_iff, (same_iff unicode value other).mp same]

/-! ### Clauses counted by their values -/

theorem isOne_count (clause : Clause) :
    (clause.negated = negated && clause.filter.holds unicode (.single value)) = true <->
      0 < (TokenKind.filter clause).values.countP (isOne unicode value negated) := by
  rw [List.countP_pos_iff, Bool.and_eq_true_iff, decide_eq_true_eq]
  constructor
  next =>
    rintro ⟨sign, holds⟩
    obtain ⟨single, inside, same⟩ := List.any_eq_true.mp holds
    refine ⟨(clause.negated, single), List.mem_map_of_mem inside, ?_⟩
    have here : single.same unicode value = true := same
    simp [isOne, sign, here]
  next =>
    rintro ⟨pair, inside, one⟩
    obtain ⟨single, among, rfl⟩ := List.mem_map.mp inside
    obtain ⟨sign, same⟩ := Bool.and_eq_true_iff.mp one
    exact ⟨of_decide_eq_true sign, List.any_eq_true.mpr ⟨single, among, same⟩⟩

theorem values_filters : query.values = query.filters.flatMap (fun clause => (TokenKind.filter clause).values) := by
  unfold ParsedQuery.values
  rw [filters_kinds]
  induction query.kinds with
  | nil => rfl
  | cons kind kinds ih =>
    rw [List.flatMap_cons, List.filterMap_cons, ih]
    cases kind <;> rfl

theorem carriers_count (value : Single) :
    (query.carriers unicode negated value).length ≤ query.values.countP (isOne unicode value negated) ∧
      (query.carriers unicode negated value = [] <-> query.values.countP (isOne unicode value negated) = 0) := by
  rw [values_filters]
  unfold ParsedQuery.carriers
  induction query.filters with
  | nil => simp
  | cons clause clauses ih =>
    have here := isOne_count unicode value negated clause
    rw [List.filter_cons, List.flatMap_cons, List.countP_append]
    split
    next carried =>
      have some_value := here.mp carried
      refine ⟨by rw [List.length_cons]; omega, ?_⟩
      simp only [List.cons_ne_nil, false_iff]
      omega
    next not_carried =>
      have no_value : (TokenKind.filter clause).values.countP (isOne unicode value negated) = 0 := by
        by_contra some_value
        exact not_carried (here.mpr (Nat.pos_of_ne_zero some_value))
      rw [no_value, Nat.zero_add]
      exact ih

theorem carriers_nil (value : Single) :
    query.carriers unicode negated value = [] <-> ∀ pair ∈ query.values, isOne unicode value negated pair = false := by
  rw [(carriers_count unicode query negated value).2, List.countP_eq_zero]
  simp

theorem senses_values : query.senses.flatMap (fun row => row.2.values) = query.values := by
  unfold ParsedQuery.values
  rw [kinds_senses, List.flatMap_map]

theorem senses_terms : query.senses.filterMap (fun row => row.2.term) = query.terms := by
  unfold ParsedQuery.terms
  rw [kinds_senses, List.filterMap_map]
  rfl

theorem held_iff (query : ParsedQuery) :
    Held unicode value negated query.senses <-> query.carriers unicode negated value ≠ [] := by
  unfold Held
  rw [senses_values, ne_eq, carriers_nil]
  simp only [not_forall, Bool.not_eq_false, exists_prop]

theorem flipped_law (query edited : ParsedQuery)
    (read : edited.senses = (flipped unicode value negated query.senses).filterMap id) :
    Flipped unicode value negated query edited := by
  have values : edited.values = slotValues (flipped unicode value negated query.senses) := by
    rw [← senses_values, read, slotValues_rows]
  have terms : edited.terms = slotTerms (flipped unicode value negated query.senses) := by
    rw [← senses_terms, read, slotTerms_rows]
  by_cases held : Held unicode value negated query.senses
  case pos =>
    obtain ⟨taken, silent⟩ := flipped_taken unicode value negated query.senses held
    rw [senses_values, ← values] at taken
    rw [senses_terms, ← terms] at silent
    refine ⟨fun _ => ⟨?_, ?_⟩, fun nothing => absurd nothing ((held_iff unicode value negated query).mp held), ?_, silent⟩
    next =>
      rw [carriers_nil, taken]
      intro pair inside
      simpa using (List.mem_filter.mp inside).2
    next =>
      rw [taken, List.filter_filter]
      refine List.filter_congr fun pair _ => ?_
      by_cases sign : pair.1 = negated <;> simp [isOne, sign]
    next =>
      rw [taken, List.filter_filter]
      refine List.filter_congr fun pair _ => ?_
      cases same : pair.2.same unicode value <;> simp [isOne, same]
  case neg =>
    obtain ⟨⟨front, back, rest, put⟩, silent⟩ := flipped_put unicode value negated query.senses held
    rw [senses_values] at rest
    rw [← values] at put
    rw [senses_terms, ← terms] at silent
    have own : value.same unicode value = true := (same_iff unicode value value).mpr rfl
    have apart : ∀ pair ∈ front ++ back, pair.2.same unicode value = false := by
      intro pair inside
      rw [← rest] at inside
      simpa using (List.mem_filter.mp inside).2
    have counted : ∀ sign, edited.values.countP (isOne unicode value sign) = if negated = sign then 1 else 0 := by
      intro sign
      have elsewhere : ∀ part : List (Bool × Single), (∀ pair ∈ part, pair.2.same unicode value = false) →
          part.countP (isOne unicode value sign) = 0 := by
        intro part differs
        rw [List.countP_eq_zero]
        intro pair inside
        simp [isOne, differs pair inside]
      rw [put, List.countP_append, List.countP_cons,
        elsewhere front (fun pair inside => apart pair (List.mem_append_left _ inside)),
        elsewhere back (fun pair inside => apart pair (List.mem_append_right _ inside))]
      by_cases sign_own : negated = sign <;> simp [isOne, own, sign_own]
    refine ⟨fun carried => absurd ((held_iff unicode value negated query).mpr carried) held, fun _ => ⟨?_, ?_⟩, ?_, silent⟩
    next =>
      obtain ⟨most, zero⟩ := carriers_count unicode edited negated value
      have one := counted negated
      rw [if_pos rfl] at one
      have some_carrier : edited.carriers unicode negated value ≠ [] := fun nothing => by
        have none_there := zero.mp nothing
        omega
      have positive := List.length_pos_iff.mpr some_carrier
      omega
    next =>
      rw [(carriers_count unicode edited (!negated) value).2, counted, if_neg (by simp)]
    next =>
      rw [rest, put, List.filter_append, List.filter_cons_of_neg (by simp [own])]
      rw [List.filter_eq_self.mpr (fun pair inside => by simp [apart pair (List.mem_append_left _ inside)]),
        List.filter_eq_self.mpr (fun pair inside => by simp [apart pair (List.mem_append_right _ inside)])]

/-! ### The words a flip writes -/

theorem flip_map {A B : Type} (view : A -> B) (unicode : Unicode) (write : Clause -> A) (kinds : List TokenKind) (words : List A)
    (filter : Filter) (negated : Bool) : (flip unicode write kinds words filter negated).map (Option.map view) =
      flip unicode (fun clause => view (write clause)) kinds (words.map view) filter negated := by
  have out : ∀ sign, (takeOut unicode write kinds words sign filter).map (Option.map view) =
      takeOut unicode (fun clause => view (write clause)) kinds (words.map view) sign filter := by
    intro sign
    unfold takeOut
    rw [List.zipWith_map_right, List.map_zipWith]
    congr 1
    funext kind word
    cases holder unicode sign filter kind with
    | none => rfl
    | some clause => exact Option.map_map _ _ _
  unfold flip
  split
  next => exact out negated
  next =>
    simp only
    split
    next => rw [List.map_set, out]; rfl
    next => rw [List.map_set, out]; rfl
    next =>
      unfold Search.add
      split
      next => exact out _
      next =>
        split
        next => rw [List.map_set, out]; rfl
        next => rw [List.map_append, out]; rfl

theorem written_flip (today : NaiveDate) (query : ParsedQuery) (value : Single) (negated : Bool) :
    ((flipEdit negated (.single value)).written unicode today query.tokens).filterMap id =
      ((flipped unicode value negated query.senses).filterMap id).map Prod.fst := by
  have words : (flipEdit negated (.single value)).written unicode today query.tokens =
      flip unicode spell (query.tokens.map Token.kind) (query.tokens.map Token.raw) (.single value) negated := by
    cases negated <;> rfl
  have kinds : query.senses.map Prod.snd = query.tokens.map Token.kind := (kinds_senses query).symm
  have raws : query.senses.map Prod.fst = query.tokens.map Token.raw := by
    unfold ParsedQuery.senses
    rw [List.map_map]
    rfl
  have viewed := flip_map Prod.fst unicode spelled (query.senses.map Prod.snd) query.senses (.single value) negated
  have text : (fun clause => (spelled clause).1) = spell := rfl
  rw [text, kinds, raws] at viewed
  rw [words, ← viewed, List.filterMap_map, List.map_filterMap, flipped, kinds]
  rfl

theorem alternatives_filled (filter : Filter) : filter.alternatives ≠ [] := by
  cases filter with
  | single value => exact List.cons_ne_nil _ _
  | anyOf found =>
    intro empty
    have several := found.several
    change found.members = [] at empty
    rw [empty] at several
    cases several

theorem spellable_values (env : Env) (lawful : env.unicode.Lawful) (today : NaiveDate) (clause : Clause)
    (takesSet : clause.filter.field.takesSet = true) (usable : ∀ single ∈ clause.filter.alternatives, single.Usable)
    (no_quote : ∀ single ∈ clause.filter.alternatives, single.QuoteFree) : Spellable env today clause := by
  refine ⟨no_quote, (kinds_spell env lawful today clause usable no_quote).mpr ?_⟩
  cases shape : clause.filter with
  | anyOf found => trivial
  | single value =>
    rw [shape] at takesSet
    cases value with
    | name _ _ => trivial
    | withAddresses _ => trivial
    | _ => cases takesSet

theorem without_left (clause rest : Clause)
    (holds : ∃ single ∈ clause.filter.alternatives, single.same unicode value = true)
    (left : without unicode clause (.single value) = some rest) :
    rest.filter.field.takesSet = true ∧ ∀ single ∈ rest.filter.alternatives, single ∈ clause.filter.alternatives := by
  obtain ⟨filter, made, rfl⟩ := Option.map_eq_some_iff.mp left
  have listed := ofMembers_alternatives _ filter made
  have among : ∀ single ∈ filter.alternatives, single ∈ clause.filter.alternatives := by
    intro single inside
    rw [listed] at inside
    exact (List.mem_filter.mp inside).1
  refine ⟨?_, among⟩
  obtain ⟨takesSet, uniform⟩ := alternatives_field clause.filter
  have takes : clause.filter.field.takesSet = true := by
    rcases takesSet with short | takes
    next =>
      -- Its only value is the one taken out.
      exfalso
      obtain ⟨single, inside, same⟩ := holds
      obtain ⟨first, others, values⟩ := List.exists_cons_of_ne_nil (alternatives_filled filter)
      have kept : first ∈ filter.alternatives := by rw [values]; exact List.mem_cons_self
      have stays := kept
      rw [listed] at stays
      have differs := (List.mem_filter.mp stays).2
      obtain ⟨only, shape⟩ : ∃ only, clause.filter.alternatives = [only] := by
        have filled := List.length_pos_of_mem inside
        exact List.length_eq_one_iff.mp (by omega)
      have one : first = single := by
        have left_one := among first kept
        rw [shape] at left_one inside
        rw [List.mem_singleton.mp left_one, List.mem_singleton.mp inside]
      rw [one] at differs
      have taken : Filter.same unicode (.single single) (.single value) = true := same
      rw [taken] at differs
      cases differs
    next => exact takes
  obtain ⟨first, others, values⟩ := List.exists_cons_of_ne_nil (alternatives_filled filter)
  have kept : first ∈ filter.alternatives := by rw [values]; exact List.mem_cons_self
  change filter.field.takesSet = true
  rw [← (alternatives_field filter).2 first kept, uniform first (among first kept)]
  exact takes

/-! ### A flipped query read again -/

section

variable (env : Env) (today : NaiveDate) (value : Single) (negated : Bool)

def Writable (input : Text) : Prop :=
  ∀ clause ∈ (parse env today input).filters, clause.filter.field = value.field →
    ∀ single ∈ clause.filter.alternatives, single.QuoteFree

theorem token_of_row (input : Text) (row : Sense) (inside : row ∈ (parse env today input).senses) (clause : Clause)
    (kind : row.2 = .filter clause) : clause ∈ (parse env today input).filters ∧
      ∀ single ∈ clause.filter.alternatives, single.Usable := by
  obtain ⟨token, among, rfl⟩ := List.mem_map.mp inside
  refine ⟨List.mem_filterMap.mpr ⟨token, among, ?_⟩, filter_usable env today input token among clause kind⟩
  have same : token.kind = .filter clause := kind
  rw [same]
  rfl

theorem spellable_usable (clause : Clause) (spellable : Spellable env today clause) :
    ∀ single ∈ clause.filter.alternatives, single.Usable := by
  obtain ⟨token, inside, kind⟩ := List.map_eq_singleton_iff.mp spellable.2
  exact filter_usable env today (spell clause) token (by rw [inside]; exact List.mem_cons_self) clause kind

theorem flipped_own (lawful : env.unicode.Lawful) (input : Text) (writable : Writable env today value input)
    (spellable : Spellable env today { negated, filter := .single value }) :
    ∀ row ∈ (flipped env.unicode value negated (parse env today input).senses).filterMap id,
      row ∈ (parse env today input).senses ∨ ∃ clause, row = spelled clause ∧ Spellable env today clause ∧
        (clause.filter.field.takesSet = true ∨ clause = { negated, filter := .single value }) := by
  have left : ∀ sign, ∀ row ∈ ((parse env today input).senses.map (taken env.unicode value sign)).filterMap id,
      row ∈ (parse env today input).senses ∨ ∃ clause, row = spelled clause ∧ Spellable env today clause ∧
        (clause.filter.field.takesSet = true ∨ clause = { negated, filter := .single value }) := by
    intro sign row inside
    rw [List.filterMap_map] at inside
    obtain ⟨old, among, made⟩ := List.mem_filterMap.mp inside
    have shape : taken env.unicode value sign old = some row := made
    cases held : holder env.unicode sign (.single value) old.2 with
    | none =>
      rw [taken_none env.unicode value sign old held] at shape
      cases shape
      exact .inl among
    | some clause =>
      rw [taken_some env.unicode value sign old clause held] at shape
      obtain ⟨rest, kept, rfl⟩ := Option.map_eq_some_iff.mp shape
      obtain ⟨kind, -, holds⟩ := holder_some env.unicode value sign old.2 clause held
      obtain ⟨takesSet, sub⟩ := without_left env.unicode value clause rest holds kept
      obtain ⟨listed, usable⟩ := token_of_row env today input old among clause kind
      obtain ⟨single, inside, same⟩ := holds
      have field : clause.filter.field = value.field := by
        rw [← (alternatives_field clause.filter).2 single inside, ← key_field env.unicode single, (same_iff env.unicode single value).mp same, key_field]
      refine .inr ⟨rest, rfl, spellable_values env lawful today rest takesSet ?_ ?_, .inl takesSet⟩
      next => exact fun other inside => usable other (sub other inside)
      next => exact fun other inside => writable clause listed field other (sub other inside)
  have own : ∀ clause, Source value negated (parse env today input).senses clause → clause.negated = negated →
      Spellable env today clause ∧ (clause.filter.field.takesSet = true ∨ clause = { negated, filter := .single value }) := by
    intro clause source sign
    rcases source with rfl | ⟨old, held, among, kind, field, values⟩
    next => exact ⟨spellable, .inr rfl⟩
    next =>
      obtain ⟨listed, usable⟩ := token_of_row env today input old among held kind
      have takesSet : clause.filter.field.takesSet = true := by
        rcases (alternatives_field clause.filter).1 with short | takes
        next =>
          have filled := List.length_pos_iff.mpr (alternatives_filled held.filter)
          rw [values, List.length_append, List.length_singleton] at short
          omega
        next => exact takes
      refine ⟨spellable_values env lawful today clause takesSet ?_ ?_, .inl takesSet⟩
      next =>
        intro single inside
        rw [values] at inside
        rcases List.mem_append.mp inside with kept | new
        next => exact usable single kept
        next => exact spellable_usable env today _ spellable single new
      next =>
        intro single inside
        rw [values] at inside
        rcases List.mem_append.mp inside with kept | new
        next => exact writable held listed field single kept
        next => exact spellable.1 single new
  intro row inside
  by_cases held : Held env.unicode value negated (parse env today input).senses
  case pos =>
    rw [flipped_held env.unicode value negated _ held] at inside
    exact left negated row inside
  case neg =>
    obtain ⟨slot, among, shape⟩ := List.mem_filterMap.mp inside
    rcases flipped_into env.unicode value negated _ held with ⟨index, clause, put, written⟩ | written
    next =>
      rw [written] at among
      rcases List.mem_or_eq_of_mem_set among with kept | rfl
      next => exact left (!negated) row (List.mem_filterMap.mpr ⟨slot, kept, shape⟩)
      next =>
        cases shape
        exact .inr ⟨clause, rfl, own clause put.source put.sign⟩
    next =>
      rw [written] at among
      rcases List.mem_append.mp among with kept | new
      next => exact left (!negated) row (List.mem_filterMap.mpr ⟨slot, kept, shape⟩)
      next =>
        obtain rfl := List.mem_singleton.mp new
        cases shape
        exact .inr ⟨_, rfl, spellable, .inr rfl⟩

theorem flip_senses (lawful : env.unicode.Lawful) (input : Text) (writable : Writable env today value input)
    (spellable : Spellable env today { negated, filter := .single value }) :
    (parse env today (apply env today input (flipEdit negated (.single value)))).senses =
        reread env today ((flipped env.unicode value negated (parse env today input).senses).filterMap id) ∧
      ∀ row ∈ (flipped env.unicode value negated (parse env today input).senses).filterMap id,
        classify env today row.1 = some row.2 := by
  have own : ∀ row ∈ (flipped env.unicode value negated (parse env today input).senses).filterMap id,
      query.IsWord row.1 ∧ classify env today row.1 = some row.2 := by
    intro row inside
    rcases flipped_own env today value negated lawful input writable spellable row inside with kept | ⟨clause, rfl, reads, -⟩
    next => exact senses_own env today input row kept
    next => exact spellable_word env today clause reads
  have written := written_flip env.unicode today (parse env today input) value negated
  refine ⟨?_, fun row inside => (own row inside).2⟩
  rw [apply_senses, written]
  next => rfl
  next =>
    intro word inside
    rw [written] at inside
    obtain ⟨row, among, rfl⟩ := List.mem_map.mp inside
    exact (own row among).1

theorem flip_again (lawful : env.unicode.Lawful) (input : Text) (writable : Writable env today value input)
    (spellable : Spellable env today { negated, filter := .single value })
    (whole : ∀ row ∈ (parse env today input).senses, leftOpen row = false)
    (also : leftOpen (spelled { negated, filter := .single value }) = false) :
    Flipped env.unicode value negated (parse env today input)
        (parse env today (apply env today input (flipEdit negated (.single value)))) ∧
      Writable env today value (apply env today input (flipEdit negated (.single value))) ∧
      ∀ row ∈ (parse env today (apply env today input (flipEdit negated (.single value)))).senses, leftOpen row = false := by
  obtain ⟨read, own⟩ := flip_senses env today value negated lawful input writable spellable
  have sources := flipped_own env today value negated lawful input writable spellable
  have closed : ∀ row ∈ (flipped env.unicode value negated (parse env today input).senses).filterMap id, leftOpen row = false := by
    intro row inside
    rcases sources row inside with kept | ⟨clause, rfl, reads, takesSet | rfl⟩
    next => exact whole row kept
    next =>
      have apart : clause.filter.field ≠ .header := fun same => by
        rw [same] at takesSet
        cases takesSet
      have ends := (spell_closed clause reads.1 apart).2
      simp [leftOpen, spelled, ends]
    next => exact also
  rw [reread_self env today _ own (fun row inside => closed row (List.dropLast_subset _ inside))] at read
  rw [read]
  refine ⟨flipped_law env.unicode value negated _ _ read, ?_, closed⟩
  intro clause inside field single among
  obtain ⟨token, place, kind⟩ := List.mem_filterMap.mp inside
  have row : (token.raw, token.kind) ∈ (parse env today (apply env today input (flipEdit negated (.single value)))).senses :=
    List.mem_map.mpr ⟨token, place, rfl⟩
  have shape : token.kind = .filter clause := by
    cases kinds : token.kind <;> rw [kinds] at kind <;> cases kind
    rfl
  rw [read] at row
  rcases sources _ row with kept | ⟨written, same, reads, -⟩
  next => exact writable clause (token_of_row env today input _ kept clause shape).1 field single among
  next =>
    have one : TokenKind.filter clause = .filter written := shape.symm.trans (congrArg Prod.snd same)
    cases one
    exact reads.1 single among

end

/-! ### Flipped twice -/

section

variable (unicode : Unicode) (value : Single)

variable (query : ParsedQuery)

theorem inForce_iff (sign : Bool) (single : Single) :
    query.InForce unicode sign single <-> ∃ pair ∈ query.values, isOne unicode single sign pair = true := by
  rw [ParsedQuery.InForce, ne_eq, carriers_nil]
  simp only [not_forall, Bool.not_eq_false, exists_prop]

theorem inForce_same (sign : Bool) (single : Single) (same : single.same unicode value = true) :
    query.InForce unicode sign single <-> query.InForce unicode sign value := by
  rw [inForce_iff, inForce_iff]
  have alike : isOne unicode single sign = isOne unicode value sign := by
    funext pair
    unfold isOne
    rw [same_left unicode single value pair.2 same]
  rw [alike]

theorem inForce_other (edited : ParsedQuery) (sign : Bool) (single : Single) (differs : single.same unicode value = false)
    (others : edited.values.filter (fun pair => !pair.2.same unicode value) =
      query.values.filter (fun pair => !pair.2.same unicode value)) :
    edited.InForce unicode sign single <-> query.InForce unicode sign single := by
  rw [inForce_iff, inForce_iff]
  -- A value that is the single is not the one flipped.
  have apart : ∀ pair : Bool × Single, isOne unicode single sign pair = true → pair.2.same unicode value = false := by
    intro pair one
    obtain ⟨-, same⟩ := Bool.and_eq_true_iff.mp one
    rw [Bool.eq_false_iff, ne_eq, same_iff]
    intro also
    rw [same_iff] at same
    rw [Bool.eq_false_iff, ne_eq, same_iff] at differs
    exact differs (same.symm.trans also)
  have within : ∀ first second : ParsedQuery,
      first.values.filter (fun pair => !pair.2.same unicode value) = second.values.filter (fun pair => !pair.2.same unicode value) →
      (∃ pair ∈ first.values, isOne unicode single sign pair = true) → ∃ pair ∈ second.values, isOne unicode single sign pair = true := by
    rintro first second same ⟨pair, inside, one⟩
    have kept : pair ∈ first.values.filter (fun pair => !pair.2.same unicode value) :=
      List.mem_filter.mpr ⟨inside, by rw [apart pair one]; rfl⟩
    rw [same] at kept
    exact ⟨pair, (List.mem_filter.mp kept).1, one⟩
  exact ⟨within edited query others, within query edited others.symm⟩

theorem flipped_away (negated : Bool) (query edited : ParsedQuery) (law : Flipped unicode value negated query edited)
    (away : query.carriers unicode (!negated) value = []) : edited.carriers unicode (!negated) value = [] := by
  by_cases carried : query.carriers unicode negated value = []
  case pos => exact (law.into carried).2
  case neg =>
    have signs := (law.out carried).2
    rw [carriers_nil] at away ⊢
    intro pair inside
    by_contra one
    have sign : pair.1 = !negated := of_decide_eq_true (Bool.and_eq_true_iff.mp (Bool.eq_true_of_not_eq_false one)).1
    have kept : pair ∈ edited.values.filter (fun pair => pair.1 ≠ negated) :=
      List.mem_filter.mpr ⟨inside, by rw [sign]; simp⟩
    rw [signs] at kept
    exact one (away pair (List.mem_filter.mp kept).1)

theorem flipped_twice (negated : Bool) (query once twice : ParsedQuery) (first : Flipped unicode value negated query once)
    (second : Flipped unicode value negated once twice) (away : query.carriers unicode (!negated) value = []) :
    ∀ sign single, twice.InForce unicode sign single <-> query.InForce unicode sign single := by
  intro sign single
  cases same : single.same unicode value with
  | false => exact inForce_other unicode value query twice sign single same (second.others.trans first.others)
  | true =>
    rw [inForce_same unicode value twice sign single same, inForce_same unicode value query sign single same]
    unfold ParsedQuery.InForce
    have still := flipped_away unicode value negated query once first away
    by_cases own : sign = negated
    case pos =>
      rw [own]
      by_cases carried : query.carriers unicode negated value = []
      case pos =>
        have one := (first.into carried).1
        have some_carrier : once.carriers unicode negated value ≠ [] := List.length_pos_iff.mp (by omega)
        simp [carried, (second.out some_carrier).1]
      case neg =>
        have one := (second.into (first.out carried).1).1
        have some_carrier : twice.carriers unicode negated value ≠ [] := List.length_pos_iff.mp (by omega)
        exact iff_of_true some_carrier carried
    case neg =>
      have turned : sign = !negated := by
        cases sign <;> cases negated <;> simp_all
      rw [turned]
      simp [away, flipped_away unicode value negated once twice second still]

end

/-- Toggle and Exclude obey one law: carried by a clause of the sign, a value is carried by none; else it is by one, and by none
of the other sign. All else stays, and a second flip puts back what is in force. -/
theorem flip_law (env : Env) (lawful : env.unicode.Lawful) (today : NaiveDate) (input : Text) (value : Single) (negated : Bool)
    (spellable : Spellable env today { negated, filter := .single value }) (writable : Writable env today value input) :
    let query := parse env today input
    let once := apply env today input (flipEdit negated (.single value))
    let rows := (flipped env.unicode value negated query.senses).filterMap id
    (parse env today once).senses = reread env today rows ∧
      ((∀ row ∈ rows.dropLast, leftOpen row = false) → Flipped env.unicode value negated query (parse env today once)) ∧
      ((∀ row ∈ query.senses, leftOpen row = false) → leftOpen (spelled { negated, filter := .single value }) = false →
        query.carriers env.unicode (!negated) value = [] → ∀ sign single,
        (parse env today (apply env today once (flipEdit negated (.single value)))).InForce env.unicode sign single <->
          query.InForce env.unicode sign single) := by
  obtain ⟨read, own⟩ := flip_senses env today value negated lawful input writable spellable
  refine ⟨read, fun closed => ?_, fun whole also away => ?_⟩
  next => exact flipped_law env.unicode value negated _ _ (read.trans (reread_self env today _ own closed))
  next =>
    obtain ⟨first, writable', whole'⟩ := flip_again env today value negated lawful input writable spellable whole also
    obtain ⟨second, -⟩ := flip_again env today value negated lawful _ writable' spellable whole' also
    exact flipped_twice env.unicode value negated _ _ _ first second away

theorem flip_law_ada :
    (∀ row ∈ (parse plainEnv someDay "from:bo atlas".toList).senses, leftOpen row = false) ∧
      Flipped plainEnv.unicode (.name .fromWho "ada".toList) false (parse plainEnv someDay "from:bo atlas".toList)
        (parse plainEnv someDay "from:{bo ada} atlas".toList) :=
  have spellable : Spellable plainEnv someDay { negated := false, filter := .single (.name .fromWho "ada".toList) } :=
    ⟨List.forall_mem_singleton.mpr (by decide : '"' ∉ "ada".toList), by decide +kernel⟩
  have writable : Writable plainEnv someDay (.name .fromWho "ada".toList) "from:bo atlas".toList := by
    have one : (parse plainEnv someDay "from:bo atlas".toList).filters =
        [{ negated := false, filter := .single (.name .fromWho "bo".toList) }] := by decide +kernel
    intro clause inside field single among
    rw [one] at inside
    obtain rfl := List.mem_singleton.mp inside
    obtain rfl := List.mem_singleton.mp among
    exact (by decide : '"' ∉ "bo".toList)
  have applied : apply plainEnv someDay "from:bo atlas".toList (flipEdit false (.single (.name .fromWho "ada".toList))) =
      "from:{bo ada} atlas".toList := by decide +kernel
  have law := flip_law plainEnv asciiTables_lawful someDay "from:bo atlas".toList (.name .fromWho "ada".toList) false spellable writable
  ⟨by decide +kernel, applied ▸ law.2.1 (by decide +kernel)⟩

/-- A value carried by clauses of both signs is taken out of those of one. -/
theorem flip_both_signs : ¬ ∀ (env : Env) (today : NaiveDate) (input : Text) (value : Single), env.unicode.Lawful →
    Spellable env today { negated := false, filter := .single value } → Writable env today value input →
    (parse env today input).carriers env.unicode false value ≠ [] →
    ∀ sign, (parse env today (apply env today input (.toggle (.single value)))).carriers env.unicode sign value = [] := by
  intro always
  have writable : Writable plainEnv someDay .hasAttachment "has:attachment -has:attachment".toList := by
    have two : (parse plainEnv someDay "has:attachment -has:attachment".toList).filters =
        [attached, { negated := true, filter := .single .hasAttachment }] := by decide +kernel
    intro clause inside field single among
    rw [two] at inside
    rcases List.mem_cons.mp inside with rfl | inside
    next =>
      obtain rfl := List.mem_singleton.mp among
      trivial
    next =>
      obtain rfl := List.mem_singleton.mp inside
      obtain rfl := List.mem_singleton.mp among
      trivial
  have gone := always plainEnv someDay "has:attachment -has:attachment".toList .hasAttachment asciiTables_lawful attached_spellable
    writable (by decide +kernel) true
  exact absurd gone (by decide +kernel)

end Postio.Search

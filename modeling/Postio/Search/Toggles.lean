import Postio.Search.EditFrames

set_option autoImplicit false

namespace Postio.Search

/-! What a toggle does to the values a query's clauses carry. -/

def TokenKind.values : TokenKind -> List (Bool × Single)
  | .filter clause => clause.filter.alternatives.map (fun single => (clause.negated, single))
  | _ => []

def TokenKind.term : TokenKind -> Option TextTerm
  | .text term => some term
  | _ => none

variable (slots : List (Option Sense))

def slotValues : List (Bool × Single) :=
  slots.flatMap (fun slot => (slot.map (fun row => row.2.values)).getD [])

def slotTerms : List TextTerm := slots.filterMap (fun slot => slot.bind (fun row => row.2.term))

theorem slotValues_rows :
    slotValues slots = (slots.filterMap id).flatMap (fun row => row.2.values) := by
  induction slots with
  | nil => rfl
  | cons slot slots ih =>
    unfold slotValues at ih ⊢
    rw [List.flatMap_cons, ih]
    cases slot <;> rfl

theorem slotTerms_rows :
    slotTerms slots = (slots.filterMap id).filterMap (fun row => row.2.term) := by
  unfold slotTerms
  rw [List.filterMap_filterMap]
  rfl

/-! ### Members taken out -/

theorem ofMembers_none (members : List Single) (field : Field) (takesSet : members.length ≤ 1 ∨ field.takesSet = true)
    (uniform : ∀ member ∈ members, member.field = field) (nothing : Filter.ofMembers members = none) : members = [] := by
  match members, takesSet, uniform, nothing with
  | [], _, _, _ => rfl
  | [_], _, _, nothing => cases nothing
  | first :: second :: rest, takesSet, uniform, nothing =>
    unfold Filter.ofMembers at nothing
    have same := uniform first List.mem_cons_self
    have takes : field.takesSet = true := by
      rcases takesSet with short | takes
      next => simp at short
      next => exact takes
    simp only at nothing
    rw [dif_pos ⟨by rw [same]; exact takes, fun member inside => (uniform member inside).trans same.symm⟩] at nothing
    cases nothing

theorem alternatives_field (filter : Filter) : (filter.alternatives.length ≤ 1 ∨ filter.field.takesSet = true) ∧
    ∀ member ∈ filter.alternatives, member.field = filter.field := by
  cases filter with
  | single value =>
    refine ⟨.inl (Nat.le_refl _), fun member inside => ?_⟩
    obtain rfl := List.mem_singleton.mp inside
    rfl
  | anyOf found => exact ⟨.inr found.takesSet, found.uniform⟩

theorem ofMembers_kept (filter : Filter) (keep : Single -> Bool) :
    ((Filter.ofMembers (filter.alternatives.filter keep)).map Filter.alternatives).getD [] = filter.alternatives.filter keep := by
  cases made : Filter.ofMembers (filter.alternatives.filter keep) with
  | some rest => exact ofMembers_alternatives _ rest made
  | none =>
    obtain ⟨takesSet, uniform⟩ := alternatives_field filter
    refine (ofMembers_none _ filter.field ?_ (fun member inside => uniform member (List.mem_filter.mp inside).1) made).symm
    exact takesSet.imp (Nat.le_trans (List.length_filter_le _ _)) id

section

variable (unicode : Unicode) (value : Single)

variable (negated : Bool) (row : Sense) (rows : List Sense)

def isOne (pair : Bool × Single) : Bool := pair.1 = negated && pair.2.same unicode value

theorem holder_some (kind : TokenKind) (clause : Clause)
    (held : holder unicode negated (.single value) kind = some clause) :
    kind = .filter clause ∧ clause.negated = negated ∧ ∃ single ∈ clause.filter.alternatives, single.same unicode value = true := by
  unfold holder at held
  split at held
  next found =>
    split at held
    next fits =>
      cases held
      obtain ⟨sign, holds⟩ := Bool.and_eq_true_iff.mp fits
      obtain ⟨single, inside, same⟩ := List.any_eq_true.mp holds
      exact ⟨rfl, of_decide_eq_true sign, single, inside, same⟩
    next => cases held
  next => cases held

theorem holder_none (kind : TokenKind) (held : holder unicode negated (.single value) kind = none) :
    ∀ pair ∈ kind.values, isOne unicode value negated pair = false := by
  intro pair inside
  cases kind with
  | unfinished _ => cases inside
  | text _ => cases inside
  | filter clause =>
    obtain ⟨single, among, rfl⟩ := List.mem_map.mp inside
    by_contra taken
    obtain ⟨sign, same⟩ := Bool.and_eq_true_iff.mp (Bool.eq_true_of_not_eq_false taken)
    have holds : clause.filter.holds unicode (.single value) = true := List.any_eq_true.mpr ⟨single, among, same⟩
    unfold holder at held
    simp only [sign, holds, Bool.and_self, if_true] at held
    cases held

def taken : Option Sense :=
  match holder unicode negated (.single value) row.2 with
  | some clause => (without unicode clause (.single value)).map spelled
  | none => some row

theorem taken_some (clause : Clause) (held : holder unicode negated (.single value) row.2 = some clause) :
    taken unicode value negated row = (without unicode clause (.single value)).map spelled := by
  unfold taken
  rw [held]

theorem taken_none (held : holder unicode negated (.single value) row.2 = none) :
    taken unicode value negated row = some row := by
  unfold taken
  rw [held]

theorem takeOut_rows :
    takeOut unicode spelled (rows.map Prod.snd) rows negated (.single value) = rows.map (taken unicode value negated) := by
  unfold takeOut
  rw [List.zipWith_map_left, List.zipWith_self]
  rfl

theorem taken_values : ((taken unicode value negated row).map (fun row => row.2.values)).getD [] =
    row.2.values.filter (fun pair => !isOne unicode value negated pair) := by
  cases held : holder unicode negated (.single value) row.2 with
  | none =>
    rw [taken_none unicode value negated row held]
    refine (List.filter_eq_self.mpr fun pair inside => ?_).symm
    rw [holder_none unicode value negated row.2 held pair inside]
    rfl
  | some clause =>
    obtain ⟨kind, sign, -⟩ := holder_some unicode value negated row.2 clause held
    have kept := ofMembers_kept clause.filter (fun held => !Filter.same unicode (.single held) (.single value))
    have pairs : (TokenKind.filter clause).values.filter (fun pair => !isOne unicode value negated pair) =
        (clause.filter.alternatives.filter (fun held => !Filter.same unicode (.single held) (.single value))).map
          (fun single => (clause.negated, single)) := by
      unfold TokenKind.values
      rw [List.filter_map]
      congr 2
      funext single
      simp only [Function.comp_apply, isOne, sign, decide_true, Bool.true_and]
      rfl
    rw [taken_some unicode value negated row clause held, kind, pairs, ← kept]
    unfold without
    cases Filter.ofMembers (clause.filter.alternatives.filter (fun held => !Filter.same unicode (.single held) (.single value))) with
    | none => rfl
    | some rest => rfl

theorem taken_term : (taken unicode value negated row).bind (fun row => row.2.term) = row.2.term := by
  cases held : holder unicode negated (.single value) row.2 with
  | none => rw [taken_none unicode value negated row held, Option.bind_some]
  | some clause =>
    obtain ⟨kind, -⟩ := holder_some unicode value negated row.2 clause held
    rw [taken_some unicode value negated row clause held, kind]
    cases without unicode clause (.single value) <;> rfl

theorem takeOut_values : slotValues (rows.map (taken unicode value negated)) =
    (rows.flatMap (fun row => row.2.values)).filter (fun pair => !isOne unicode value negated pair) := by
  induction rows with
  | nil => rfl
  | cons row rows ih =>
    unfold slotValues at ih ⊢
    rw [List.map_cons, List.flatMap_cons, ih, List.flatMap_cons, List.filter_append, taken_values]

theorem takeOut_terms :
    slotTerms (rows.map (taken unicode value negated)) = rows.filterMap (fun row => row.2.term) := by
  unfold slotTerms
  rw [List.filterMap_map]
  exact List.filterMap_congr fun row _ => taken_term unicode value negated row

end

/-! ### A value put in -/

theorem slotValues_set (index : Nat) (old : Option Sense) (new : Sense) (pair : Bool × Single)
    (here : slots[index]? = some old) (more : new.2.values = (old.map (fun row => row.2.values)).getD [] ++ [pair]) :
    ∃ front back, slotValues slots = front ++ back ∧ slotValues (slots.set index (some new)) = front ++ pair :: back := by
  unfold slotValues
  induction slots generalizing index with
  | nil => cases here
  | cons slot slots ih =>
    cases index with
    | zero =>
      obtain rfl : slot = old := by simpa using here
      refine ⟨(slot.map (fun row => row.2.values)).getD [], _, List.flatMap_cons, ?_⟩
      rw [List.set_cons_zero, List.flatMap_cons, Option.map_some, Option.getD_some, more]
      simp
    | succ index =>
      obtain ⟨front, back, whole, put⟩ := ih index (by simpa using here)
      refine ⟨(slot.map (fun row => row.2.values)).getD [] ++ front, back, ?_, ?_⟩
      next => rw [List.flatMap_cons, whole, List.append_assoc]
      next => rw [List.set_cons_succ, List.flatMap_cons, put, List.append_assoc]

theorem slotTerms_set (index : Nat) (old : Option Sense) (new : Sense)
    (here : slots[index]? = some old) (silent : old.bind (fun row => row.2.term) = none) (also : new.2.term = none) :
    slotTerms (slots.set index (some new)) = slotTerms slots := by
  unfold slotTerms
  induction slots generalizing index with
  | nil => rfl
  | cons slot slots ih =>
    cases index with
    | zero =>
      obtain rfl : slot = old := by simpa using here
      rw [List.set_cons_zero, List.filterMap_cons, List.filterMap_cons, Option.bind_some, silent, also]
    | succ index => rw [List.set_cons_succ, List.filterMap_cons, List.filterMap_cons, ih index (by simpa using here)]

theorem lastIndex_some {A : Type} (fits : A -> Bool) (items : List A) (index : Nat) (found : lastIndex fits items = some index) :
    ∃ item, items[index]? = some item ∧ fits item = true := by
  obtain ⟨behind, first, rfl⟩ := Option.map_eq_some_iff.mp found
  obtain ⟨inside, holds, -⟩ := List.findIdx?_eq_some_iff_getElem.mp first
  rw [List.length_reverse] at inside
  rw [List.getElem_reverse] at holds
  exact ⟨_, List.getElem?_eq_getElem (by omega), holds⟩

section

variable (unicode : Unicode) (value : Single)

variable (negated : Bool) (rows : List Sense) (index : Nat)

def flipped : List (Option Sense) :=
  flip unicode spelled (rows.map Prod.snd) rows (.single value) negated

def Held : Prop :=
  ∃ pair ∈ rows.flatMap (fun row => row.2.values), isOne unicode value negated pair = true

theorem holder_held :
    (rows.map Prod.snd).any (fun kind => (holder unicode negated (.single value) kind).isSome) = true <->
      Held unicode value negated rows := by
  rw [List.any_map, List.any_eq_true]
  constructor
  next =>
    rintro ⟨row, inside, held⟩
    obtain ⟨clause, found⟩ := Option.isSome_iff_exists.mp held
    obtain ⟨kind, sign, single, among, same⟩ := holder_some unicode value negated row.2 clause found
    refine ⟨(clause.negated, single), List.mem_flatMap.mpr ⟨row, inside, ?_⟩, ?_⟩
    next =>
      rw [kind]
      exact List.mem_map_of_mem among
    next =>
      unfold isOne
      rw [same, sign]
      simp
  next =>
    rintro ⟨pair, inside, one⟩
    obtain ⟨row, among, within⟩ := List.mem_flatMap.mp inside
    refine ⟨row, among, ?_⟩
    cases held : holder unicode negated (.single value) row.2 with
    | some clause => simp [held]
    | none =>
      rw [holder_none unicode value negated row.2 held pair within] at one
      cases one

theorem flipped_held (held : Held unicode value negated rows) :
    flipped unicode value negated rows = rows.map (taken unicode value negated) := by
  unfold flipped flip
  rw [if_pos ((holder_held unicode value negated rows).mpr held), takeOut_rows]

def Source (clause : Clause) : Prop :=
  clause = { negated, filter := .single value } ∨
    ∃ row held, row ∈ rows ∧ row.2 = .filter held ∧ held.filter.field = value.field ∧
      clause.filter.alternatives = held.filter.alternatives ++ [value]

/-- A clause put into a token's place carries what stood there, and the value. -/
structure Put (negated : Bool) (rows : List Sense) (index : Nat) (clause : Clause) : Prop where
  sign : clause.negated = negated
  source : Source value negated rows clause
  there : ∃ old, (rows.map (taken unicode value (!negated)))[index]? = some old ∧ old.bind (fun row => row.2.term) = none ∧
    (TokenKind.filter clause).values = (old.map (fun row => row.2.values)).getD [] ++ [(negated, value)]

theorem joined_put (set : Filter) (found : joined (rows.map Prod.snd) negated (.single value) = some (index, set)) :
    Put unicode value negated rows index { negated, filter := set } := by
  unfold joined at found
  split at found
  next =>
    obtain ⟨pair, inside, made⟩ := List.exists_of_findSome?_eq_some found
    obtain ⟨other, more, same⟩ := Option.map_eq_some_iff.mp made
    obtain ⟨rfl, rfl⟩ := Prod.mk.inj same
    have place := List.mem_zipIdx_iff_getElem?.mp inside
    rw [List.getElem?_map] at place
    obtain ⟨row, here, kind⟩ := Option.map_eq_some_iff.mp place
    unfold extended at more
    split at more
    next held single shape wanted =>
      obtain rfl := Filter.single.inj wanted
      split at more
      next fits =>
        obtain ⟨sign, field⟩ := Bool.and_eq_true_iff.mp fits
        have listed := ofMembers_alternatives _ _ more
        have whole : row.2 = .filter held := kind.trans shape
        have away : holder unicode (!negated) (.single value) row.2 = none := by
          rw [whole]
          unfold holder
          simp [of_decide_eq_true sign]
        refine ⟨rfl, .inr ⟨row, held, List.mem_of_getElem? here, whole, of_decide_eq_true field, listed⟩, some row, ?_, ?_, ?_⟩
        next => rw [List.getElem?_map, here, Option.map_some, taken_none unicode value (!negated) row away]
        next => rw [Option.bind_some, whole]; rfl
        next =>
          rw [Option.map_some, Option.getD_some, whole]
          change List.map _ other.alternatives = List.map _ held.filter.alternatives ++ _
          rw [listed, List.map_append, of_decide_eq_true sign]
          rfl
      next => cases more
    next => cases more
  next => cases found

theorem emptied_put (found : emptied unicode (rows.map Prod.snd) (!negated) (.single value) = some index) :
    Put unicode value negated rows index { negated, filter := .single value } := by
  unfold emptied at found
  obtain ⟨inside, gone, -⟩ := List.findIdx?_eq_some_iff_getElem.mp found
  rw [List.length_map] at inside
  rw [List.getElem_map] at gone
  refine ⟨rfl, .inl rfl, none, ?_, rfl, rfl⟩
  rw [List.getElem?_map, List.getElem?_eq_getElem inside, Option.map_some]
  cases held : holder unicode (!negated) (.single value) rows[index].2 with
  | none =>
    simp only [held] at gone
    cases gone
  | some clause =>
    simp only [held] at gone
    rw [taken_some unicode value (!negated) _ clause held, Option.isNone_iff_eq_none.mp gone]
    rfl

theorem halfTyped_put (found : lastIndex (halfTyped { negated, filter := .single value }) (rows.map Prod.snd) = some index) :
    Put unicode value negated rows index { negated, filter := .single value } := by
  obtain ⟨kind, place, half⟩ := lastIndex_some _ _ index found
  rw [List.getElem?_map] at place
  obtain ⟨row, here, rfl⟩ := Option.map_eq_some_iff.mp place
  unfold halfTyped at half
  split at half
  next operator shape =>
    have away : holder unicode (!negated) (.single value) row.2 = none := by
      rw [shape]
      rfl
    refine ⟨rfl, .inl rfl, some row, ?_, ?_, ?_⟩
    next => rw [List.getElem?_map, here, Option.map_some, taken_none unicode value (!negated) row away]
    next => rw [Option.bind_some, shape]; rfl
    next => rw [Option.map_some, Option.getD_some, shape]; rfl
  next => cases half

theorem flipped_into (apart : ¬ Held unicode value negated rows) :
    (∃ index clause, Put unicode value negated rows index clause ∧
      flipped unicode value negated rows = (rows.map (taken unicode value (!negated))).set index (some (spelled clause))) ∨
    flipped unicode value negated rows =
      rows.map (taken unicode value (!negated)) ++ [some (spelled { negated, filter := .single value })] := by
  have none_here : ¬ (rows.map Prod.snd).any (fun kind => (holder unicode negated (.single value) kind).isSome) = true :=
    fun held => apart ((holder_held unicode value negated rows).mp held)
  have uncarried : ¬ (rows.map Prod.snd).any (carries unicode { negated, filter := .single value }) = true := by
    intro held
    obtain ⟨kind, inside, carried⟩ := List.any_eq_true.mp held
    refine none_here (List.any_eq_true.mpr ⟨kind, inside, ?_⟩)
    unfold carries at carried
    split at carried
    next clause =>
      obtain ⟨sign, all⟩ := Bool.and_eq_true_iff.mp carried
      have holds : clause.filter.holds unicode (.single value) = true := List.all_eq_true.mp all value List.mem_cons_self
      have same : clause.negated = negated := of_decide_eq_true sign
      simp [holder, same, holds]
    next => cases carried
  unfold flipped flip
  rw [if_neg none_here, takeOut_rows]
  simp only
  cases joins : joined (rows.map Prod.snd) negated (.single value) with
  | some found =>
    obtain ⟨index, set⟩ := found
    exact .inl ⟨index, _, joined_put unicode value negated rows index set joins, rfl⟩
  | none =>
    cases empties : emptied unicode (rows.map Prod.snd) (!negated) (.single value) with
    | some index => exact .inl ⟨index, _, emptied_put unicode value negated rows index empties, rfl⟩
    | none =>
      simp only
      unfold Search.add
      rw [if_neg uncarried]
      cases half : lastIndex (halfTyped { negated, filter := .single value }) (rows.map Prod.snd) with
      | some index => exact .inl ⟨index, _, halfTyped_put unicode value negated rows index half, rfl⟩
      | none => exact .inr rfl

theorem flipped_taken (held : Held unicode value negated rows) :
    slotValues (flipped unicode value negated rows) =
        (rows.flatMap (fun row => row.2.values)).filter (fun pair => !isOne unicode value negated pair) ∧
      slotTerms (flipped unicode value negated rows) = rows.filterMap (fun row => row.2.term) := by
  rw [flipped_held unicode value negated rows held]
  exact ⟨takeOut_values unicode value negated rows, takeOut_terms unicode value negated rows⟩

theorem flipped_put (apart : ¬ Held unicode value negated rows) :
    (∃ front back, (rows.flatMap (fun row => row.2.values)).filter (fun pair => !pair.2.same unicode value) = front ++ back ∧
        slotValues (flipped unicode value negated rows) = front ++ (negated, value) :: back) ∧
      slotTerms (flipped unicode value negated rows) = rows.filterMap (fun row => row.2.term) := by
  have rest : slotValues (rows.map (taken unicode value (!negated))) =
      (rows.flatMap (fun row => row.2.values)).filter (fun pair => !pair.2.same unicode value) := by
    rw [takeOut_values]
    refine List.filter_congr fun pair inside => ?_
    -- A value of the sign itself is not the one: none of them is.
    by_cases sign : pair.1 = negated
    case pos =>
      have other : isOne unicode value negated pair = false :=
        Bool.eq_false_iff.mpr fun one => apart ⟨pair, inside, one⟩
      have differs : pair.2.same unicode value = false := by simpa [isOne, sign] using other
      simp [isOne, differs]
    case neg =>
      have turned : pair.1 = !negated := by
        cases shape : pair.1 <;> cases negated <;> simp_all
      simp [isOne, turned]
  have terms := takeOut_terms unicode value (!negated) rows
  rcases flipped_into unicode value negated rows apart with ⟨index, clause, put, shape⟩ | shape
  next =>
    obtain ⟨old, here, silent, more⟩ := put.there
    rw [shape, ← rest, ← terms]
    exact ⟨slotValues_set _ index old (spelled clause) (negated, value) here more,
      slotTerms_set _ index old (spelled clause) here silent rfl⟩
  next =>
    rw [shape, ← rest, ← terms]
    constructor
    next =>
      refine ⟨slotValues (rows.map (taken unicode value (!negated))), [], by simp, ?_⟩
      unfold slotValues
      rw [List.flatMap_append]
      rfl
    next =>
      unfold slotTerms
      rw [List.filterMap_append]
      simp [spelled, TokenKind.term]

end

end Postio.Search

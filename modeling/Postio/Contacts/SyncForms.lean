import Mathlib.Data.List.Nodup
import Mathlib.Tactic.Tauto
import Postio.Contacts.SyncPlan

set_option autoImplicit false

namespace Postio.ContactSync

/-! ### Loops that only add -/

namespace Findings

theorem add_assoc (first second third : Findings) : (first.add second).add third = first.add (second.add third) := by
  simp [add]

theorem add_nothing (found : Findings) : found.add nothing = found := by
  simp [add, nothing]

variable {Item : Type} (find : Item -> Findings) (items : List Item)

/-- What a loop finds, part by part. -/
def gathered : Findings where
  matches' := items.flatMap (fun item => (find item).matches')
  updates := items.flatMap (fun item => (find item).updates)
  conflicts := items.flatMap (fun item => (find item).conflicts)
  ambiguous := items.flatMap (fun item => (find item).ambiguous)
  gone := items.flatMap (fun item => (find item).gone)
  usedExternal := items.flatMap (fun item => (find item).usedExternal)
  settledLocal := items.flatMap (fun item => (find item).settledLocal)
  ambiguousExternals := items.flatMap (fun item => (find item).ambiguousExternals)

theorem gather_eq (start : Findings) : gather find items start = start.add (gathered find items) := by
  induction items generalizing start with
  | nil => exact (add_nothing start).symm
  | cons item rest ih =>
    have step : gather find (item :: rest) start = gather find rest (start.add (find item)) := rfl
    rw [step, ih, add_assoc]
    rfl

theorem gather_nothing : gather find items nothing = gathered find items := by
  rw [gather_eq]
  rfl

end Findings

/-! ### Records found by their ids -/

theorem find_local (records : List LocalRecord) (distinct : (records.map (fun record => record.id)).Nodup)
    (mine : LocalRecord) (there : mine ∈ records) :
    records.find? (fun record => record.id = mine.id) = some mine := by
  cases found : records.find? (fun record => record.id = mine.id) with
  | none =>
    have absent := List.find?_eq_none.mp found mine there
    simp at absent
  | some other =>
    have same : other.id = mine.id := by simpa using List.find?_some found
    rw [List.inj_on_of_nodup_map distinct (List.mem_of_find?_eq_some found) there same]

theorem find_external (records : List ExternalRecord) (distinct : (records.map (fun record => record.id)).Nodup)
    (theirs : ExternalRecord) (there : theirs ∈ records) :
    records.find? (fun record => record.id = theirs.id) = some theirs := by
  cases found : records.find? (fun record => record.id = theirs.id) with
  | none =>
    have absent := List.find?_eq_none.mp found theirs there
    simp at absent
  | some other =>
    have same : other.id = theirs.id := by simpa using List.find?_some found
    rw [List.inj_on_of_nodup_map distinct (List.mem_of_find?_eq_some found) there same]

section forms

variable (spelling : Spelling) (scope : Scope) (mode : Mode) (records : Records) (kept : List Link)

def planOf : SyncPlan := plan spelling scope mode records.locals records.externals kept

def Records.saved : List LocalRecord := records.locals.filter (inScope scope)

theorem saved_distinct : ((records.saved scope).map (fun record => record.id)).Nodup :=
  records.localIds.sublist (List.filter_sublist.map _)

/-- What a link says of the records as they are: nothing, that one is gone, or that two are to be compared. -/
inductive LinkCase (link : Link) : Findings -> Prop where
  | stray (absent : ∀ mine ∈ records.saved scope, mine.id ≠ link.localId) : LinkCase link .nothing
  | gone (mine : LocalRecord) (there : mine ∈ records.saved scope) (named : mine.id = link.localId)
      (absent : ∀ theirs ∈ records.externals, theirs.id ≠ link.external) :
      LinkCase link
        { Findings.nothing with
          gone := [{ localId := mine.id, label := mine.label, external := link.external }]
          settledLocal := [mine.id] }
  | pair (mine : LocalRecord) (theirs : ExternalRecord) (there : mine ∈ records.saved scope)
      (named : mine.id = link.localId) (among : theirs ∈ records.externals) (called : theirs.id = link.external) :
      LinkCase link
        { Findings.nothing with
          updates := compareUpdates mode mine theirs link.base
          conflicts := compareConflicts mine theirs link.base
          usedExternal := [theirs.id]
          settledLocal := [mine.id] }

variable (link : Link) (mine : LocalRecord) (theirs : ExternalRecord)

theorem linkFindings_cases :
    LinkCase scope mode records link (linkFindings scope mode records.locals records.externals link) := by
  unfold linkFindings
  split
  next absent =>
    refine .stray fun mine there same => ?_
    have missed := List.find?_eq_none.mp absent mine there
    simp [same] at missed
  next mine found =>
    have there := List.mem_of_find?_eq_some found
    have named : mine.id = link.localId := by simpa using List.find?_some found
    split
    next theirs other =>
      exact .pair mine theirs there named (List.mem_of_find?_eq_some other) (by simpa using List.find?_some other)
    next absent =>
      refine .gone mine there named fun theirs among same => ?_
      have missed := List.find?_eq_none.mp absent theirs among
      simp [same] at missed

theorem linkFindings_pair (there : mine ∈ records.saved scope) (named : mine.id = link.localId) (among : theirs ∈ records.externals)
    (called : theirs.id = link.external) :
    linkFindings scope mode records.locals records.externals link =
      { Findings.nothing with
        updates := compareUpdates mode mine theirs link.base
        conflicts := compareConflicts mine theirs link.base
        usedExternal := [theirs.id]
        settledLocal := [mine.id] } := by
  have first := find_local _ (saved_distinct scope records) mine there
  have second := find_external _ records.externalIds theirs among
  rw [named] at first
  rw [called] at second
  unfold linkFindings
  simp only [Records.saved] at first
  rw [first]
  dsimp only
  rw [second]

def Compared : Prop :=
  ∃ link ∈ kept, link.external = theirs.id ∧ ∃ mine ∈ records.saved scope, mine.id = link.localId

abbrev found₁ : Findings := linked scope mode records.locals records.externals kept

theorem settled_iff (id : Int) :
    id ∈ (found₁ scope mode records kept).settledLocal <->
      ∃ link ∈ kept, link.localId = id ∧ ∃ mine ∈ records.saved scope, mine.id = id := by
  unfold found₁ linked
  rw [Findings.gather_nothing]
  simp only [Findings.gathered, List.mem_flatMap]
  constructor
  · rintro ⟨link, there, settled⟩
    have said := linkFindings_cases scope mode records link
    generalize linkFindings scope mode records.locals records.externals link = findings at said settled
    revert settled
    cases said with
    | stray absent => exact fun settled => absurd settled List.not_mem_nil
    | gone mine held named absent =>
      intro settled
      have same : id = mine.id := List.mem_singleton.mp settled
      exact ⟨link, there, (same.trans named).symm, mine, held, same.symm⟩
    | pair mine theirs held named among called =>
      intro settled
      have same : id = mine.id := List.mem_singleton.mp settled
      exact ⟨link, there, (same.trans named).symm, mine, held, same.symm⟩
  · rintro ⟨link, there, rfl, mine, held, named⟩
    refine ⟨link, there, ?_⟩
    have said := linkFindings_cases scope mode records link
    generalize linkFindings scope mode records.locals records.externals link = findings at said ⊢
    cases said with
    | stray absent => exact absurd named (absent mine held)
    | gone other _ called _ => exact List.mem_singleton.mpr called.symm
    | pair other theirs _ called _ _ => exact List.mem_singleton.mpr called.symm

theorem used_iff (among : theirs ∈ records.externals) :
    theirs.id ∈ (found₁ scope mode records kept).usedExternal <-> Compared scope records kept theirs := by
  unfold found₁ linked
  rw [Findings.gather_nothing]
  simp only [Findings.gathered, List.mem_flatMap]
  constructor
  · rintro ⟨link, there, used⟩
    have said := linkFindings_cases scope mode records link
    generalize linkFindings scope mode records.locals records.externals link = findings at said used
    revert used
    cases said with
    | stray absent => exact fun used => absurd used List.not_mem_nil
    | gone mine held named absent => exact fun used => absurd used List.not_mem_nil
    | pair mine other held named _ called =>
      intro used
      have same : theirs.id = other.id := List.mem_singleton.mp used
      exact ⟨link, there, (same.trans called).symm, mine, held, named⟩
  · rintro ⟨link, there, called, mine, held, named⟩
    refine ⟨link, there, ?_⟩
    rw [linkFindings_pair scope mode records link mine theirs held named among called.symm]
    exact List.mem_singleton_self _

def locals₁ : List LocalRecord := freeLocals scope mode records.locals records.externals kept

def externals₁ : List ExternalRecord := freeExternals scope mode records.locals records.externals kept

theorem mem_locals₁ :
    mine ∈ locals₁ scope mode records kept <->
      mine ∈ records.saved scope ∧ ∀ link ∈ kept, link.localId ≠ mine.id := by
  have settled := settled_iff scope mode records kept mine.id
  unfold locals₁ freeLocals
  rw [List.mem_filter, Bool.not_eq_true', ← Bool.not_eq_true, List.contains_iff_mem]
  apply and_congr_right
  intro saved
  have free : mine.id ∉ (linked scope mode records.locals records.externals kept).settledLocal <->
      ¬ ∃ link ∈ kept, link.localId = mine.id ∧ ∃ other ∈ records.saved scope, other.id = mine.id :=
    not_congr settled
  rw [free]
  constructor
  · intro none_linked link there named
    exact none_linked ⟨link, there, named, mine, saved, rfl⟩
  · rintro apart ⟨link, there, named, -⟩
    exact apart link there named

theorem mem_externals₁ :
    theirs ∈ externals₁ scope mode records kept <->
      theirs ∈ records.externals ∧ ¬ Compared scope records kept theirs := by
  unfold externals₁ freeExternals
  rw [List.mem_filter, Bool.not_eq_true', ← Bool.not_eq_true, List.contains_iff_mem]
  apply and_congr_right
  intro among
  exact not_congr (used_iff scope mode records kept theirs among)

theorem locals₁_distinct : ((locals₁ scope mode records kept).map (fun record => record.id)).Nodup :=
  (saved_distinct scope records).sublist (List.filter_sublist.map _)

theorem externals₁_distinct : ((externals₁ scope mode records kept).map (fun record => record.id)).Nodup :=
  records.externalIds.sublist (List.filter_sublist.map _)

theorem locals₁_form :
    locals₁ scope mode records kept =
      records.locals.filter (fun mine => decide (inScope scope mine = true ∧ ∀ link ∈ kept, link.localId ≠ mine.id)) := by
  have free := mem_locals₁ scope mode records kept
  unfold locals₁ freeLocals at free ⊢
  simp only [Records.saved, List.filter_filter, List.mem_filter] at free ⊢
  apply List.filter_congr
  intro mine there
  have said := free mine
  rw [and_iff_right there, and_iff_right there] at said
  rw [Bool.eq_iff_iff, decide_eq_true_eq]
  exact said

open Classical in
theorem externals₁_form :
    externals₁ scope mode records kept = records.externals.filter (fun theirs => decide (¬ Compared scope records kept theirs)) := by
  unfold externals₁ freeExternals
  apply List.filter_congr
  intro theirs among
  rw [Bool.eq_iff_iff, decide_eq_true_eq, Bool.not_eq_true', ← Bool.not_eq_true, List.contains_iff_mem]
  exact not_congr (used_iff scope mode records kept theirs among)

/-! ### Candidates and rivals -/

def candidates₁ : List ExternalRecord :=
  candidates spelling (externals₁ scope mode records kept) mine

theorem candidates_subset (free : List ExternalRecord) (mine : LocalRecord) (theirs : ExternalRecord)
    (candidate : theirs ∈ candidates spelling free mine) : theirs ∈ free ∧ shares spelling mine theirs = true := by
  unfold candidates at candidate
  split at candidate
  next none_shared =>
    obtain ⟨among, shared⟩ := List.mem_filter.mp candidate
    exact ⟨among, by simp [shares, shared]⟩
  next =>
    obtain ⟨among, shared⟩ := List.mem_filter.mp candidate
    exact ⟨among, by simp [shares, shared]⟩

def Sole : Prop :=
  candidates₁ spelling scope mode records kept mine = [theirs] ∧
    rivals spelling (locals₁ scope mode records kept) theirs = 1

instance (mine : LocalRecord) (theirs : ExternalRecord) : Decidable (Sole spelling scope mode records kept mine theirs) :=
  instDecidableAnd

def Courted : Prop :=
  ∃ mine ∈ locals₁ scope mode records kept, theirs ∈ candidates₁ spelling scope mode records kept mine

inductive MatchCase (mine : LocalRecord) : Findings -> Prop where
  | unknown (none_like : candidates₁ spelling scope mode records kept mine = []) : MatchCase mine .nothing
  | sole (theirs : ExternalRecord) (sole : Sole spelling scope mode records kept mine theirs) :
      MatchCase mine
        { Findings.nothing with
          matches' := [{ localId := mine.id, external := theirs.id }]
          updates := compareUpdates mode mine theirs Fields.empty
          conflicts := compareConflicts mine theirs Fields.empty
          usedExternal := [theirs.id]
          settledLocal := [mine.id] }
  | asked (some_like : candidates₁ spelling scope mode records kept mine ≠ [])
      (unclear : ∀ theirs, ¬ Sole spelling scope mode records kept mine theirs) :
      MatchCase mine (question mine (candidates₁ spelling scope mode records kept mine))

def match₁ : Findings :=
  matchFindings spelling mode (locals₁ scope mode records kept) (externals₁ scope mode records kept) mine

theorem match₁_cases :
    MatchCase spelling scope mode records kept mine (match₁ spelling scope mode records kept mine) := by
  unfold match₁ matchFindings
  split
  next none_like => exact .unknown none_like
  next only alone =>
    split
    next unrivalled => exact .sole only ⟨alone, unrivalled⟩
    next rivalled =>
      have here : candidates₁ spelling scope mode records kept mine = [only] := alone
      rw [← here]
      refine .asked (by rw [here]; nofun) ?_
      rintro theirs ⟨other, unrivalled⟩
      rw [here] at other
      cases other
      exact rivalled unrivalled
  next many none_like several =>
    refine .asked none_like ?_
    rintro theirs ⟨alone, -⟩
    exact several theirs alone

theorem match₁_sole (sole : Sole spelling scope mode records kept mine theirs) :
    match₁ spelling scope mode records kept mine =
      { Findings.nothing with
        matches' := [{ localId := mine.id, external := theirs.id }]
        updates := compareUpdates mode mine theirs Fields.empty
        conflicts := compareConflicts mine theirs Fields.empty
        usedExternal := [theirs.id]
        settledLocal := [mine.id] } := by
  obtain ⟨alone, unrivalled⟩ := sole
  unfold match₁ matchFindings
  unfold candidates₁ at alone
  rw [alone]
  exact if_pos unrivalled

theorem shares_rival (other : LocalRecord) (theirs : ExternalRecord)
    (there : mine ∈ locals₁ scope mode records kept) (among : other ∈ locals₁ scope mode records kept)
    (first : shares spelling mine theirs = true) (second : shares spelling other theirs = true)
    (unrivalled : rivals spelling (locals₁ scope mode records kept) theirs = 1) : other = mine := by
  obtain ⟨only, same⟩ := List.length_eq_one_iff.mp unrivalled
  have held : mine ∈ (locals₁ scope mode records kept).filter (fun record => shares spelling record theirs) :=
    List.mem_filter.mpr ⟨there, first⟩
  have also : other ∈ (locals₁ scope mode records kept).filter (fun record => shares spelling record theirs) :=
    List.mem_filter.mpr ⟨among, second⟩
  rw [same] at held also
  rw [List.mem_singleton.mp held, List.mem_singleton.mp also]

theorem sole_unique (other : LocalRecord) (theirs : ExternalRecord)
    (there : mine ∈ locals₁ scope mode records kept) (among : other ∈ locals₁ scope mode records kept)
    (sole : Sole spelling scope mode records kept mine theirs)
    (candidate : theirs ∈ candidates₁ spelling scope mode records kept other) : other = mine := by
  -- The only candidate of a contact without rivals is no other contact's candidate.
  have held : theirs ∈ candidates₁ spelling scope mode records kept mine := by rw [sole.1]; exact List.mem_singleton_self _
  exact shares_rival spelling scope mode records kept mine other theirs there among
    (candidates_subset spelling _ mine theirs held).2 (candidates_subset spelling _ other theirs candidate).2 sole.2

/-! ### The plan, part by part -/

abbrev found₂ : Findings :=
  Findings.gather (matchFindings spelling mode (locals₁ scope mode records kept) (externals₁ scope mode records kept))
    (locals₁ scope mode records kept) (found₁ scope mode records kept)

theorem linkFindings_none : (linkFindings scope mode records.locals records.externals link).matches' = [] ∧
      (linkFindings scope mode records.locals records.externals link).ambiguous = [] ∧
      (linkFindings scope mode records.locals records.externals link).ambiguousExternals = [] := by
  have said := linkFindings_cases scope mode records link
  generalize linkFindings scope mode records.locals records.externals link = findings at said ⊢
  cases said <;> exact ⟨rfl, rfl, rfl⟩

theorem found₂_eq :
    found₂ spelling scope mode records kept =
      (Findings.gathered (linkFindings scope mode records.locals records.externals) kept).add
        (Findings.gathered (match₁ spelling scope mode records kept) (locals₁ scope mode records kept)) := by
  unfold found₂ found₁ linked
  rw [Findings.gather_eq, Findings.gather_nothing]
  rfl

theorem matches_eq :
    (planOf spelling scope mode records kept).matches' =
      (locals₁ scope mode records kept).flatMap (fun mine => (match₁ spelling scope mode records kept mine).matches') := by
  have none_linked : kept.flatMap
      (fun link => (linkFindings scope mode records.locals records.externals link).matches') = [] :=
    List.flatMap_eq_nil_iff.mpr fun link _ => (linkFindings_none scope mode records link).1
  have whole : (planOf spelling scope mode records kept).matches' = (found₂ spelling scope mode records kept).matches' := rfl
  rw [whole, found₂_eq]
  simp only [Findings.add, Findings.gathered, none_linked, List.nil_append]

theorem ambiguous_eq :
    (planOf spelling scope mode records kept).ambiguous =
      (locals₁ scope mode records kept).flatMap (fun mine => (match₁ spelling scope mode records kept mine).ambiguous) := by
  have none_linked : kept.flatMap
      (fun link => (linkFindings scope mode records.locals records.externals link).ambiguous) = [] :=
    List.flatMap_eq_nil_iff.mpr fun link _ => (linkFindings_none scope mode records link).2.1
  have whole : (planOf spelling scope mode records kept).ambiguous = (found₂ spelling scope mode records kept).ambiguous := rfl
  rw [whole, found₂_eq]
  simp only [Findings.add, Findings.gathered, none_linked, List.nil_append]

theorem updates_eq :
    (planOf spelling scope mode records kept).updates =
      kept.flatMap (fun link => (linkFindings scope mode records.locals records.externals link).updates) ++
        (locals₁ scope mode records kept).flatMap (fun mine => (match₁ spelling scope mode records kept mine).updates) := by
  have whole : (planOf spelling scope mode records kept).updates = (found₂ spelling scope mode records kept).updates := rfl
  rw [whole, found₂_eq]
  rfl

theorem mem_matches (found : Match) :
    found ∈ (planOf spelling scope mode records kept).matches' <->
      ∃ mine ∈ locals₁ scope mode records kept, ∃ theirs, Sole spelling scope mode records kept mine theirs ∧
        found = { localId := mine.id, external := theirs.id } := by
  rw [matches_eq, List.mem_flatMap]
  constructor
  · rintro ⟨mine, there, held⟩
    refine ⟨mine, there, ?_⟩
    have said := match₁_cases spelling scope mode records kept mine
    generalize match₁ spelling scope mode records kept mine = findings at said held
    revert held
    cases said with
    | unknown none_like => exact fun held => absurd held List.not_mem_nil
    | sole theirs sole => exact fun held => ⟨theirs, sole, List.mem_singleton.mp held⟩
    | asked some_like unclear => exact fun held => absurd held List.not_mem_nil
  · rintro ⟨mine, there, theirs, sole, rfl⟩
    refine ⟨mine, there, ?_⟩
    rw [match₁_sole spelling scope mode records kept mine theirs sole]
    exact List.mem_singleton_self _

def Unclear : Prop :=
  candidates₁ spelling scope mode records kept mine ≠ [] ∧ ∀ theirs, ¬ Sole spelling scope mode records kept mine theirs

theorem match₁_unclear (unclear : Unclear spelling scope mode records kept mine) :
    match₁ spelling scope mode records kept mine = question mine (candidates₁ spelling scope mode records kept mine) := by
  have said := match₁_cases spelling scope mode records kept mine
  generalize match₁ spelling scope mode records kept mine = findings at said ⊢
  cases said with
  | unknown none_like => exact absurd none_like unclear.1
  | sole theirs sole => exact absurd sole (unclear.2 theirs)
  | asked some_like other => rfl

theorem mem_ambiguous (asked : Ambiguous) :
    asked ∈ (planOf spelling scope mode records kept).ambiguous <->
      ∃ mine ∈ locals₁ scope mode records kept, Unclear spelling scope mode records kept mine ∧
        asked =
          { localId := mine.id
            label := mine.label
            candidates := (candidates₁ spelling scope mode records kept mine).map (fun record => record.label) } := by
  rw [ambiguous_eq, List.mem_flatMap]
  constructor
  · rintro ⟨mine, there, held⟩
    refine ⟨mine, there, ?_⟩
    have said := match₁_cases spelling scope mode records kept mine
    generalize match₁ spelling scope mode records kept mine = findings at said held
    revert held
    cases said with
    | unknown none_like => exact fun held => absurd held List.not_mem_nil
    | sole theirs sole => exact fun held => absurd held List.not_mem_nil
    | asked some_like unclear => exact fun held => ⟨⟨some_like, unclear⟩, List.mem_singleton.mp held⟩
  · rintro ⟨mine, there, unclear, rfl⟩
    refine ⟨mine, there, ?_⟩
    rw [match₁_unclear spelling scope mode records kept mine unclear]
    exact List.mem_singleton_self _

theorem courted_iff (among : theirs ∈ externals₁ scope mode records kept) :
    Courted spelling scope mode records kept theirs <->
      theirs.id ∈ (locals₁ scope mode records kept).flatMap
          (fun mine => (match₁ spelling scope mode records kept mine).usedExternal) ∨
        theirs.id ∈ (locals₁ scope mode records kept).flatMap
          (fun mine => (match₁ spelling scope mode records kept mine).ambiguousExternals) := by
  -- Every record that some contact could be is matched or asked about.
  have known (mine : LocalRecord) (other : ExternalRecord)
      (candidate : other ∈ candidates₁ spelling scope mode records kept mine) (same : other.id = theirs.id) :
      other = theirs :=
    List.inj_on_of_nodup_map (externals₁_distinct scope mode records kept)
      (candidates_subset spelling _ mine other candidate).1 among same
  constructor
  · rintro ⟨mine, there, candidate⟩
    by_cases unclear : Unclear spelling scope mode records kept mine
    · right
      refine List.mem_flatMap.mpr ⟨mine, there, ?_⟩
      rw [match₁_unclear spelling scope mode records kept mine unclear]
      exact List.mem_map_of_mem candidate
    · left
      have some_like : candidates₁ spelling scope mode records kept mine ≠ [] := List.ne_nil_of_mem candidate
      obtain ⟨only, sole⟩ := not_forall_not.mp (fun clear => unclear ⟨some_like, clear⟩)
      rw [sole.1] at candidate
      refine List.mem_flatMap.mpr ⟨mine, there, ?_⟩
      rw [match₁_sole spelling scope mode records kept mine only sole, List.mem_singleton.mp candidate]
      exact List.mem_singleton_self _
  · rintro (used | asked)
    · obtain ⟨mine, there, held⟩ := List.mem_flatMap.mp used
      refine ⟨mine, there, ?_⟩
      have said := match₁_cases spelling scope mode records kept mine
      generalize match₁ spelling scope mode records kept mine = findings at said held
      revert held
      cases said with
      | unknown none_like => exact fun held => absurd held List.not_mem_nil
      | sole other sole =>
        intro held
        have candidate : other ∈ candidates₁ spelling scope mode records kept mine := by
          rw [sole.1]
          exact List.mem_singleton_self _
        rw [← known mine other candidate (List.mem_singleton.mp held).symm]
        exact candidate
      | asked some_like unclear => exact fun held => absurd held List.not_mem_nil
    · obtain ⟨mine, there, held⟩ := List.mem_flatMap.mp asked
      refine ⟨mine, there, ?_⟩
      have said := match₁_cases spelling scope mode records kept mine
      generalize match₁ spelling scope mode records kept mine = findings at said held
      revert held
      cases said with
      | unknown none_like => exact fun held => absurd held List.not_mem_nil
      | sole other sole => exact fun held => absurd held List.not_mem_nil
      | asked some_like unclear =>
        intro held
        obtain ⟨other, candidate, same⟩ := List.mem_map.mp held
        rw [← known mine other candidate same]
        exact candidate

/-! ### What comes in -/

def eligible : List ExternalRecord :=
  -- The records that nothing else was found for and that can be kept.
  (externals₁ scope mode records kept).filter (fun theirs =>
    usable spelling scope theirs.fields &&
      !(locals₁ scope mode records kept).any (fun mine => (candidates₁ spelling scope mode records kept mine).contains theirs))

def lowerKeys : List Text := lowerAddresses spelling theirs.fields

def broughtIn : Import where
  external := theirs.id
  label := theirs.label
  kind := importKind spelling theirs.fields
  fields := theirs.fields

def comingIn : List ExternalRecord :=
  FirstFit.taken (lowerKeys spelling) [] (eligible spelling scope mode records kept)

theorem mem_eligible :
    theirs ∈ eligible spelling scope mode records kept <->
      theirs ∈ externals₁ scope mode records kept ∧ usable spelling scope theirs.fields = true ∧
        ¬ Courted spelling scope mode records kept theirs := by
  unfold eligible Courted
  rw [List.mem_filter, Bool.and_eq_true, Bool.not_eq_true', ← Bool.not_eq_true, List.any_eq_true]
  simp only [List.contains_iff_mem]

theorem eligible_nodup : (eligible spelling scope mode records kept).Nodup :=
  ((externals₁_distinct scope mode records kept).of_map _).filter _

theorem imports_fold (used : List Text) (externals : List ExternalRecord) (state : Imports) :
    (externals.foldl (importStep spelling scope used) state).imports =
        state.imports ++
          (FirstFit.taken (lowerKeys spelling) state.claimed
            (externals.filter (fun theirs => !used.contains theirs.id && usable spelling scope theirs.fields))).map
              (broughtIn spelling) ∧
      (externals.foldl (importStep spelling scope used) state).leftAlone +
          (FirstFit.taken (lowerKeys spelling) state.claimed
            (externals.filter (fun theirs => !used.contains theirs.id && usable spelling scope theirs.fields))).length =
        state.leftAlone + (externals.filter (fun theirs => !used.contains theirs.id)).length := by
  -- The loop over the other side's records: those it may bring in are taken in order, and the rest of those that
  -- nothing was found for are counted.
  induction externals generalizing state with
  | nil => simp [FirstFit.taken]
  | cons theirs rest ih =>
    rw [List.foldl_cons]
    by_cases found : used.contains theirs.id = true
    · have step : importStep spelling scope used state theirs = state := if_pos found
      rw [step, List.filter_cons_of_neg (by simp only [found, Bool.not_true, Bool.false_and, Bool.false_eq_true, not_false_iff]),
        List.filter_cons_of_neg (by simp only [found, Bool.not_true, Bool.false_eq_true, not_false_iff])]
      exact ih state
    · rw [Bool.not_eq_true] at found
      rw [List.filter_cons_of_pos (p := fun theirs : ExternalRecord => !used.contains theirs.id) (by simp only [found, Bool.not_false])]
      by_cases fit : usable spelling scope theirs.fields = true
      · rw [List.filter_cons_of_pos (by simp only [found, fit, Bool.not_false, Bool.true_and])]
        by_cases blocked : (lowerKeys spelling theirs).any (fun key => state.claimed.contains key) = true
        · have step : importStep spelling scope used state theirs = { state with leftAlone := state.leftAlone + 1 } := by
            unfold importStep
            rw [if_neg (by rw [found]; decide), if_pos]
            rw [fit]
            exact blocked
          obtain ⟨imports, alone⟩ := ih { state with leftAlone := state.leftAlone + 1 }
          have rest_of : FirstFit.taken (lowerKeys spelling) state.claimed
              (theirs :: rest.filter (fun theirs => !used.contains theirs.id && usable spelling scope theirs.fields)) =
              FirstFit.taken (lowerKeys spelling) state.claimed
                (rest.filter (fun theirs => !used.contains theirs.id && usable spelling scope theirs.fields)) := by
            rw [FirstFit.taken_cons, if_pos blocked]
          rw [step, rest_of]
          refine ⟨imports, ?_⟩
          rw [alone, List.length_cons]
          dsimp only
          omega
        · have step : importStep spelling scope used state theirs =
              { claimed := lowerKeys spelling theirs ++ state.claimed
                imports := state.imports ++ [broughtIn spelling theirs]
                leftAlone := state.leftAlone } := by
            unfold importStep
            rw [if_neg (by rw [found]; decide), if_neg]
            · rfl
            · rw [fit]
              exact blocked
          obtain ⟨imports, alone⟩ := ih
            { claimed := lowerKeys spelling theirs ++ state.claimed
              imports := state.imports ++ [broughtIn spelling theirs]
              leftAlone := state.leftAlone }
          have rest_of : FirstFit.taken (lowerKeys spelling) state.claimed
              (theirs :: rest.filter (fun theirs => !used.contains theirs.id && usable spelling scope theirs.fields)) =
              theirs :: FirstFit.taken (lowerKeys spelling) (lowerKeys spelling theirs ++ state.claimed)
                (rest.filter (fun theirs => !used.contains theirs.id && usable spelling scope theirs.fields)) := by
            rw [FirstFit.taken_cons, if_neg blocked]
          rw [step, rest_of]
          constructor
          · rw [imports, List.map_cons, List.append_assoc]
            rfl
          · rw [List.length_cons, List.length_cons]
            dsimp only at alone
            omega
      · have step : importStep spelling scope used state theirs = { state with leftAlone := state.leftAlone + 1 } := by
          unfold importStep
          rw [if_neg (by rw [found]; decide), if_pos]
          rw [Bool.not_eq_true] at fit
          rw [fit]
          rfl
        obtain ⟨imports, alone⟩ := ih { state with leftAlone := state.leftAlone + 1 }
        rw [step, List.filter_cons_of_neg (by rw [Bool.not_eq_true] at fit; simp only [fit, Bool.and_false, Bool.false_eq_true, not_false_iff])]
        refine ⟨imports, ?_⟩
        rw [alone, List.length_cons]
        dsimp only
        omega

theorem skipped_iff (among : theirs ∈ records.externals) : ((found₂ spelling scope mode records kept).usedExternal ++
        (found₂ spelling scope mode records kept).ambiguousExternals).contains theirs.id = true <->
      Compared scope records kept theirs ∨ Courted spelling scope mode records kept theirs := by
  have none_linked : kept.flatMap
      (fun link => (linkFindings scope mode records.locals records.externals link).ambiguousExternals) = [] :=
    List.flatMap_eq_nil_iff.mpr fun link _ => (linkFindings_none scope mode records link).2.2
  have linked_used := used_iff scope mode records kept theirs among
  unfold found₁ linked at linked_used
  rw [Findings.gather_nothing] at linked_used
  rw [List.contains_iff_mem, found₂_eq]
  simp only [Findings.add, none_linked, List.nil_append, List.mem_append, Findings.gathered] at linked_used ⊢
  by_cases compared : Compared scope records kept theirs
  · exact iff_of_true (.inl (.inl (linked_used.mpr compared))) (.inl compared)
  · have free : theirs ∈ externals₁ scope mode records kept := (mem_externals₁ scope mode records kept theirs).mpr ⟨among, compared⟩
    rw [courted_iff spelling scope mode records kept theirs free, or_assoc, linked_used]

theorem eligible_eq :
    records.externals.filter (fun theirs =>
        !((found₂ spelling scope mode records kept).usedExternal ++
          (found₂ spelling scope mode records kept).ambiguousExternals).contains theirs.id &&
          usable spelling scope theirs.fields) =
      eligible spelling scope mode records kept := by
  unfold eligible externals₁ freeExternals
  rw [List.filter_filter]
  apply List.filter_congr
  intro theirs among
  have skipped := skipped_iff spelling scope mode records kept theirs among
  have compared := used_iff scope mode records kept theirs among
  have courted : (locals₁ scope mode records kept).any
      (fun mine => (candidates₁ spelling scope mode records kept mine).contains theirs) = true <->
      Courted spelling scope mode records kept theirs := by
    simp only [List.any_eq_true, List.contains_iff_mem]
    rfl
  rw [Bool.eq_iff_iff]
  simp only [Bool.and_eq_true, Bool.not_eq_true', ← Bool.not_eq_true, skipped, courted, List.contains_iff_mem]
  have free : theirs.id ∉ (linked scope mode records.locals records.externals kept).usedExternal <->
      ¬ Compared scope records kept theirs := not_congr compared
  rw [free, not_or]
  tauto

theorem imports_eq :
    (planOf spelling scope mode records kept).imports = (comingIn spelling scope mode records kept).map (broughtIn spelling) := by
  have fold := (imports_fold spelling scope
    ((found₂ spelling scope mode records kept).usedExternal ++ (found₂ spelling scope mode records kept).ambiguousExternals)
    records.externals { claimed := [], imports := [], leftAlone := 0 }).1
  rw [eligible_eq] at fold
  exact fold

/-! ### Pairs, and what is found for no other record -/

def Paired (base : Fields) : Prop :=
  -- Two records that the plan compares, and the fields they last shared.
  mine ∈ records.saved scope ∧ theirs ∈ records.externals ∧
    ((∃ link ∈ kept, link.localId = mine.id ∧ link.external = theirs.id ∧ link.base = base) ∨
      mine ∈ locals₁ scope mode records kept ∧ Sole spelling scope mode records kept mine theirs ∧ base = Fields.empty)

theorem sole_candidate (sole : Sole spelling scope mode records kept mine theirs) :
    theirs ∈ candidates₁ spelling scope mode records kept mine := by
  rw [sole.1]
  exact List.mem_singleton_self _

theorem candidate_free (candidate : theirs ∈ candidates₁ spelling scope mode records kept mine) :
    theirs ∈ records.externals ∧ ¬ Compared scope records kept theirs :=
  (mem_externals₁ scope mode records kept theirs).mp (candidates_subset spelling _ mine theirs candidate).1

theorem mem_updates (update : Change) :
    update ∈ (planOf spelling scope mode records kept).updates <->
      ∃ mine theirs base, Paired spelling scope mode records kept mine theirs base ∧
        update ∈ compareUpdates mode mine theirs base := by
  rw [updates_eq, List.mem_append, List.mem_flatMap, List.mem_flatMap]
  constructor
  · rintro (⟨link, there, held⟩ | ⟨mine, there, held⟩)
    · have said := linkFindings_cases scope mode records link
      generalize linkFindings scope mode records.locals records.externals link = findings at said held
      revert held
      cases said with
      | stray absent => exact fun held => absurd held List.not_mem_nil
      | gone mine saved named absent => exact fun held => absurd held List.not_mem_nil
      | pair mine theirs saved named among called =>
        exact fun held => ⟨mine, theirs, link.base, ⟨saved, among, .inl ⟨link, there, named.symm, called.symm, rfl⟩⟩, held⟩
    · have said := match₁_cases spelling scope mode records kept mine
      generalize match₁ spelling scope mode records kept mine = findings at said held
      revert held
      cases said with
      | unknown none_like => exact fun held => absurd held List.not_mem_nil
      | asked some_like unclear => exact fun held => absurd held List.not_mem_nil
      | sole theirs sole =>
        intro held
        have free := candidate_free spelling scope mode records kept mine theirs (sole_candidate _ _ _ _ _ _ _ sole)
        have saved := ((mem_locals₁ scope mode records kept mine).mp there).1
        exact ⟨mine, theirs, Fields.empty, ⟨saved, free.1, .inr ⟨there, sole, rfl⟩⟩, held⟩
  · rintro ⟨mine, theirs, base, ⟨saved, among, ⟨link, there, named, called, rfl⟩ | ⟨free, sole, rfl⟩⟩, held⟩
    · refine .inl ⟨link, there, ?_⟩
      rw [linkFindings_pair scope mode records link mine theirs saved named.symm among called.symm]
      exact held
    · refine .inr ⟨mine, free, ?_⟩
      rw [match₁_sole spelling scope mode records kept mine theirs sole]
      exact held

theorem conflicts_eq :
    (planOf spelling scope mode records kept).conflicts =
      kept.flatMap (fun link => (linkFindings scope mode records.locals records.externals link).conflicts) ++
        (locals₁ scope mode records kept).flatMap (fun mine => (match₁ spelling scope mode records kept mine).conflicts) := by
  have whole : (planOf spelling scope mode records kept).conflicts = (found₂ spelling scope mode records kept).conflicts := rfl
  rw [whole, found₂_eq]
  rfl

theorem gone_eq :
    (planOf spelling scope mode records kept).gone =
      kept.flatMap (fun link => (linkFindings scope mode records.locals records.externals link).gone) := by
  have none_matched : (locals₁ scope mode records kept).flatMap
      (fun mine => (match₁ spelling scope mode records kept mine).gone) = [] := by
    refine List.flatMap_eq_nil_iff.mpr fun mine _ => ?_
    have said := match₁_cases spelling scope mode records kept mine
    generalize match₁ spelling scope mode records kept mine = findings at said ⊢
    cases said <;> rfl
  have whole : (planOf spelling scope mode records kept).gone = (found₂ spelling scope mode records kept).gone := rfl
  rw [whole, found₂_eq]
  simp only [Findings.add, Findings.gathered, none_matched, List.append_nil]

theorem creates_eq :
    (planOf spelling scope .twoWay records kept).creates =
      ((locals₁ scope .twoWay records kept).filter
        (fun mine => decide (candidates₁ spelling scope .twoWay records kept mine = []))).map
          (fun mine => { localId := mine.id, label := mine.label, fields := mine.fields }) := by
  -- A contact that syncs is created on the other side where it could be no record there.
  have whole : (planOf spelling scope .twoWay records kept).creates =
      ((locals₁ scope .twoWay records kept).filter
        (fun mine => !(found₂ spelling scope .twoWay records kept).settledLocal.contains mine.id)).map
          (fun mine => { localId := mine.id, label := mine.label, fields := mine.fields }) := rfl
  rw [whole]
  apply congrArg
  apply List.filter_congr
  intro mine there
  have unlinked := (mem_locals₁ scope .twoWay records kept mine).mp there
  have linked_settled := settled_iff scope .twoWay records kept mine.id
  unfold found₁ linked at linked_settled
  rw [Findings.gather_nothing] at linked_settled
  rw [Bool.eq_iff_iff, Bool.not_eq_true', ← Bool.not_eq_true, List.contains_iff_mem, decide_eq_true_eq, found₂_eq]
  simp only [Findings.add, List.mem_append, linked_settled]
  have matched_settled : mine.id ∈ (Findings.gathered (match₁ spelling scope .twoWay records kept)
      (locals₁ scope .twoWay records kept)).settledLocal <-> candidates₁ spelling scope .twoWay records kept mine ≠ [] := by
    simp only [Findings.gathered, List.mem_flatMap]
    constructor
    · rintro ⟨other, among, held⟩
      have said := match₁_cases spelling scope .twoWay records kept other
      generalize match₁ spelling scope .twoWay records kept other = findings at said held
      have known (same : mine.id = other.id) : mine = other :=
        List.inj_on_of_nodup_map (locals₁_distinct scope .twoWay records kept) there among same
      revert held
      cases said with
      | unknown none_like => exact fun held => absurd held List.not_mem_nil
      | sole theirs sole =>
        intro held
        rw [known (List.mem_singleton.mp held), sole.1]
        exact List.cons_ne_nil _ _
      | asked some_like unclear =>
        intro held
        rw [known (List.mem_singleton.mp held)]
        exact some_like
    · intro some_like
      refine ⟨mine, there, ?_⟩
      have said := match₁_cases spelling scope .twoWay records kept mine
      generalize match₁ spelling scope .twoWay records kept mine = findings at said ⊢
      cases said with
      | unknown none_like => exact absurd none_like some_like
      | sole theirs sole => exact List.mem_singleton_self _
      | asked _ _ => exact List.mem_singleton_self _
  rw [matched_settled, not_or, not_not]
  refine and_iff_right_of_imp fun _ => ?_
  rintro ⟨link, held, named, -⟩
  exact unlinked.2 link held named

end forms

end Postio.ContactSync

import Mathlib.Data.List.Perm.Basic
import Postio.Contacts.SyncForms

set_option autoImplicit false

namespace Postio.ContactSync

section duplicates

variable (spelling : Spelling) (scope : Scope) (mode : Mode) (records : Records) (kept : List Link)

inductive Place where
  | compared
  | matched
  | asked
  | imported
  | leftAlone
  deriving DecidableEq

variable (mine : LocalRecord) (theirs : ExternalRecord)

/-- What a plan does with a record of the other side. A question names its candidates by their labels, so it is the
question about a contact whose candidate the record is. -/
def FoundIn : Place -> Prop
  | .compared => Compared scope records kept theirs
  | .matched => ∃ found ∈ (planOf spelling scope mode records kept).matches', found.external = theirs.id
  | .asked => ∃ asked ∈ (planOf spelling scope mode records kept).ambiguous, ∃ mine ∈ locals₁ scope mode records kept,
      theirs ∈ candidates₁ spelling scope mode records kept mine ∧
        asked =
          { localId := mine.id
            label := mine.label
            candidates := (candidates₁ spelling scope mode records kept mine).map (fun record => record.label) }
  | .imported => ∃ brought ∈ (planOf spelling scope mode records kept).imports, brought.external = theirs.id
  | .leftAlone => False

def InPlace (place : Place) : Prop :=
  FoundIn spelling scope mode records kept theirs place ∨
    place = .leftAlone ∧ ∀ other, ¬ FoundIn spelling scope mode records kept theirs other

def BaseOf (base : Fields) : Prop :=
  (∃ link ∈ kept, link.localId = mine.id ∧ link.external = theirs.id ∧ link.base = base) ∨
    { localId := mine.id, external := theirs.id } ∈ (planOf spelling scope mode records kept).matches' ∧ base = Fields.empty

def written : Side -> Fields
  | .here => mine.fields
  | .there => theirs.fields

open Classical in
structure NeverDuplicates : Prop where
  once : ∀ theirs ∈ records.externals, ∃! place, InPlace spelling scope mode records kept theirs place
  counted : (planOf spelling scope mode records kept).leftAlone =
    (records.externals.filter (fun theirs => decide (InPlace spelling scope mode records kept theirs .leftAlone))).length
  matchedLocals : ((planOf spelling scope mode records kept).matches'.map (fun found => found.localId)).Nodup
  matchedExternals : ((planOf spelling scope mode records kept).matches'.map (fun found => found.external)).Nodup
  linkedLocals : ∀ link ∈ kept, ∀ found ∈ (planOf spelling scope mode records kept).matches',
    found.localId ≠ link.localId
  linkedExternals : ∀ link ∈ kept,
    (∀ found ∈ (planOf spelling scope mode records kept).matches', found.external ≠ link.external) ∧
      ∀ brought ∈ (planOf spelling scope mode records kept).imports, brought.external ≠ link.external
  newAddresses : ∀ brought ∈ (planOf spelling scope mode records kept).imports, ∀ mine ∈ records.saved scope,
    ∀ address ∈ brought.fields.emails, hasAddress mine.fields.emails address = false
  overwrites : ∀ update ∈ (planOf spelling scope mode records kept).updates, ∃ mine ∈ records.locals,
    ∃ theirs ∈ records.externals, ∃ base, BaseOf spelling scope mode records kept mine theirs base ∧
      update.localId = mine.id ∧ update.external = theirs.id ∧
        ∀ field, update.field = .text field -> (written mine theirs update.side).text field = base.text field

/-- Every record that a link names apart from its contact, or that a saved contact has an address of, is out of reach:
no contact's only candidate, and held back from coming in by one that comes in before it. -/
structure Unrepeated : Prop where
  strays : ∀ link ∈ kept, ∀ theirs ∈ externals₁ scope mode records kept, theirs.id = link.external ->
    ∀ mine ∈ locals₁ scope mode records kept, ¬ Sole spelling scope mode records kept mine theirs
  known : ∀ theirs ∈ eligible spelling scope mode records kept,
    (∃ link ∈ kept, link.external = theirs.id) ∨
      (∃ mine ∈ records.saved scope, sharesEmail mine.fields theirs.fields = true) ->
    FirstFit.HeldBack (lowerKeys spelling) (eligible spelling scope mode records kept) theirs

theorem imported_iff (among : theirs ∈ records.externals) :
    FoundIn spelling scope mode records kept theirs .imported <-> theirs ∈ comingIn spelling scope mode records kept := by
  unfold FoundIn
  rw [imports_eq]
  constructor
  · rintro ⟨brought, member, same⟩
    obtain ⟨other, coming, rfl⟩ := List.mem_map.mp member
    have free := (mem_eligible spelling scope mode records kept other).mp
      ((FirstFit.taken_sublist _ _ _).subset coming)
    have there := ((mem_externals₁ scope mode records kept other).mp free.1).1
    rw [← List.inj_on_of_nodup_map records.externalIds there among same]
    exact coming
  · intro coming
    exact ⟨broughtIn spelling theirs, List.mem_map_of_mem coming, rfl⟩

theorem matched_iff (among : theirs ∈ records.externals) :
    FoundIn spelling scope mode records kept theirs .matched <->
      ∃ mine ∈ locals₁ scope mode records kept, Sole spelling scope mode records kept mine theirs := by
  unfold FoundIn
  simp only [mem_matches]
  constructor
  · rintro ⟨found, ⟨mine, there, other, sole, rfl⟩, same⟩
    have candidate : other ∈ candidates₁ spelling scope mode records kept mine := by
      rw [sole.1]
      exact List.mem_singleton_self _
    have free := ((mem_externals₁ scope mode records kept other).mp (candidates_subset spelling _ mine other candidate).1).1
    rw [← List.inj_on_of_nodup_map records.externalIds free among same]
    exact ⟨mine, there, sole⟩
  · rintro ⟨mine, there, sole⟩
    exact ⟨_, ⟨mine, there, theirs, sole, rfl⟩, rfl⟩

theorem asked_iff :
    FoundIn spelling scope mode records kept theirs .asked <->
      ∃ mine ∈ locals₁ scope mode records kept, theirs ∈ candidates₁ spelling scope mode records kept mine ∧
        Unclear spelling scope mode records kept mine := by
  unfold FoundIn
  simp only [mem_ambiguous]
  constructor
  · rintro ⟨asked, ⟨mine, there, unclear, rfl⟩, other, among, candidate, same⟩
    have equal : mine = other :=
      List.inj_on_of_nodup_map (locals₁_distinct scope mode records kept) there among (congrArg Ambiguous.localId same)
    subst equal
    exact ⟨mine, there, candidate, unclear⟩
  · rintro ⟨mine, there, candidate, unclear⟩
    exact ⟨_, ⟨mine, there, unclear, rfl⟩, mine, there, candidate, rfl⟩

theorem courted_places (among : theirs ∈ records.externals) : (Courted spelling scope mode records kept theirs <->
        FoundIn spelling scope mode records kept theirs .matched ∨ FoundIn spelling scope mode records kept theirs .asked) ∧
      ¬ (FoundIn spelling scope mode records kept theirs .matched ∧
        FoundIn spelling scope mode records kept theirs .asked) := by
  -- A record that some contact could be is matched or asked about, and not both.
  rw [matched_iff spelling scope mode records kept theirs among, asked_iff]
  constructor
  · constructor
    · rintro ⟨mine, there, candidate⟩
      by_cases unclear : Unclear spelling scope mode records kept mine
      · exact .inr ⟨mine, there, candidate, unclear⟩
      · obtain ⟨only, sole⟩ := not_forall_not.mp (fun clear => unclear ⟨List.ne_nil_of_mem candidate, clear⟩)
        have same : theirs = only := by
          rw [sole.1] at candidate
          exact List.mem_singleton.mp candidate
        subst same
        exact .inl ⟨mine, there, sole⟩
    · rintro (⟨mine, there, sole⟩ | ⟨mine, there, candidate, -⟩)
      · exact ⟨mine, there, by rw [sole.1]; exact List.mem_singleton_self _⟩
      · exact ⟨mine, there, candidate⟩
  · rintro ⟨⟨mine, there, sole⟩, other, also, candidate, unclear⟩
    have same := sole_unique spelling scope mode records kept mine other theirs there also sole candidate
    subst same
    exact unclear.2 theirs sole

theorem places_once (among : theirs ∈ records.externals) :
    ∃! place, InPlace spelling scope mode records kept theirs place := by
  -- A record is in one place at most, and left alone in none.
  obtain ⟨courted, apart⟩ := courted_places spelling scope mode records kept theirs among
  have uncompared (place : FoundIn spelling scope mode records kept theirs .matched ∨
      FoundIn spelling scope mode records kept theirs .asked) : ¬ Compared scope records kept theirs := by
    obtain ⟨mine, there, candidate⟩ := courted.mpr place
    exact ((mem_externals₁ scope mode records kept theirs).mp (candidates_subset spelling _ mine theirs candidate).1).2
  have imported (place : FoundIn spelling scope mode records kept theirs .imported) :
      ¬ Compared scope records kept theirs ∧ ¬ Courted spelling scope mode records kept theirs := by
    have coming := (imported_iff spelling scope mode records kept theirs among).mp place
    obtain ⟨free, -, uncourted⟩ := (mem_eligible spelling scope mode records kept theirs).mp
      ((FirstFit.taken_sublist _ _ _).subset coming)
    exact ⟨((mem_externals₁ scope mode records kept theirs).mp free).2, uncourted⟩
  have single (first second : Place) (one : FoundIn spelling scope mode records kept theirs first)
      (two : FoundIn spelling scope mode records kept theirs second) : first = second := by
    cases first with
    | compared =>
      cases second with
      | compared => rfl
      | matched => exact absurd one (uncompared (.inl two))
      | asked => exact absurd one (uncompared (.inr two))
      | imported => exact absurd one (imported two).1
      | leftAlone => exact two.elim
    | matched =>
      cases second with
      | compared => exact absurd two (uncompared (.inl one))
      | matched => rfl
      | asked => exact absurd (And.intro one two) apart
      | imported => exact absurd (courted.mpr (.inl one)) (imported two).2
      | leftAlone => exact two.elim
    | asked =>
      cases second with
      | compared => exact absurd two (uncompared (.inr one))
      | matched => exact absurd (And.intro two one) apart
      | asked => rfl
      | imported => exact absurd (courted.mpr (.inr one)) (imported two).2
      | leftAlone => exact two.elim
    | imported =>
      cases second with
      | compared => exact absurd two (imported one).1
      | matched => exact absurd (courted.mpr (.inl two)) (imported one).2
      | asked => exact absurd (courted.mpr (.inr two)) (imported one).2
      | imported => rfl
      | leftAlone => exact two.elim
    | leftAlone => exact one.elim
  by_cases found : ∃ place, FoundIn spelling scope mode records kept theirs place
  · obtain ⟨place, held⟩ := found
    refine ⟨place, .inl held, ?_⟩
    rintro other (also | ⟨-, nowhere⟩)
    · exact single other place also held
    · exact absurd held (nowhere place)
  · have nowhere := not_exists.mp found
    refine ⟨.leftAlone, .inr ⟨rfl, nowhere⟩, ?_⟩
    rintro other (held | ⟨same, -⟩)
    · exact absurd held (nowhere other)
    · exact same

theorem nowhere_iff (among : theirs ∈ records.externals) :
    InPlace spelling scope mode records kept theirs .leftAlone <->
      ¬ (Compared scope records kept theirs ∨ Courted spelling scope mode records kept theirs) ∧
        theirs ∉ comingIn spelling scope mode records kept := by
  obtain ⟨courted, -⟩ := courted_places spelling scope mode records kept theirs among
  have imported := imported_iff spelling scope mode records kept theirs among
  unfold InPlace
  constructor
  · rintro (impossible | ⟨-, nowhere⟩)
    · exact impossible.elim
    · refine ⟨?_, fun coming => nowhere .imported (imported.mpr coming)⟩
      rintro (compared | some_like)
      · exact nowhere .compared compared
      · rcases courted.mp some_like with matched | asked
        · exact nowhere .matched matched
        · exact nowhere .asked asked
  · rintro ⟨unfound, staying⟩
    refine .inr ⟨rfl, fun other => ?_⟩
    cases other with
    | compared => exact fun compared => unfound (.inl compared)
    | matched => exact fun matched => unfound (.inr (courted.mpr (.inl matched)))
    | asked => exact fun asked => unfound (.inr (courted.mpr (.inr asked)))
    | imported => exact fun brought => staying (imported.mp brought)
    | leftAlone => exact id

open Classical in
theorem leftAlone_counted :
    (planOf spelling scope mode records kept).leftAlone =
      (records.externals.filter (fun theirs => decide (InPlace spelling scope mode records kept theirs .leftAlone))).length := by
  have fold := (imports_fold spelling scope
    ((found₂ spelling scope mode records kept).usedExternal ++ (found₂ spelling scope mode records kept).ambiguousExternals)
    records.externals { claimed := [], imports := [], leftAlone := 0 }).2
  rw [eligible_eq, Nat.zero_add] at fold
  have whole : (planOf spelling scope mode records kept).leftAlone + (comingIn spelling scope mode records kept).length =
      (records.externals.filter (fun theirs => !((found₂ spelling scope mode records kept).usedExternal ++
        (found₂ spelling scope mode records kept).ambiguousExternals).contains theirs.id)).length := fold
  -- Of the records that nothing was found for, those that come in and the others.
  have parts := List.length_eq_length_filter_add (l := records.externals.filter (fun theirs =>
      !((found₂ spelling scope mode records kept).usedExternal ++
        (found₂ spelling scope mode records kept).ambiguousExternals).contains theirs.id))
    (fun theirs => decide (theirs ∈ comingIn spelling scope mode records kept))
  have distinct : records.externals.Nodup := records.externalIds.of_map _
  have coming : ((records.externals.filter (fun theirs =>
      !((found₂ spelling scope mode records kept).usedExternal ++
        (found₂ spelling scope mode records kept).ambiguousExternals).contains theirs.id)).filter
      (fun theirs => decide (theirs ∈ comingIn spelling scope mode records kept))).length =
      (comingIn spelling scope mode records kept).length := by
    apply List.Perm.length_eq
    apply (List.perm_ext_iff_of_nodup ((distinct.filter _).filter _)
      ((eligible_nodup spelling scope mode records kept).sublist (FirstFit.taken_sublist _ _ _))).mpr
    intro theirs
    rw [List.mem_filter, decide_eq_true_eq]
    refine ⟨fun held => held.2, fun held => ⟨?_, held⟩⟩
    obtain ⟨free, -, uncourted⟩ := (mem_eligible spelling scope mode records kept theirs).mp
      ((FirstFit.taken_sublist _ _ _).subset held)
    obtain ⟨among, uncompared⟩ := (mem_externals₁ scope mode records kept theirs).mp free
    refine List.mem_filter.mpr ⟨among, ?_⟩
    rw [Bool.not_eq_true', ← Bool.not_eq_true, skipped_iff spelling scope mode records kept theirs among]
    exact not_or.mpr ⟨uncompared, uncourted⟩
  have others : ((records.externals.filter (fun theirs =>
      !((found₂ spelling scope mode records kept).usedExternal ++
        (found₂ spelling scope mode records kept).ambiguousExternals).contains theirs.id)).filter
      (fun theirs => !decide (theirs ∈ comingIn spelling scope mode records kept))) =
      records.externals.filter (fun theirs => decide (InPlace spelling scope mode records kept theirs .leftAlone)) := by
    rw [List.filter_filter]
    apply List.filter_congr
    intro theirs among
    rw [Bool.eq_iff_iff, Bool.and_eq_true, Bool.not_eq_true', ← Bool.not_eq_true, Bool.not_eq_true', ← Bool.not_eq_true,
      skipped_iff spelling scope mode records kept theirs among, decide_eq_true_eq, decide_eq_true_eq,
      nowhere_iff spelling scope mode records kept theirs among]
    exact and_comm
  rw [coming, others] at parts
  omega

theorem compareUpdates_kept (base : Fields) (update : Change)
    (member : update ∈ compareUpdates mode mine theirs base) :
    update.localId = mine.id ∧ update.external = theirs.id ∧
      ∀ field, update.field = .text field -> (written mine theirs update.side).text field = base.text field := by
  have sets (side : Side) (field : Field) (values : List Text) (other : ∀ text, field ≠ .text text)
      (held : update ∈ changeSet mine theirs side field values) :
      update.localId = mine.id ∧ update.external = theirs.id ∧
        ∀ text, update.field = .text text -> (written mine theirs update.side).text text = base.text text := by
    unfold changeSet at held
    split at held
    next => cases held
    next =>
      rw [List.mem_singleton.mp held]
      exact ⟨rfl, rfl, fun text same => absurd same (other text)⟩
  unfold compareUpdates at member
  simp only [List.mem_append] at member
  rcases member with (((texts | addressesHere) | addressesThere) | phonesHere) | phonesThere
  · obtain ⟨field, -, changed⟩ := List.mem_filterMap.mp texts
    unfold textChange at changed
    split at changed
    next => cases changed
    next =>
      split at changed
      next unchanged =>
        cases changed
        exact ⟨rfl, rfl, fun text same => by cases same; exact unchanged⟩
      next =>
        split at changed
        next unchanged =>
          split at changed
          next =>
            cases changed
            exact ⟨rfl, rfl, fun text same => by cases same; exact unchanged⟩
          next => cases changed
        next => cases changed
  · exact sets .here .addresses _ (fun _ => nofun) addressesHere
  · split at addressesThere
    next => exact sets .there .addresses _ (fun _ => nofun) addressesThere
    next => cases addressesThere
  · exact sets .here .phones _ (fun _ => nofun) phonesHere
  · split at phonesThere
    next => exact sets .there .phones _ (fun _ => nofun) phonesThere
    next => cases phonesThere

theorem update_overwrites (update : Change) (member : update ∈ (planOf spelling scope mode records kept).updates) :
    ∃ mine ∈ records.locals, ∃ theirs ∈ records.externals, ∃ base, BaseOf spelling scope mode records kept mine theirs base ∧
      update.localId = mine.id ∧ update.external = theirs.id ∧
        ∀ field, update.field = .text field -> (written mine theirs update.side).text field = base.text field := by
  obtain ⟨mine, theirs, base, ⟨saved, among, pair⟩, held⟩ := (mem_updates spelling scope mode records kept update).mp member
  refine ⟨mine, (List.mem_filter.mp saved).1, theirs, among, base, ?_, compareUpdates_kept mode mine theirs base update held⟩
  rcases pair with linked_pair | ⟨free, sole, rfl⟩
  · exact .inl linked_pair
  · exact .inr ⟨(mem_matches spelling scope mode records kept _).mpr ⟨mine, free, theirs, sole, rfl⟩, rfl⟩

theorem match₁_locals :
    ((match₁ spelling scope mode records kept mine).matches'.map (fun found => found.localId)).Sublist [mine.id] := by
  have said := match₁_cases spelling scope mode records kept mine
  generalize match₁ spelling scope mode records kept mine = findings at said ⊢
  cases said with
  | unknown none_like => exact List.nil_sublist _
  | sole theirs sole => exact List.Sublist.refl _
  | asked some_like unclear => exact List.nil_sublist _

theorem matchedLocals_nodup :
    ((planOf spelling scope mode records kept).matches'.map (fun found => found.localId)).Nodup := by
  have among (mines : List LocalRecord) :
      ((mines.flatMap (fun mine => (match₁ spelling scope mode records kept mine).matches')).map
        (fun found => found.localId)).Sublist (mines.map (fun mine => mine.id)) := by
    induction mines with
    | nil => exact List.Sublist.refl _
    | cons mine rest ih =>
      rw [List.flatMap_cons, List.map_append, List.map_cons]
      exact (match₁_locals spelling scope mode records kept mine).append ih
  rw [matches_eq]
  exact (locals₁_distinct scope mode records kept).sublist (among _)

theorem matchedExternals_nodup :
    ((planOf spelling scope mode records kept).matches'.map (fun found => found.external)).Nodup := by
  apply List.Nodup.map_on _ (matchedLocals_nodup spelling scope mode records kept).of_map
  intro first one second two same
  obtain ⟨mine, there, theirs, sole, rfl⟩ := (mem_matches spelling scope mode records kept first).mp one
  obtain ⟨other, also, again, sole', rfl⟩ := (mem_matches spelling scope mode records kept second).mp two
  have candidate : theirs ∈ candidates₁ spelling scope mode records kept mine := by
    rw [sole.1]
    exact List.mem_singleton_self _
  have candidate' : again ∈ candidates₁ spelling scope mode records kept other := by
    rw [sole'.1]
    exact List.mem_singleton_self _
  have equal : theirs = again :=
    List.inj_on_of_nodup_map (externals₁_distinct scope mode records kept) (candidates_subset spelling _ mine theirs candidate).1
      (candidates_subset spelling _ other again candidate').1 same
  subst equal
  rw [sole_unique spelling scope mode records kept mine other theirs there also sole candidate']

theorem linkedLocals_free (link : Link) (there : link ∈ kept) (found : Match)
    (member : found ∈ (planOf spelling scope mode records kept).matches') : found.localId ≠ link.localId := by
  obtain ⟨mine, free, theirs, -, rfl⟩ := (mem_matches spelling scope mode records kept found).mp member
  exact fun same => ((mem_locals₁ scope mode records kept mine).mp free).2 link there same.symm

theorem sharesEmail_iff (first second : Fields) :
    sharesEmail first second = true <-> ∃ address ∈ second.emails, hasAddress first.emails address = true := by
  simp only [sharesEmail, hasAddress, List.any_eq_true]
  constructor
  · rintro ⟨mine, held, theirs, also, same⟩
    exact ⟨theirs, also, mine, held, same⟩
  · rintro ⟨theirs, also, mine, held, same⟩
    exact ⟨mine, held, theirs, also, same⟩

theorem comingIn_iff (fit : theirs ∈ eligible spelling scope mode records kept) :
    theirs ∈ comingIn spelling scope mode records kept <->
      ¬ FirstFit.HeldBack (lowerKeys spelling) (eligible spelling scope mode records kept) theirs :=
  FirstFit.taken_iff (lowerKeys spelling) _ (eligible_nodup spelling scope mode records kept) theirs fit

theorem mem_imports (brought : Import) :
    brought ∈ (planOf spelling scope mode records kept).imports <->
      ∃ theirs ∈ comingIn spelling scope mode records kept, broughtIn spelling theirs = brought := by
  rw [imports_eq, List.mem_map]

/-- The plan duplicates no contact exactly where no record that comes in or is matched is known already. -/
theorem plan_never_duplicates_iff :
    NeverDuplicates spelling scope mode records kept <-> Unrepeated spelling scope mode records kept := by
  constructor
  · intro never
    constructor
    · intro link there theirs free named mine unlinked sole
      have matched : { localId := mine.id, external := theirs.id } ∈ (planOf spelling scope mode records kept).matches' :=
        (mem_matches spelling scope mode records kept _).mpr ⟨mine, unlinked, theirs, sole, rfl⟩
      exact (never.linkedExternals link there).1 _ matched named
    · intro theirs fit known
      by_contra first
      have brought : broughtIn spelling theirs ∈ (planOf spelling scope mode records kept).imports :=
        (mem_imports spelling scope mode records kept _).mpr
          ⟨theirs, (comingIn_iff spelling scope mode records kept theirs fit).mpr first, rfl⟩
      rcases known with ⟨link, there, named⟩ | ⟨mine, saved, shared⟩
      · exact (never.linkedExternals link there).2 _ brought named.symm
      · obtain ⟨address, held, has⟩ := (sharesEmail_iff _ _).mp shared
        have lacking := never.newAddresses _ brought mine saved address held
        rw [has] at lacking
        cases lacking
  · intro unrepeated
    have unknown (brought : Import) (member : brought ∈ (planOf spelling scope mode records kept).imports) :
        ∃ theirs, broughtIn spelling theirs = brought ∧ (∀ link ∈ kept, link.external ≠ theirs.id) ∧
          ∀ mine ∈ records.saved scope, sharesEmail mine.fields theirs.fields ≠ true := by
      obtain ⟨theirs, coming, same⟩ := (mem_imports spelling scope mode records kept brought).mp member
      have fit := (FirstFit.taken_sublist _ _ _).subset coming
      have first := (comingIn_iff spelling scope mode records kept theirs fit).mp coming
      refine ⟨theirs, same, ?_, ?_⟩
      · exact fun link there named => first (unrepeated.known theirs fit (.inl ⟨link, there, named⟩))
      · exact fun mine saved shared => first (unrepeated.known theirs fit (.inr ⟨mine, saved, shared⟩))
    exact
      { once := places_once spelling scope mode records kept
        counted := leftAlone_counted spelling scope mode records kept
        matchedLocals := matchedLocals_nodup spelling scope mode records kept
        matchedExternals := matchedExternals_nodup spelling scope mode records kept
        linkedLocals := linkedLocals_free spelling scope mode records kept
        linkedExternals := by
          intro link there
          constructor
          · intro found member named
            obtain ⟨mine, unlinked, theirs, sole, rfl⟩ := (mem_matches spelling scope mode records kept found).mp member
            have candidate : theirs ∈ candidates₁ spelling scope mode records kept mine := by
              rw [sole.1]
              exact List.mem_singleton_self _
            exact unrepeated.strays link there theirs (candidates_subset spelling _ mine theirs candidate).1 named mine
              unlinked sole
          · intro brought member named
            obtain ⟨theirs, rfl, unlinked, -⟩ := unknown brought member
            exact unlinked link there named.symm
        newAddresses := by
          intro brought member mine saved address held
          obtain ⟨theirs, rfl, -, unshared⟩ := unknown brought member
          rw [← Bool.not_eq_true]
          exact fun has => unshared mine saved ((sharesEmail_iff _ _).mpr ⟨address, held, has⟩)
        overwrites := update_overwrites spelling scope mode records kept }

end duplicates

/-! ### A linked contact's second record -/

def ada : Fields :=
  { Fields.empty with
    given := ['A', 'd', 'a']
    emails := [['a', '@', 'x']] }

/-- A contact saved here, its record there, and a second record there of the same address. -/
def twiceThere : Records where
  locals := [{ id := 1, label := ['A', 'd', 'a'], fields := ada, saved := true, kind := .person }]
  externals := [{ id := ['1'], label := ['A', 'd', 'a'], fields := ada }, { id := ['2'], label := ['A', 'd', 'a'], fields := ada }]
  localIds := by decide
  externalIds := by decide

def firstLinked : List Link := [{ localId := 1, external := ['1'], base := ada }]

/-- The second record comes in, as a second contact of an address that the first has. -/
theorem second_record_comes_in : ¬ NeverDuplicates asciiSpelling .people .twoWay twiceThere firstLinked := by
  intro never
  have brought : (planOf asciiSpelling .people .twoWay twiceThere firstLinked).imports =
      [{ external := ['2'], label := ['A', 'd', 'a'], kind := .person, fields := ada }] := by decide
  have lacking := never.newAddresses _ (brought ▸ List.mem_singleton_self _) _ (List.mem_singleton_self _) ['a', '@', 'x']
    (List.mem_singleton_self _)
  revert lacking
  decide

end Postio.ContactSync

import Mathlib.Data.List.Perm.Basic
import Postio.Contacts.SyncApplied

set_option autoImplicit false

namespace Postio.ContactSync

/-! ### The records and links after a plan -/

section converging

variable (spelling : Spelling) (scope : Scope) (records : Records) (kept : Links) (ids : NewIds records kept)

abbrev firstPlan : SyncPlan := planOf spelling scope .twoWay records kept.links

def savedHere (brought : Import) : LocalRecord where
  id := ids.here brought.external
  label := brought.label
  fields := brought.fields
  saved := true
  kind := brought.kind

def createdThere (created : Create) : ExternalRecord where
  id := ids.there created.localId
  label := created.label
  fields := created.fields

def localsAfter : List LocalRecord :=
  records.locals.map (LocalRecord.written (firstPlan spelling scope records kept).updates) ++
    (firstPlan spelling scope records kept).imports.map (savedHere records kept ids)

def externalsAfter : List ExternalRecord :=
  records.externals.map (ExternalRecord.written (firstPlan spelling scope records kept).updates) ++
    (firstPlan spelling scope records kept).creates.map (createdThere records kept ids)

def newLinks : List Link :=
  (firstPlan spelling scope records kept).matches'.map (fun found => linkTo found.localId found.external) ++
    (firstPlan spelling scope records kept).creates.map (fun created => linkTo created.localId (ids.there created.localId)) ++
    (firstPlan spelling scope records kept).imports.map (fun brought => linkTo (ids.here brought.external) brought.external)

def linksAfter : List Link :=
  (kept.links ++ newLinks spelling scope records kept ids).map
    (rebase (localsAfter spelling scope records kept ids) (externalsAfter spelling scope records kept ids))

theorem mem_creates (created : Create) :
    created ∈ (firstPlan spelling scope records kept).creates <->
      ∃ mine ∈ locals₁ scope .twoWay records kept.links, candidates₁ spelling scope .twoWay records kept.links mine = [] ∧
        created = { localId := mine.id, label := mine.label, fields := mine.fields } := by
  rw [creates_eq, List.mem_map]
  simp only [List.mem_filter, decide_eq_true_eq]
  constructor
  · rintro ⟨mine, ⟨there, unlike⟩, rfl⟩
    exact ⟨mine, there, unlike, rfl⟩
  · rintro ⟨mine, there, unlike, rfl⟩
    exact ⟨mine, ⟨there, unlike⟩, rfl⟩

theorem mem_brought (brought : Import) :
    brought ∈ (firstPlan spelling scope records kept).imports <->
      ∃ theirs ∈ comingIn spelling scope .twoWay records kept.links, broughtIn spelling theirs = brought := by
  rw [imports_eq, List.mem_map]

variable (link : Link) {Item : Type} (mine : LocalRecord) (theirs : ExternalRecord) (base : Fields)

theorem coming_free (coming : theirs ∈ comingIn spelling scope .twoWay records kept.links) :
    theirs ∈ externals₁ scope .twoWay records kept.links ∧ usable spelling scope theirs.fields = true ∧
      ¬ Courted spelling scope .twoWay records kept.links theirs :=
  (mem_eligible spelling scope .twoWay records kept.links theirs).mp ((FirstFit.taken_sublist _ _ _).subset coming)

theorem coming_among (coming : theirs ∈ comingIn spelling scope .twoWay records kept.links) :
    theirs ∈ records.externals :=
  ((mem_externals₁ scope .twoWay records kept.links theirs).mp (coming_free spelling scope records kept theirs coming).1).1

theorem free_among (free : mine ∈ locals₁ scope .twoWay records kept.links) : mine ∈ records.locals :=
  (List.mem_filter.mp ((mem_locals₁ scope .twoWay records kept.links mine).mp free).1).1

theorem localsAfter_distinct : ((localsAfter spelling scope records kept ids).map (fun record => record.id)).Nodup := by
  unfold localsAfter
  rw [List.map_append, List.map_map, List.map_map]
  refine List.Nodup.append records.localIds ?_ ?_
  · rw [imports_eq, List.map_map]
    refine List.Nodup.map_on ?_ ((eligible_nodup spelling scope .twoWay records kept.links).sublist (FirstFit.taken_sublist _ _ _))
    intro first one second two same
    exact List.inj_on_of_nodup_map ids.hereApart (coming_among spelling scope records kept first one)
      (coming_among spelling scope records kept second two) same
  · intro id old new
    obtain ⟨mine, there, rfl⟩ := List.mem_map.mp old
    obtain ⟨brought, member, same⟩ := List.mem_map.mp new
    obtain ⟨theirs, coming, rfl⟩ := (mem_brought spelling scope records kept brought).mp member
    exact (ids.hereNew theirs (coming_among spelling scope records kept theirs coming)).1 mine there same.symm

theorem externalsAfter_distinct : ((externalsAfter spelling scope records kept ids).map (fun record => record.id)).Nodup := by
  unfold externalsAfter
  rw [List.map_append, List.map_map, List.map_map]
  refine List.Nodup.append records.externalIds ?_ ?_
  · rw [creates_eq, List.map_map]
    have among : ((locals₁ scope .twoWay records kept.links).filter
        (fun mine => decide (candidates₁ spelling scope .twoWay records kept.links mine = []))).Sublist records.locals := by
      rw [locals₁_form]
      exact List.filter_sublist.trans List.filter_sublist
    exact ids.thereApart.sublist (among.map _)
  · intro id old new
    obtain ⟨theirs, there, rfl⟩ := List.mem_map.mp old
    obtain ⟨created, member, same⟩ := List.mem_map.mp new
    obtain ⟨mine, free, -, rfl⟩ := (mem_creates spelling scope records kept created).mp member
    exact (ids.thereNew mine (free_among scope records kept mine free)).1 theirs there same.symm

def recordsAfter : Records where
  locals := localsAfter spelling scope records kept ids
  externals := externalsAfter spelling scope records kept ids
  localIds := localsAfter_distinct spelling scope records kept ids
  externalIds := externalsAfter_distinct spelling scope records kept ids

abbrev nextPlan : SyncPlan :=
  planOf spelling scope .twoWay (recordsAfter spelling scope records kept ids) (linksAfter spelling scope records kept ids)

/-- Planning again finds nothing to do, and asks what was asked. -/
structure Converges (first next : SyncPlan) : Prop where
  matches' : next.matches' = []
  creates : next.creates = []
  imports : next.imports = []
  updates : next.updates = []
  conflicts : next.conflicts = first.conflicts
  ambiguous : next.ambiguous = first.ambiguous
  gone : next.gone = first.gone

/-- Nothing of a plan waits for the rest of it: where contacts are asked about one record, they are still two when the
others are matched, and no two records that could come in have an address in common. -/
structure AtOnce : Prop where
  shared : ∀ mine ∈ locals₁ scope .twoWay records kept.links, Unclear spelling scope .twoWay records kept.links mine ->
    ∀ theirs, candidates₁ spelling scope .twoWay records kept.links mine = [theirs] ->
      ∃ other ∈ locals₁ scope .twoWay records kept.links, other ≠ mine ∧
        Unclear spelling scope .twoWay records kept.links other ∧ shares spelling other theirs = true
  apart : (eligible spelling scope .twoWay records kept.links).Pairwise
    (fun first second => ¬ ∃ key ∈ lowerKeys spelling second, key ∈ lowerKeys spelling first)

/-! ### What is written in each pair -/

theorem paired_once (other : LocalRecord) (theirs another : ExternalRecord) (base base' : Fields)
    (pair : Paired spelling scope .twoWay records kept.links mine theirs base)
    (pair' : Paired spelling scope .twoWay records kept.links other another base')
    (shared : mine.id = other.id ∨ theirs.id = another.id) : mine = other ∧ theirs = another ∧ base = base' := by
  obtain ⟨saved, among, pair⟩ := pair
  obtain ⟨saved', among', pair'⟩ := pair'
  have same_mine : mine.id = other.id -> mine = other :=
    List.inj_on_of_nodup_map (saved_distinct scope records) saved saved'
  have same_theirs : theirs.id = another.id -> theirs = another :=
    List.inj_on_of_nodup_map records.externalIds among among'
  rcases pair with ⟨link, there, named, called, rfl⟩ | ⟨free, sole, rfl⟩
  · rcases pair' with ⟨link', there', named', called', rfl⟩ | ⟨free', sole', rfl⟩
    · have same : link = link' := by
        rcases shared with local_same | external_same
        · exact List.inj_on_of_nodup_map kept.locals there there' (named.trans (local_same.trans named'.symm))
        · exact List.inj_on_of_nodup_map kept.externals there there' (called.trans (external_same.trans called'.symm))
      subst same
      exact ⟨same_mine (named.symm.trans named'), same_theirs (called.symm.trans called'), rfl⟩
    · exfalso
      rcases shared with local_same | external_same
      · exact ((mem_locals₁ _ _ _ _ _).mp free').2 link there (named.trans local_same)
      · exact (candidate_free _ _ _ _ _ _ _ (sole_candidate _ _ _ _ _ _ _ sole')).2
          ⟨link, there, called.trans external_same, mine, saved, named.symm⟩
  · rcases pair' with ⟨link', there', named', called', rfl⟩ | ⟨free', sole', rfl⟩
    · exfalso
      rcases shared with local_same | external_same
      · exact ((mem_locals₁ _ _ _ _ _).mp free).2 link' there' (named'.trans local_same.symm)
      · exact (candidate_free _ _ _ _ _ _ _ (sole_candidate _ _ _ _ _ _ _ sole)).2
          ⟨link', there', called'.trans external_same.symm, other, saved', named'.symm⟩
    · rcases shared with local_same | external_same
      · have same := same_mine local_same
        subst same
        have alone := sole.1.symm.trans sole'.1
        exact ⟨rfl, List.cons.inj alone |>.1, rfl⟩
      · have same := same_theirs external_same
        subst same
        have held := sole_candidate spelling scope .twoWay records kept.links other theirs sole'
        exact ⟨(sole_unique spelling scope .twoWay records kept.links mine other theirs free free' sole held).symm, rfl, rfl⟩

abbrev writtenHere (mine : LocalRecord) : List Change :=
  (firstPlan spelling scope records kept).updates.filter (fun update => update.side = .here && update.localId = mine.id)

abbrev writtenThere (theirs : ExternalRecord) : List Change :=
  (firstPlan spelling scope records kept).updates.filter
    (fun update => update.side = .there && update.external = theirs.id)

theorem update_named (update : Change)
    (listed : update ∈ compareUpdates .twoWay mine theirs base) : update.localId = mine.id ∧ update.external = theirs.id := by
  rcases (mem_compareUpdates mine theirs base update).mp listed with ⟨field, changed⟩ | set | set | set | set
  · unfold textChange at changed
    split at changed
    next => cases changed
    next =>
      split at changed
      next => cases changed; exact ⟨rfl, rfl⟩
      next =>
        split at changed
        next => cases changed; exact ⟨rfl, rfl⟩
        next => cases changed
  all_goals
    rw [((mem_changeSet mine theirs _ _ _ update).mp set).2]
    exact ⟨rfl, rfl⟩

theorem pair_lands (pair : Paired spelling scope .twoWay records kept.links mine theirs base) :
    Lands mine theirs base .here (writtenHere spelling scope records kept mine) ∧
      Lands mine theirs base .there (writtenThere spelling scope records kept theirs) := by
  constructor
  · intro update
    simp only [List.mem_filter, Bool.and_eq_true, decide_eq_true_eq, mem_updates]
    constructor
    · rintro ⟨⟨other, another, base', pair', listed⟩, side, named⟩
      obtain ⟨rfl, rfl, rfl⟩ := paired_once spelling scope records kept mine other theirs another base base' pair pair'
        (.inl (named.symm.trans (update_named _ _ _ _ listed).1))
      exact ⟨side, listed⟩
    · rintro ⟨side, listed⟩
      exact ⟨⟨mine, theirs, base, pair, listed⟩, side, (update_named _ _ _ _ listed).1⟩
  · intro update
    simp only [List.mem_filter, Bool.and_eq_true, decide_eq_true_eq, mem_updates]
    constructor
    · rintro ⟨⟨other, another, base', pair', listed⟩, side, named⟩
      obtain ⟨rfl, rfl, rfl⟩ := paired_once spelling scope records kept mine other theirs another base base' pair pair'
        (.inr (named.symm.trans (update_named _ _ _ _ listed).2))
      exact ⟨side, listed⟩
    · rintro ⟨side, listed⟩
      exact ⟨⟨mine, theirs, base, pair, listed⟩, side, (update_named _ _ _ _ listed).2⟩

theorem unpaired_here (unpaired : ∀ other theirs base, Paired spelling scope .twoWay records kept.links other theirs base -> other.id ≠ mine.id) :
    LocalRecord.written (firstPlan spelling scope records kept).updates mine = mine := by
  -- A contact in no pair is not written.
  have nothing : writtenHere spelling scope records kept mine = [] := by
    rw [List.eq_nil_iff_forall_not_mem]
    intro update held
    simp only [List.mem_filter, Bool.and_eq_true, decide_eq_true_eq, mem_updates] at held
    obtain ⟨⟨other, theirs, base, pair, listed⟩, -, named⟩ := held
    exact unpaired other theirs base pair ((update_named _ _ _ _ listed).1.symm.trans named)
  have whole : LocalRecord.written (firstPlan spelling scope records kept).updates mine =
      { mine with fields := mine.fields.writeAll (writtenHere spelling scope records kept mine) } := rfl
  rw [whole, nothing]
  rfl

theorem unpaired_there (unpaired : ∀ mine other base, Paired spelling scope .twoWay records kept.links mine other base -> other.id ≠ theirs.id) :
    ExternalRecord.written (firstPlan spelling scope records kept).updates theirs = theirs := by
  have nothing : writtenThere spelling scope records kept theirs = [] := by
    rw [List.eq_nil_iff_forall_not_mem]
    intro update held
    simp only [List.mem_filter, Bool.and_eq_true, decide_eq_true_eq, mem_updates] at held
    obtain ⟨⟨mine, other, base, pair, listed⟩, -, named⟩ := held
    exact unpaired mine other base pair ((update_named _ _ _ _ listed).2.symm.trans named)
  have whole : ExternalRecord.written (firstPlan spelling scope records kept).updates theirs =
      { theirs with fields := theirs.fields.writeAll (writtenThere spelling scope records kept theirs) } := rfl
  rw [whole, nothing]
  rfl

/-! ### The links again -/

abbrev records₂ : Records := recordsAfter spelling scope records kept ids

abbrev rebased (link : Link) : Link :=
  rebase (localsAfter spelling scope records kept ids) (externalsAfter spelling scope records kept ids) link

abbrev again (link : Link) : Findings :=
  linkFindings scope .twoWay (records₂ spelling scope records kept ids).locals
    (records₂ spelling scope records kept ids).externals (rebased spelling scope records kept ids link)

theorem mem_saved₂ (record : LocalRecord) :
    record ∈ (records₂ spelling scope records kept ids).saved scope <->
      (∃ mine ∈ records.saved scope, LocalRecord.written (firstPlan spelling scope records kept).updates mine = record) ∨
        ∃ theirs ∈ comingIn spelling scope .twoWay records kept.links,
          savedHere records kept ids (broughtIn spelling theirs) = record := by
  have whole : (records₂ spelling scope records kept ids).saved scope =
      (localsAfter spelling scope records kept ids).filter (inScope scope) := rfl
  rw [whole, List.mem_filter]
  unfold localsAfter
  rw [List.mem_append, List.mem_map, List.mem_map]
  constructor
  · rintro ⟨⟨mine, there, rfl⟩ | ⟨brought, member, rfl⟩, within⟩
    · exact .inl ⟨mine, List.mem_filter.mpr ⟨there, within⟩, rfl⟩
    · obtain ⟨theirs, coming, rfl⟩ := (mem_brought spelling scope records kept brought).mp member
      exact .inr ⟨theirs, coming, rfl⟩
  · rintro (⟨mine, saved, rfl⟩ | ⟨theirs, coming, rfl⟩)
    · obtain ⟨there, within⟩ := List.mem_filter.mp saved
      exact ⟨.inl ⟨mine, there, rfl⟩, within⟩
    · refine ⟨.inr ⟨_, (mem_brought spelling scope records kept _).mpr ⟨theirs, coming, rfl⟩, rfl⟩, ?_⟩
      have fit := (coming_free spelling scope records kept theirs coming).2.1
      unfold usable at fit
      simp only [Bool.and_eq_true] at fit
      exact fit.2

theorem mem_externals₂ (record : ExternalRecord) :
    record ∈ (records₂ spelling scope records kept ids).externals <->
      (∃ theirs ∈ records.externals, ExternalRecord.written (firstPlan spelling scope records kept).updates theirs = record) ∨
        ∃ created ∈ (firstPlan spelling scope records kept).creates, createdThere records kept ids created = record := by
  have whole : (records₂ spelling scope records kept ids).externals = externalsAfter spelling scope records kept ids := rfl
  rw [whole]
  unfold externalsAfter
  rw [List.mem_append, List.mem_map, List.mem_map]

theorem rebased_names : (rebased spelling scope records kept ids link).localId = link.localId ∧
      (rebased spelling scope records kept ids link).external = link.external := by
  unfold rebased rebase
  split <;> exact ⟨rfl, rfl⟩

theorem rebased_base (saved : mine ∈ (records₂ spelling scope records kept ids).saved scope)
    (among : theirs ∈ (records₂ spelling scope records kept ids).externals)
    (named : mine.id = link.localId) (called : theirs.id = link.external) :
    (rebased spelling scope records kept ids link).base = agreed mine.fields theirs.fields link.base := by
  have first := find_local _ (localsAfter_distinct spelling scope records kept ids) mine (List.mem_filter.mp saved).1
  have second := find_external _ (externalsAfter_distinct spelling scope records kept ids) theirs among
  rw [named] at first
  rw [called] at second
  unfold rebased rebase
  rw [first, second]

theorem again_pair (saved : mine ∈ (records₂ spelling scope records kept ids).saved scope)
    (among : theirs ∈ (records₂ spelling scope records kept ids).externals)
    (named : mine.id = link.localId) (called : theirs.id = link.external) :
    again spelling scope records kept ids link =
      { Findings.nothing with
        updates := compareUpdates .twoWay mine theirs (agreed mine.fields theirs.fields link.base)
        conflicts := compareConflicts mine theirs (agreed mine.fields theirs.fields link.base)
        usedExternal := [theirs.id]
        settledLocal := [mine.id] } := by
  -- A link of two records there are, once it is rebased.
  obtain ⟨sameLocal, sameExternal⟩ := rebased_names spelling scope records kept ids link
  unfold again
  rw [linkFindings_pair scope .twoWay _ _ mine theirs saved (named.trans sameLocal.symm) among (called.trans sameExternal.symm),
    rebased_base spelling scope records kept ids link mine theirs saved among named called]

theorem again_settled (pair : Paired spelling scope .twoWay records kept.links mine theirs link.base)
    (named : mine.id = link.localId) (called : theirs.id = link.external) :
    again spelling scope records kept ids link =
      { Findings.nothing with
        conflicts := compareConflicts mine theirs link.base
        usedExternal := [theirs.id]
        settledLocal := [mine.id] } := by
  -- What a link finds of a pair the second time: nothing to write, and the conflicts of the first.
  obtain ⟨landsHere, landsThere⟩ := pair_lands spelling scope records kept mine theirs link.base pair
  have saved := (mem_saved₂ spelling scope records kept ids _).mpr (.inl ⟨mine, pair.1, rfl⟩)
  have among := (mem_externals₂ spelling scope records kept ids _).mpr (.inl ⟨theirs, pair.2.1, rfl⟩)
  have updates := updates_settled mine theirs link.base _ _ landsHere landsThere
  have conflicts := conflicts_settled mine theirs link.base _ _ landsHere landsThere
  rw [again_pair spelling scope records kept ids link _ _ saved among named called]
  simp only [LocalRecord.written, ExternalRecord.written, updates, conflicts]
  rfl

theorem compare_same (same : mine.fields = theirs.fields) :
    compareUpdates .twoWay mine theirs base = [] ∧ compareConflicts mine theirs base = [] := by
  have none_lacking : lackingHere theirs.fields theirs.fields = [] := by
    rw [List.eq_nil_iff_forall_not_mem]
    intro address lacking
    obtain ⟨held, absent⟩ := List.mem_filter.mp lacking
    have missing : ∀ kept ∈ theirs.fields.emails, eqIgnoreAsciiCase kept address ≠ true := by
      simpa [hasAddress] using absent
    exact missing address held (by simp [eqIgnoreAsciiCase])
  have none_new : newHere theirs.fields theirs.fields = [] := by
    rw [List.eq_nil_iff_forall_not_mem]
    intro phone new
    obtain ⟨held, lacking⟩ := List.mem_filter.mp new
    obtain ⟨key, keyed, absent⟩ : ∃ key, phoneKey phone = some key ∧ key ∉ phoneKeys theirs.fields := by
      simpa [Option.any_eq_true] using lacking
    exact absent (List.mem_filterMap.mpr ⟨phone, held, keyed⟩)
  constructor
  · rw [List.eq_nil_iff_forall_not_mem]
    intro update listed
    rw [mem_compareUpdates] at listed
    simp only [mem_changeSet, same, none_lacking, none_new, ne_eq, not_true, false_and, or_false] at listed
    obtain ⟨field, changed⟩ := listed
    unfold textChange at changed
    rw [if_pos (by rw [same])] at changed
    cases changed
  · refine List.filterMap_eq_nil_iff.mpr fun field _ => ?_
    unfold textConflict
    exact if_pos (by rw [same])

theorem again_same (saved : mine ∈ (records₂ spelling scope records kept ids).saved scope)
    (among : theirs ∈ (records₂ spelling scope records kept ids).externals)
    (named : mine.id = link.localId) (called : theirs.id = link.external) (same : mine.fields = theirs.fields) :
    again spelling scope records kept ids link =
      { Findings.nothing with
        usedExternal := [theirs.id]
        settledLocal := [mine.id] } := by
  -- A link of two records with the same fields.
  obtain ⟨updates, conflicts⟩ := compare_same mine theirs (agreed mine.fields theirs.fields link.base) same
  rw [again_pair spelling scope records kept ids link mine theirs saved among named called, updates, conflicts]
  rfl

theorem again_kept (there : link ∈ kept.links) : (again spelling scope records kept ids link).updates = [] ∧
      (again spelling scope records kept ids link).conflicts =
        (linkFindings scope .twoWay records.locals records.externals link).conflicts ∧
      (again spelling scope records kept ids link).gone =
        (linkFindings scope .twoWay records.locals records.externals link).gone := by
  -- A kept link finds the second time what it asked the first time, and nothing to write.
  obtain ⟨sameLocal, sameExternal⟩ := rebased_names spelling scope records kept ids link
  have said := linkFindings_cases scope .twoWay records link
  generalize linkFindings scope .twoWay records.locals records.externals link = findings at said ⊢
  cases said with
  | pair mine theirs saved named among called =>
    have pair : Paired spelling scope .twoWay records kept.links mine theirs link.base :=
      ⟨saved, among, .inl ⟨link, there, named.symm, called.symm, rfl⟩⟩
    rw [again_settled spelling scope records kept ids link mine theirs pair named called]
    exact ⟨rfl, rfl, rfl⟩
  | stray absent =>
    have after := linkFindings_cases scope .twoWay (records₂ spelling scope records kept ids)
      (rebased spelling scope records kept ids link)
    unfold again
    generalize linkFindings scope .twoWay _ _ (rebased spelling scope records kept ids link) = next at after ⊢
    have unnamed (record : LocalRecord) (saved : record ∈ (records₂ spelling scope records kept ids).saved scope) :
        record.id ≠ (rebased spelling scope records kept ids link).localId := by
      rw [sameLocal]
      rcases (mem_saved₂ spelling scope records kept ids record).mp saved with ⟨mine, held, rfl⟩ | ⟨theirs, coming, rfl⟩
      · exact absent mine held
      · exact fun same => (ids.hereNew theirs (coming_among spelling scope records kept theirs coming)).2 link there same.symm
    cases after with
    | stray _ => exact ⟨rfl, rfl, rfl⟩
    | gone record saved named _ => exact absurd named (unnamed record saved)
    | pair record _ saved named _ _ => exact absurd named (unnamed record saved)
  | gone mine saved named absent =>
    have after := linkFindings_cases scope .twoWay (records₂ spelling scope records kept ids)
      (rebased spelling scope records kept ids link)
    unfold again
    generalize linkFindings scope .twoWay _ _ (rebased spelling scope records kept ids link) = next at after ⊢
    have written := (mem_saved₂ spelling scope records kept ids _).mpr (.inl ⟨mine, saved, rfl⟩)
    cases after with
    | stray none_named => exact absurd (named.trans sameLocal.symm) (none_named (LocalRecord.written _ mine) written)
    | gone record saved' named' _ =>
      have same : record = LocalRecord.written (firstPlan spelling scope records kept).updates mine :=
        List.inj_on_of_nodup_map (saved_distinct scope _) saved' written (named'.trans (sameLocal.trans named.symm))
      rw [same, sameExternal]
      exact ⟨rfl, rfl, rfl⟩
    | pair record theirs _ _ among' called' =>
      exfalso
      rw [sameExternal] at called'
      rcases (mem_externals₂ spelling scope records kept ids theirs).mp among' with ⟨other, held, rfl⟩ | ⟨created, member, rfl⟩
      · exact absent other held called'
      · obtain ⟨free_mine, free, -, rfl⟩ := (mem_creates spelling scope records kept created).mp member
        exact (ids.thereNew free_mine (free_among scope records kept free_mine free)).2 link there called'.symm

theorem again_matched (free : mine ∈ locals₁ scope .twoWay records kept.links)
    (sole : Sole spelling scope .twoWay records kept.links mine theirs) :
    again spelling scope records kept ids (linkTo mine.id theirs.id) =
      { Findings.nothing with
        conflicts := compareConflicts mine theirs Fields.empty
        usedExternal := [theirs.id]
        settledLocal := [mine.id] } := by
  have saved := ((mem_locals₁ scope .twoWay records kept.links mine).mp free).1
  have among := (candidate_free _ _ _ _ _ mine theirs (sole_candidate _ _ _ _ _ _ _ sole)).1
  exact again_settled spelling scope records kept ids (linkTo mine.id theirs.id) mine theirs
    ⟨saved, among, .inr ⟨free, sole, rfl⟩⟩ rfl rfl

theorem unmatched_here (free : mine ∈ locals₁ scope .twoWay records kept.links)
    (unmatched : ∀ theirs, ¬ Sole spelling scope .twoWay records kept.links mine theirs) :
    LocalRecord.written (firstPlan spelling scope records kept).updates mine = mine := by
  -- A contact that is matched to nothing is written by nothing.
  have there := (mem_locals₁ scope .twoWay records kept.links mine).mp free
  apply unpaired_here
  rintro other theirs base ⟨saved, -, ⟨link, held, named, -⟩ | ⟨-, sole, -⟩⟩ same
  · exact there.2 link held (named.trans same)
  · rw [List.inj_on_of_nodup_map (saved_distinct scope records) saved there.1 same] at sole
    exact unmatched theirs sole

theorem unmatched_there (free : theirs ∈ externals₁ scope .twoWay records kept.links)
    (unmatched : ∀ mine ∈ locals₁ scope .twoWay records kept.links, ¬ Sole spelling scope .twoWay records kept.links mine theirs) :
    ExternalRecord.written (firstPlan spelling scope records kept).updates theirs = theirs := by
  have there := (mem_externals₁ scope .twoWay records kept.links theirs).mp free
  apply unpaired_there
  rintro mine other base ⟨saved, among, ⟨link, held, named, called, -⟩ | ⟨unlinked, sole, -⟩⟩ same
  · exact there.2 ⟨link, held, called.trans same, mine, saved, named.symm⟩
  · rw [List.inj_on_of_nodup_map records.externalIds among there.1 same] at sole
    exact unmatched mine unlinked sole

theorem again_created (free : mine ∈ locals₁ scope .twoWay records kept.links)
    (unlike : candidates₁ spelling scope .twoWay records kept.links mine = []) :
    again spelling scope records kept ids (linkTo mine.id (ids.there mine.id)) =
      { Findings.nothing with
        usedExternal := [ids.there mine.id]
        settledLocal := [mine.id] } := by
  have saved := ((mem_locals₁ scope .twoWay records kept.links mine).mp free).1
  have unwritten := unmatched_here spelling scope records kept mine free fun theirs sole => by
    have same := sole.1
    rw [unlike] at same
    cases same
  exact again_same spelling scope records kept ids (linkTo mine.id (ids.there mine.id)) mine
    (createdThere records kept ids { localId := mine.id, label := mine.label, fields := mine.fields })
    ((mem_saved₂ spelling scope records kept ids mine).mpr (.inl ⟨mine, saved, unwritten⟩))
    ((mem_externals₂ spelling scope records kept ids _).mpr
      (.inr ⟨_, (mem_creates spelling scope records kept _).mpr ⟨mine, free, unlike, rfl⟩, rfl⟩))
    rfl rfl rfl

theorem again_brought (coming : theirs ∈ comingIn spelling scope .twoWay records kept.links) :
    again spelling scope records kept ids (linkTo (ids.here theirs.id) theirs.id) =
      { Findings.nothing with
        usedExternal := [theirs.id]
        settledLocal := [ids.here theirs.id] } := by
  obtain ⟨free, -, uncourted⟩ := coming_free spelling scope records kept theirs coming
  have among := coming_among spelling scope records kept theirs coming
  have unwritten := unmatched_there spelling scope records kept theirs free fun mine unlinked sole =>
    uncourted ⟨mine, unlinked, sole_candidate _ _ _ _ _ _ _ sole⟩
  exact again_same spelling scope records kept ids (linkTo (ids.here theirs.id) theirs.id)
    (savedHere records kept ids (broughtIn spelling theirs)) theirs
    ((mem_saved₂ spelling scope records kept ids _).mpr (.inr ⟨theirs, coming, rfl⟩))
    ((mem_externals₂ spelling scope records kept ids theirs).mpr (.inl ⟨theirs, among, unwritten⟩))
    rfl rfl rfl

theorem mem_newLinks :
    link ∈ newLinks spelling scope records kept ids <->
      (∃ mine ∈ locals₁ scope .twoWay records kept.links, ∃ theirs,
          Sole spelling scope .twoWay records kept.links mine theirs ∧ link = linkTo mine.id theirs.id) ∨
        (∃ mine ∈ locals₁ scope .twoWay records kept.links, candidates₁ spelling scope .twoWay records kept.links mine = [] ∧
          link = linkTo mine.id (ids.there mine.id)) ∨
        ∃ theirs ∈ comingIn spelling scope .twoWay records kept.links, link = linkTo (ids.here theirs.id) theirs.id := by
  unfold newLinks
  simp only [List.mem_append, List.mem_map, mem_matches, mem_creates, mem_brought, or_assoc]
  constructor
  · rintro (⟨found, ⟨mine, free, theirs, sole, rfl⟩, rfl⟩ | ⟨created, ⟨mine, free, unlike, rfl⟩, rfl⟩ |
      ⟨brought, ⟨theirs, coming, rfl⟩, rfl⟩)
    · exact .inl ⟨mine, free, theirs, sole, rfl⟩
    · exact .inr (.inl ⟨mine, free, unlike, rfl⟩)
    · exact .inr (.inr ⟨theirs, coming, rfl⟩)
  · rintro (⟨mine, free, theirs, sole, rfl⟩ | ⟨mine, free, unlike, rfl⟩ | ⟨theirs, coming, rfl⟩)
    · exact .inl ⟨_, ⟨mine, free, theirs, sole, rfl⟩, rfl⟩
    · exact .inr (.inl ⟨_, ⟨mine, free, unlike, rfl⟩, rfl⟩)
    · exact .inr (.inr ⟨_, ⟨theirs, coming, rfl⟩, rfl⟩)

theorem again_new (new : link ∈ newLinks spelling scope records kept ids) :
    (again spelling scope records kept ids link).updates = [] ∧ (again spelling scope records kept ids link).gone = [] := by
  rcases (mem_newLinks spelling scope records kept ids link).mp new with
    ⟨mine, free, theirs, sole, rfl⟩ | ⟨mine, free, unlike, rfl⟩ | ⟨theirs, coming, rfl⟩
  · rw [again_matched spelling scope records kept ids mine theirs free sole]
    exact ⟨rfl, rfl⟩
  · rw [again_created spelling scope records kept ids mine free unlike]
    exact ⟨rfl, rfl⟩
  · rw [again_brought spelling scope records kept ids theirs coming]
    exact ⟨rfl, rfl⟩

theorem new_conflicts :
    (newLinks spelling scope records kept ids).flatMap (fun link => (again spelling scope records kept ids link).conflicts) =
      (locals₁ scope .twoWay records kept.links).flatMap
        (fun mine => (match₁ spelling scope .twoWay records kept.links mine).conflicts) := by
  -- The conflicts of the new links are those that their matches had.
  unfold newLinks
  have created : ((firstPlan spelling scope records kept).creates.map
      (fun created => linkTo created.localId (ids.there created.localId))).flatMap
        (fun link => (again spelling scope records kept ids link).conflicts) = [] := by
    refine List.flatMap_eq_nil_iff.mpr fun link there => ?_
    obtain ⟨created, member, rfl⟩ := List.mem_map.mp there
    obtain ⟨mine, free, unlike, rfl⟩ := (mem_creates spelling scope records kept created).mp member
    dsimp only
    rw [again_created spelling scope records kept ids mine free unlike]
    rfl
  have brought : ((firstPlan spelling scope records kept).imports.map
      (fun brought => linkTo (ids.here brought.external) brought.external)).flatMap
        (fun link => (again spelling scope records kept ids link).conflicts) = [] := by
    refine List.flatMap_eq_nil_iff.mpr fun link there => ?_
    obtain ⟨brought, member, rfl⟩ := List.mem_map.mp there
    obtain ⟨theirs, coming, rfl⟩ := (mem_brought spelling scope records kept brought).mp member
    have found := again_brought spelling scope records kept ids theirs coming
    exact congrArg Findings.conflicts found
  rw [List.flatMap_append, List.flatMap_append, created, brought, List.append_nil, List.append_nil, matches_eq,
    List.flatMap_map, List.flatMap_assoc]
  apply List.flatMap_congr
  intro mine free
  have said := match₁_cases spelling scope .twoWay records kept.links mine
  generalize match₁ spelling scope .twoWay records kept.links mine = findings at said ⊢
  cases said with
  | unknown none_like => rfl
  | asked some_like unclear => rfl
  | sole theirs sole =>
    have found := congrArg Findings.conflicts (again_matched spelling scope records kept ids mine theirs free sole)
    rw [List.flatMap_singleton]
    exact found

theorem linksAfter_flatMap (part : Findings -> List Item) :
    (linksAfter spelling scope records kept ids).flatMap (fun link =>
        part (linkFindings scope .twoWay (records₂ spelling scope records kept ids).locals
          (records₂ spelling scope records kept ids).externals link)) =
      kept.links.flatMap (fun link => part (again spelling scope records kept ids link)) ++
        (newLinks spelling scope records kept ids).flatMap (fun link => part (again spelling scope records kept ids link)) := by
  unfold linksAfter
  rw [List.flatMap_map, List.flatMap_append]

/-! ### What is free the next time -/

theorem candidates_trichotomy :
    candidates₁ spelling scope .twoWay records kept.links mine = [] ∨
      (∃ theirs, Sole spelling scope .twoWay records kept.links mine theirs) ∨
      Unclear spelling scope .twoWay records kept.links mine := by
  by_cases none_like : candidates₁ spelling scope .twoWay records kept.links mine = []
  · exact .inl none_like
  · by_cases found : ∃ theirs, Sole spelling scope .twoWay records kept.links mine theirs
    · exact .inr (.inl found)
    · exact .inr (.inr ⟨none_like, not_exists.mp found⟩)

theorem linked_after (id : Int) :
    (∀ link ∈ linksAfter spelling scope records kept ids, link.localId ≠ id) <->
      (∀ link ∈ kept.links, link.localId ≠ id) ∧ ∀ link ∈ newLinks spelling scope records kept ids, link.localId ≠ id := by
  unfold linksAfter
  simp only [List.forall_mem_map, List.forall_mem_append, (rebased_names spelling scope records kept ids _).1]

theorem unlinked_after (free : mine ∈ locals₁ scope .twoWay records kept.links) :
    (∀ link ∈ linksAfter spelling scope records kept ids, link.localId ≠ mine.id) <->
      Unclear spelling scope .twoWay records kept.links mine := by
  -- Of the contacts free the first time, those asked about are free the next.
  have there := (mem_locals₁ scope .twoWay records kept.links mine).mp free
  have known (other : LocalRecord) (also : other ∈ locals₁ scope .twoWay records kept.links) (same : other.id = mine.id) :
      other = mine :=
    List.inj_on_of_nodup_map (locals₁_distinct scope .twoWay records kept.links) also free same
  rw [linked_after, and_iff_right there.2]
  constructor
  · intro unlinked
    rcases candidates_trichotomy spelling scope records kept mine with unlike | ⟨theirs, sole⟩ | unclear
    · exact absurd rfl (unlinked _ ((mem_newLinks spelling scope records kept ids _).mpr (.inr (.inl ⟨mine, free, unlike, rfl⟩))))
    · exact absurd rfl (unlinked _ ((mem_newLinks spelling scope records kept ids _).mpr (.inl ⟨mine, free, theirs, sole, rfl⟩)))
    · exact unclear
  · intro unclear link new same
    rcases (mem_newLinks spelling scope records kept ids link).mp new with
      ⟨other, also, theirs, sole, rfl⟩ | ⟨other, also, unlike, rfl⟩ | ⟨theirs, coming, rfl⟩
    · rw [known other also same] at sole
      exact unclear.2 theirs sole
    · rw [known other also same] at unlike
      exact unclear.1 unlike
    · exact (ids.hereNew theirs (coming_among spelling scope records kept theirs coming)).1 mine
        (free_among scope records kept mine free) same.symm

open Classical in
theorem locals₂_eq :
    locals₁ scope .twoWay (records₂ spelling scope records kept ids) (linksAfter spelling scope records kept ids) =
      (locals₁ scope .twoWay records kept.links).filter
        (fun mine => decide (Unclear spelling scope .twoWay records kept.links mine)) := by
  have whole : (records₂ spelling scope records kept ids).locals = localsAfter spelling scope records kept ids := rfl
  rw [locals₁_form, whole]
  unfold localsAfter
  rw [List.filter_append]
  -- What came in is linked.
  have brought : ((firstPlan spelling scope records kept).imports.map (savedHere records kept ids)).filter
      (fun mine => decide (inScope scope mine = true ∧
        ∀ link ∈ linksAfter spelling scope records kept ids, link.localId ≠ mine.id)) = [] := by
    refine List.filter_eq_nil_iff.mpr fun mine there => ?_
    obtain ⟨found, member, rfl⟩ := List.mem_map.mp there
    obtain ⟨theirs, coming, rfl⟩ := (mem_brought spelling scope records kept found).mp member
    rw [decide_eq_true_eq, linked_after]
    rintro ⟨-, -, unlinked⟩
    exact unlinked _ ((mem_newLinks spelling scope records kept ids _).mpr (.inr (.inr ⟨theirs, coming, rfl⟩))) rfl
  rw [brought, List.append_nil, List.filter_map]
  have asked : records.locals.filter ((fun mine => decide (inScope scope mine = true ∧
        ∀ link ∈ linksAfter spelling scope records kept ids, link.localId ≠ mine.id)) ∘
          LocalRecord.written (firstPlan spelling scope records kept).updates) =
      (locals₁ scope .twoWay records kept.links).filter
        (fun mine => decide (Unclear spelling scope .twoWay records kept.links mine)) := by
    rw [locals₁_form, List.filter_filter]
    apply List.filter_congr
    intro mine there
    rw [Bool.eq_iff_iff, Bool.and_eq_true, decide_eq_true_eq, decide_eq_true_eq, Function.comp, decide_eq_true_eq]
    have free : (inScope scope mine = true ∧ ∀ link ∈ kept.links, link.localId ≠ mine.id) <->
        mine ∈ locals₁ scope .twoWay records kept.links := by
      rw [mem_locals₁, Records.saved, List.mem_filter, and_iff_right there]
    rw [free]
    constructor
    · rintro ⟨within, unlinked⟩
      have unlinked' := ((linked_after spelling scope records kept ids mine.id).mp unlinked).1
      have free' := free.mp ⟨within, unlinked'⟩
      exact ⟨(unlinked_after spelling scope records kept ids mine free').mp unlinked, free'⟩
    · rintro ⟨unclear, free'⟩
      exact ⟨(free.mpr free').1, (unlinked_after spelling scope records kept ids mine free').mpr unclear⟩
  rw [asked]
  calc ((locals₁ scope .twoWay records kept.links).filter
          (fun mine => decide (Unclear spelling scope .twoWay records kept.links mine))).map
          (LocalRecord.written (firstPlan spelling scope records kept).updates)
      = ((locals₁ scope .twoWay records kept.links).filter
          (fun mine => decide (Unclear spelling scope .twoWay records kept.links mine))).map id := by
        apply List.map_congr_left
        intro mine there
        obtain ⟨free, unclear⟩ := List.mem_filter.mp there
        exact unmatched_here spelling scope records kept mine free (of_decide_eq_true unclear).2
    _ = _ := List.map_id _

theorem compared_after (among : theirs ∈ records.externals) (after : ExternalRecord)
    (same : after.id = theirs.id) :
    Compared scope (records₂ spelling scope records kept ids) (linksAfter spelling scope records kept ids) after <->
      Compared scope records kept.links theirs ∨
        (∃ mine ∈ locals₁ scope .twoWay records kept.links, Sole spelling scope .twoWay records kept.links mine theirs) ∨
        theirs ∈ comingIn spelling scope .twoWay records kept.links := by
  have known (other : ExternalRecord) (also : other ∈ records.externals) (equal : other.id = theirs.id) : other = theirs :=
    List.inj_on_of_nodup_map records.externalIds also among equal
  constructor
  · rintro ⟨rebased_link, there, called, record, saved, named⟩
    obtain ⟨link, there', rfl⟩ := List.mem_map.mp there
    obtain ⟨sameLocal, sameExternal⟩ := rebased_names spelling scope records kept ids link
    rw [sameExternal, same] at called
    rw [sameLocal] at named
    rcases List.mem_append.mp there' with old | new
    · left
      rcases (mem_saved₂ spelling scope records kept ids record).mp saved with ⟨mine, held, rfl⟩ | ⟨other, coming, rfl⟩
      · exact ⟨link, old, called, mine, held, named⟩
      · exact absurd named.symm ((ids.hereNew other (coming_among spelling scope records kept other coming)).2 link old)
    · rcases (mem_newLinks spelling scope records kept ids link).mp new with
        ⟨mine, free, other, sole, rfl⟩ | ⟨mine, free, -, rfl⟩ | ⟨other, coming, rfl⟩
      · have also := (candidate_free _ _ _ _ _ mine other (sole_candidate _ _ _ _ _ _ _ sole)).1
        rw [known other also called] at sole
        exact .inr (.inl ⟨mine, free, sole⟩)
      · exact absurd called.symm ((ids.thereNew mine (free_among scope records kept mine free)).1 theirs among)
      · have also := coming_among spelling scope records kept other coming
        rw [known other also called] at coming
        exact .inr (.inr coming)
  · have named_by (link : Link) (there : link ∈ kept.links ++ newLinks spelling scope records kept ids)
        (called : link.external = theirs.id) (record : LocalRecord)
        (saved : record ∈ (records₂ spelling scope records kept ids).saved scope) (named : record.id = link.localId) :
        Compared scope (records₂ spelling scope records kept ids) (linksAfter spelling scope records kept ids) after := by
      obtain ⟨sameLocal, sameExternal⟩ := rebased_names spelling scope records kept ids link
      exact ⟨_, List.mem_map_of_mem there, sameExternal.trans (called.trans same.symm), record, saved, named.trans sameLocal.symm⟩
    rintro (⟨link, there, called, mine, saved, named⟩ | ⟨mine, free, sole⟩ | coming)
    · exact named_by link (List.mem_append_left _ there) called _
        ((mem_saved₂ spelling scope records kept ids _).mpr (.inl ⟨mine, saved, rfl⟩)) named
    · have saved := ((mem_locals₁ scope .twoWay records kept.links mine).mp free).1
      exact named_by (linkTo mine.id theirs.id)
        (List.mem_append_right _ ((mem_newLinks spelling scope records kept ids _).mpr (.inl ⟨mine, free, theirs, sole, rfl⟩)))
        rfl _ ((mem_saved₂ spelling scope records kept ids _).mpr (.inl ⟨mine, saved, rfl⟩)) rfl
    · exact named_by (linkTo (ids.here theirs.id) theirs.id)
        (List.mem_append_right _ ((mem_newLinks spelling scope records kept ids _).mpr (.inr (.inr ⟨theirs, coming, rfl⟩))))
        rfl _ ((mem_saved₂ spelling scope records kept ids _).mpr (.inr ⟨theirs, coming, rfl⟩)) rfl

def Remains : Prop :=
  (∀ mine ∈ locals₁ scope .twoWay records kept.links, ¬ Sole spelling scope .twoWay records kept.links mine theirs) ∧
    theirs ∉ comingIn spelling scope .twoWay records kept.links

open Classical in
theorem externals₂_eq :
    externals₁ scope .twoWay (records₂ spelling scope records kept ids) (linksAfter spelling scope records kept ids) =
      (externals₁ scope .twoWay records kept.links).filter
        (fun theirs => decide (Remains spelling scope records kept theirs)) := by
  have whole : (records₂ spelling scope records kept ids).externals = externalsAfter spelling scope records kept ids := rfl
  rw [externals₁_form, whole]
  unfold externalsAfter
  rw [List.filter_append]
  have created : ((firstPlan spelling scope records kept).creates.map (createdThere records kept ids)).filter
      (fun theirs => decide (¬ Compared scope (records₂ spelling scope records kept ids)
        (linksAfter spelling scope records kept ids) theirs)) = [] := by
    refine List.filter_eq_nil_iff.mpr fun theirs there => ?_
    obtain ⟨found, member, rfl⟩ := List.mem_map.mp there
    obtain ⟨mine, free, unlike, rfl⟩ := (mem_creates spelling scope records kept found).mp member
    rw [decide_eq_true_eq, not_not]
    have saved := ((mem_locals₁ scope .twoWay records kept.links mine).mp free).1
    have new := (mem_newLinks spelling scope records kept ids _).mpr (.inr (.inl ⟨mine, free, unlike, rfl⟩))
    obtain ⟨sameLocal, sameExternal⟩ := rebased_names spelling scope records kept ids (linkTo mine.id (ids.there mine.id))
    exact ⟨_, List.mem_map_of_mem (List.mem_append_right _ new), sameExternal, _,
      (mem_saved₂ spelling scope records kept ids _).mpr (.inl ⟨mine, saved, rfl⟩), sameLocal.symm⟩
  rw [created, List.append_nil, List.filter_map]
  have remaining : records.externals.filter ((fun theirs => decide (¬ Compared scope (records₂ spelling scope records kept ids)
        (linksAfter spelling scope records kept ids) theirs)) ∘
          ExternalRecord.written (firstPlan spelling scope records kept).updates) =
      (externals₁ scope .twoWay records kept.links).filter
        (fun theirs => decide (Remains spelling scope records kept theirs)) := by
    rw [externals₁_form, List.filter_filter]
    apply List.filter_congr
    intro theirs among
    have after := compared_after spelling scope records kept ids theirs among
      (ExternalRecord.written (firstPlan spelling scope records kept).updates theirs) rfl
    rw [Bool.eq_iff_iff, Bool.and_eq_true, decide_eq_true_eq, decide_eq_true_eq, Function.comp, decide_eq_true_eq, after]
    unfold Remains
    push Not
    exact and_comm
  rw [remaining]
  calc ((externals₁ scope .twoWay records kept.links).filter
          (fun theirs => decide (Remains spelling scope records kept theirs))).map
          (ExternalRecord.written (firstPlan spelling scope records kept).updates)
      = ((externals₁ scope .twoWay records kept.links).filter
          (fun theirs => decide (Remains spelling scope records kept theirs))).map id := by
        apply List.map_congr_left
        intro theirs there
        obtain ⟨free, remains⟩ := List.mem_filter.mp there
        exact unmatched_there spelling scope records kept theirs free (of_decide_eq_true remains).1
    _ = _ := List.map_id _

/-! ### What is asked and what comes in the next time -/

theorem candidates_filter (free : List ExternalRecord) (keep : ExternalRecord -> Bool) (mine : LocalRecord)
    (retained : ∀ theirs ∈ candidates spelling free mine, keep theirs = true) :
    candidates spelling (free.filter keep) mine = candidates spelling free mine := by
  unfold candidates at retained ⊢
  rw [List.filter_comm]
  cases shared : free.filter (fun theirs => sharesEmail mine.fields theirs.fields) with
  | nil =>
    rw [shared] at retained
    dsimp only [List.filter_nil]
    rw [List.filter_comm]
    exact List.filter_eq_self.mpr retained
  | cons first rest =>
    rw [shared] at retained
    rw [List.filter_eq_self.mpr retained]

theorem asked_remains (free : mine ∈ locals₁ scope .twoWay records kept.links)
    (unclear : Unclear spelling scope .twoWay records kept.links mine) (theirs : ExternalRecord)
    (candidate : theirs ∈ candidates₁ spelling scope .twoWay records kept.links mine) :
    Remains spelling scope records kept theirs := by
  constructor
  · intro other also sole
    have same := sole_unique spelling scope .twoWay records kept.links other mine theirs also free sole candidate
    rw [← same] at sole
    exact unclear.2 theirs sole
  · exact fun coming => (coming_free spelling scope records kept theirs coming).2.2 ⟨mine, free, candidate⟩

open Classical in
theorem candidates₂_eq (free : mine ∈ locals₁ scope .twoWay records kept.links)
    (unclear : Unclear spelling scope .twoWay records kept.links mine) :
    candidates₁ spelling scope .twoWay (records₂ spelling scope records kept ids) (linksAfter spelling scope records kept ids) mine =
      candidates₁ spelling scope .twoWay records kept.links mine := by
  have whole : candidates₁ spelling scope .twoWay (records₂ spelling scope records kept ids)
      (linksAfter spelling scope records kept ids) mine =
      candidates spelling (externals₁ scope .twoWay (records₂ spelling scope records kept ids)
        (linksAfter spelling scope records kept ids)) mine := rfl
  rw [whole, externals₂_eq]
  apply candidates_filter
  intro theirs candidate
  exact decide_eq_true (asked_remains spelling scope records kept mine free unclear theirs candidate)

open Classical in
theorem mem_locals₂ :
    mine ∈ locals₁ scope .twoWay (records₂ spelling scope records kept ids) (linksAfter spelling scope records kept ids) <->
      mine ∈ locals₁ scope .twoWay records kept.links ∧ Unclear spelling scope .twoWay records kept.links mine := by
  rw [locals₂_eq, List.mem_filter, decide_eq_true_eq]

theorem length_one_iff (items : List Item) (distinct : items.Nodup) (item : Item) (there : item ∈ items) :
    items.length = 1 <-> ∀ other ∈ items, other = item := by
  constructor
  · intro one other also
    obtain ⟨only, rfl⟩ := List.length_eq_one_iff.mp one
    rw [List.mem_singleton.mp also, List.mem_singleton.mp there]
  · intro alone
    have short : items.length ≤ [item].length :=
      (List.subperm_of_subset distinct fun other also => List.mem_singleton.mpr (alone other also)).length_le
    have some_there := List.length_pos_of_mem there
    simp only [List.length_singleton] at short
    omega

theorem sole₂_iff (free : mine ∈ locals₁ scope .twoWay records kept.links)
    (unclear : Unclear spelling scope .twoWay records kept.links mine) (theirs : ExternalRecord) :
    Sole spelling scope .twoWay (records₂ spelling scope records kept ids) (linksAfter spelling scope records kept ids) mine theirs <->
      candidates₁ spelling scope .twoWay records kept.links mine = [theirs] ∧
        ∀ other ∈ locals₁ scope .twoWay records kept.links, Unclear spelling scope .twoWay records kept.links other ->
          shares spelling other theirs = true -> other = mine := by
  -- Who is asked about is matched the next time where all others who could be the same record were matched.
  unfold Sole
  rw [candidates₂_eq spelling scope records kept ids mine free unclear]
  apply and_congr_right
  intro only
  have candidate : theirs ∈ candidates₁ spelling scope .twoWay records kept.links mine := by
    rw [only]
    exact List.mem_singleton_self _
  have distinct : (locals₁ scope .twoWay (records₂ spelling scope records kept ids)
      (linksAfter spelling scope records kept ids)).Nodup := (locals₁_distinct scope .twoWay _ _).of_map _
  unfold rivals
  rw [length_one_iff _ (distinct.filter _) mine]
  · simp only [List.mem_filter, mem_locals₂]
    constructor
    · exact fun alone other also asked like => alone other ⟨⟨also, asked⟩, like⟩
    · exact fun alone other held => alone other held.1.1 held.1.2 held.2
  · rw [List.mem_filter, mem_locals₂]
    exact ⟨⟨free, unclear⟩, (candidates_subset spelling _ mine theirs candidate).2⟩

open Classical in
theorem mem_eligible₂ :
    theirs ∈ eligible spelling scope .twoWay (records₂ spelling scope records kept ids) (linksAfter spelling scope records kept ids) <->
      theirs ∈ eligible spelling scope .twoWay records kept.links ∧ theirs ∉ comingIn spelling scope .twoWay records kept.links := by
  rw [mem_eligible, mem_eligible, externals₂_eq, List.mem_filter, decide_eq_true_eq]
  unfold Courted
  constructor
  · rintro ⟨⟨free, remains⟩, fit, uncourted⟩
    refine ⟨⟨free, fit, ?_⟩, remains.2⟩
    rintro ⟨mine, unlinked, candidate⟩
    rcases candidates_trichotomy spelling scope records kept mine with unlike | ⟨other, sole⟩ | unclear
    · rw [unlike] at candidate
      cases candidate
    · have same : theirs = other := by
        rw [sole.1] at candidate
        exact List.mem_singleton.mp candidate
      rw [← same] at sole
      exact remains.1 mine unlinked sole
    · refine uncourted ⟨mine, (mem_locals₂ spelling scope records kept ids mine).mpr ⟨unlinked, unclear⟩, ?_⟩
      rw [candidates₂_eq spelling scope records kept ids mine unlinked unclear]
      exact candidate
  · rintro ⟨⟨free, fit, uncourted⟩, staying⟩
    refine ⟨⟨free, ?_, staying⟩, fit, ?_⟩
    · exact fun mine unlinked sole => uncourted ⟨mine, unlinked, sole_candidate _ _ _ _ _ _ _ sole⟩
    · rintro ⟨mine, held, candidate⟩
      obtain ⟨unlinked, unclear⟩ := (mem_locals₂ spelling scope records kept ids mine).mp held
      rw [candidates₂_eq spelling scope records kept ids mine unlinked unclear] at candidate
      exact uncourted ⟨mine, unlinked, candidate⟩

theorem imports₂_nil_iff :
    (nextPlan spelling scope records kept ids).imports = [] <->
      (eligible spelling scope .twoWay records kept.links).Pairwise
        (fun first second => ¬ ∃ key ∈ lowerKeys spelling second, key ∈ lowerKeys spelling first) := by
  have all_taken := FirstFit.taken_all_iff (lowerKeys spelling) [] (eligible spelling scope .twoWay records kept.links)
  have unclaimed : ∀ theirs ∈ eligible spelling scope .twoWay records kept.links, ¬ FirstFit.Claims (lowerKeys spelling) [] theirs := by
    rintro theirs - ⟨key, -, claimed⟩
    cases claimed
  rw [and_iff_right unclaimed] at all_taken
  rw [← all_taken, imports_eq, List.map_eq_nil_iff]
  unfold comingIn
  rw [FirstFit.taken_nil_iff, List.eq_nil_iff_forall_not_mem]
  simp only [mem_eligible₂, not_and, not_not]
  constructor
  · intro all_coming
    have longer := (List.subperm_of_subset (eligible_nodup spelling scope .twoWay records kept.links) all_coming).length_le
    exact (FirstFit.taken_sublist (lowerKeys spelling) [] _).eq_of_length_le longer
  · intro same theirs fit
    unfold comingIn
    rw [same]
    exact fit

theorem flatMap_filter_of_nil {Part : Type} (items : List Item) (keep : Item -> Bool) (part : Item -> List Part)
    (nothing : ∀ item ∈ items, keep item = false -> part item = []) : (items.filter keep).flatMap part = items.flatMap part := by
  induction items with
  | nil => rfl
  | cons item rest ih =>
    have later := ih fun other there => nothing other (List.mem_cons_of_mem item there)
    cases kept : keep item with
    | true => rw [List.filter_cons_of_pos kept, List.flatMap_cons, List.flatMap_cons, later]
    | false =>
      rw [List.filter_cons_of_neg (by rw [kept]; decide), List.flatMap_cons, nothing item List.mem_cons_self kept, later]
      rfl

theorem match₂_question (free : mine ∈ locals₁ scope .twoWay records kept.links)
    (unclear : Unclear spelling scope .twoWay records kept.links mine)
    (unmatched : ∀ theirs, ¬ Sole spelling scope .twoWay (records₂ spelling scope records kept ids)
      (linksAfter spelling scope records kept ids) mine theirs) :
    match₁ spelling scope .twoWay (records₂ spelling scope records kept ids) (linksAfter spelling scope records kept ids) mine =
      question mine (candidates₁ spelling scope .twoWay records kept.links mine) := by
  -- Who is asked about and not matched is asked about as before.
  have same := candidates₂_eq spelling scope records kept ids mine free unclear
  have asked : Unclear spelling scope .twoWay (records₂ spelling scope records kept ids)
      (linksAfter spelling scope records kept ids) mine := by
    constructor
    · rw [same]
      exact unclear.1
    · exact unmatched
  rw [match₁_unclear _ _ _ _ _ mine asked, same]

/-- Contact sync converges in one round exactly where nothing of its plan waits for the rest of it. -/
theorem plan_converges_iff :
    Converges (firstPlan spelling scope records kept) (nextPlan spelling scope records kept ids) <->
      AtOnce spelling scope records kept := by
  constructor
  · intro converges
    refine ⟨?_, (imports₂_nil_iff spelling scope records kept ids).mp converges.imports⟩
    intro mine free unclear theirs only
    by_contra alone
    have sole := (sole₂_iff spelling scope records kept ids mine free unclear theirs).mpr
      ⟨only, fun other also asked like => by_contra fun different => alone ⟨other, also, different, asked, like⟩⟩
    have matched := (mem_matches spelling scope .twoWay (records₂ spelling scope records kept ids)
      (linksAfter spelling scope records kept ids) { localId := mine.id, external := theirs.id }).mpr
        ⟨mine, (mem_locals₂ spelling scope records kept ids mine).mpr ⟨free, unclear⟩, theirs, sole, rfl⟩
    rw [converges.matches'] at matched
    cases matched
  · intro settled
    have unmatched (mine : LocalRecord) (free : mine ∈ locals₁ scope .twoWay records kept.links)
        (unclear : Unclear spelling scope .twoWay records kept.links mine) (theirs : ExternalRecord) :
        ¬ Sole spelling scope .twoWay (records₂ spelling scope records kept ids) (linksAfter spelling scope records kept ids)
          mine theirs := by
      intro sole
      obtain ⟨only, alone⟩ := (sole₂_iff spelling scope records kept ids mine free unclear theirs).mp sole
      obtain ⟨other, also, different, asked, like⟩ := settled.shared mine free unclear theirs only
      exact different (alone other also asked like)
    have questioned (mine : LocalRecord)
        (held : mine ∈ locals₁ scope .twoWay (records₂ spelling scope records kept ids) (linksAfter spelling scope records kept ids)) :
        match₁ spelling scope .twoWay (records₂ spelling scope records kept ids) (linksAfter spelling scope records kept ids) mine =
          question mine (candidates₁ spelling scope .twoWay records kept.links mine) := by
      obtain ⟨free, unclear⟩ := (mem_locals₂ spelling scope records kept ids mine).mp held
      exact match₂_question spelling scope records kept ids mine free unclear (unmatched mine free unclear)
    exact
      { matches' := by
          rw [matches_eq]
          refine List.flatMap_eq_nil_iff.mpr fun mine held => ?_
          rw [questioned mine held]
          rfl
        creates := by
          rw [creates_eq, List.map_eq_nil_iff, List.filter_eq_nil_iff]
          intro mine held
          obtain ⟨free, unclear⟩ := (mem_locals₂ spelling scope records kept ids mine).mp held
          rw [candidates₂_eq spelling scope records kept ids mine free unclear, decide_eq_true_eq]
          exact unclear.1
        imports := (imports₂_nil_iff spelling scope records kept ids).mpr settled.apart
        updates := by
          rw [updates_eq, linksAfter_flatMap spelling scope records kept ids Findings.updates]
          simp only [List.append_eq_nil_iff, List.flatMap_eq_nil_iff]
          refine ⟨⟨?_, ?_⟩, ?_⟩
          · exact fun link there => (again_kept spelling scope records kept ids link there).1
          · exact fun link new => (again_new spelling scope records kept ids link new).1
          · intro mine held
            rw [questioned mine held]
            rfl
        conflicts := by
          have asked : (locals₁ scope .twoWay (records₂ spelling scope records kept ids)
              (linksAfter spelling scope records kept ids)).flatMap
                (fun mine => (match₁ spelling scope .twoWay (records₂ spelling scope records kept ids)
                  (linksAfter spelling scope records kept ids) mine).conflicts) = [] := by
            refine List.flatMap_eq_nil_iff.mpr fun mine held => ?_
            rw [questioned mine held]
            rfl
          rw [conflicts_eq, linksAfter_flatMap spelling scope records kept ids Findings.conflicts, asked, List.append_nil,
            new_conflicts, conflicts_eq]
          apply congrArg (fun conflicts => conflicts ++ _)
          apply List.flatMap_congr
          exact fun link there => (again_kept spelling scope records kept ids link there).2.1
        ambiguous := by
          rw [ambiguous_eq, ambiguous_eq]
          have asked : (locals₁ scope .twoWay (records₂ spelling scope records kept ids)
              (linksAfter spelling scope records kept ids)).flatMap
                (fun mine => (match₁ spelling scope .twoWay (records₂ spelling scope records kept ids)
                  (linksAfter spelling scope records kept ids) mine).ambiguous) =
              (locals₁ scope .twoWay (records₂ spelling scope records kept ids)
                (linksAfter spelling scope records kept ids)).flatMap
                  (fun mine => (match₁ spelling scope .twoWay records kept.links mine).ambiguous) := by
            apply List.flatMap_congr
            intro mine held
            obtain ⟨free, unclear⟩ := (mem_locals₂ spelling scope records kept ids mine).mp held
            rw [questioned mine held, match₁_unclear _ _ _ _ _ mine unclear]
          rw [asked, locals₂_eq]
          classical
          apply flatMap_filter_of_nil
          intro mine _ clear
          have said := match₁_cases spelling scope .twoWay records kept.links mine
          generalize match₁ spelling scope .twoWay records kept.links mine = findings at said ⊢
          cases said with
          | unknown none_like => rfl
          | sole theirs sole => rfl
          | asked some_like unclear => exact absurd ⟨some_like, unclear⟩ (of_decide_eq_false clear)
        gone := by
          rw [gone_eq, linksAfter_flatMap spelling scope records kept ids Findings.gone, gone_eq]
          have none_new : (newLinks spelling scope records kept ids).flatMap
              (fun link => (again spelling scope records kept ids link).gone) = [] :=
            List.flatMap_eq_nil_iff.mpr fun link new => (again_new spelling scope records kept ids link new).2
          rw [none_new, List.append_nil]
          apply List.flatMap_congr
          exact fun link there => (again_kept spelling scope records kept ids link there).2.2 }

end converging

/-! ### A record that waits -/

def office (id : Text) (given : Text) : ExternalRecord where
  id
  label := given
  fields :=
    { Fields.empty with
      given
      emails := [['o', '@', 'x']] }

/-- Two records of one address there, and nothing here. -/
def sharedAddress : Records where
  locals := []
  externals := [office ['1'] ['A', 'd', 'a'], office ['2'] ['B', 'e', 'n']]
  localIds := by decide
  externalIds := by decide

def noLinks : Links where
  links := []
  locals := by decide
  externals := by decide

def numbered : NewIds sharedAddress noLinks where
  here := fun external => if external = ['1'] then 1 else 2
  there := fun _ => []
  hereApart := by decide
  thereApart := by decide
  hereNew := by decide
  thereNew := by decide

/-- The first plan brings in one of the two records, and the next the other. -/
theorem second_record_comes_in_later :
    ¬ Converges (firstPlan asciiSpelling .people sharedAddress noLinks) (nextPlan asciiSpelling .people sharedAddress noLinks numbered) := by
  intro converges
  have later : (nextPlan asciiSpelling .people sharedAddress noLinks numbered).imports =
      [broughtIn asciiSpelling (office ['2'] ['B', 'e', 'n'])] := by decide
  rw [converges.imports] at later
  cases later

end Postio.ContactSync

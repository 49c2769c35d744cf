import Postio.Contacts.SyncForms

set_option autoImplicit false

namespace Postio.ContactSync

/-! ### A plan carried out -/

variable (fields : Fields) (updates : List Change) (update : Change) (value : Text) (field : TextField)

def Fields.setText : TextField -> Fields
  | .givenName => { fields with given := value }
  | .familyName => { fields with family := value }
  | .organization => { fields with organization := value }
  | .title => { fields with title := value }

def Fields.write : Fields :=
  -- One change written: a text replaced, addresses or numbers added.
  match update.field, update.values with
  | .text field, value :: _ => fields.setText value field
  | .text _, [] => fields
  | .addresses, values => { fields with emails := fields.emails ++ values }
  | .phones, values => { fields with phones := fields.phones ++ values }

def Fields.writeAll : Fields := updates.foldl Fields.write fields

def LocalRecord.written (mine : LocalRecord) : LocalRecord :=
  { mine with
    fields := mine.fields.writeAll (updates.filter (fun update => update.side = .here && update.localId = mine.id)) }

def ExternalRecord.written (theirs : ExternalRecord) : ExternalRecord :=
  { theirs with
    fields := theirs.fields.writeAll (updates.filter (fun update => update.side = .there && update.external = theirs.id)) }

/-- The ids that new records are given: unlike each other, and unlike those of any record or link there is. -/
structure NewIds (records : Records) (kept : Links) where
  here : Text -> Int
  there : Int -> Text
  hereApart : (records.externals.map (fun theirs => here theirs.id)).Nodup
  thereApart : (records.locals.map (fun mine => there mine.id)).Nodup
  hereNew : ∀ theirs ∈ records.externals,
    (∀ mine ∈ records.locals, mine.id ≠ here theirs.id) ∧ ∀ link ∈ kept.links, link.localId ≠ here theirs.id
  thereNew : ∀ mine ∈ records.locals,
    (∀ theirs ∈ records.externals, theirs.id ≠ there mine.id) ∧ ∀ link ∈ kept.links, link.external ≠ there mine.id

/-- What both sides now share, field by field, and what the base was where they still differ. -/
def agreed (mine theirs base : Fields) : Fields where
  given := if mine.given = theirs.given then mine.given else base.given
  family := if mine.family = theirs.family then mine.family else base.family
  emails := if mine.emails = theirs.emails then mine.emails else base.emails
  phones := if mine.phones = theirs.phones then mine.phones else base.phones
  organization := if mine.organization = theirs.organization then mine.organization else base.organization
  title := if mine.title = theirs.title then mine.title else base.title

def rebase (locals : List LocalRecord) (externals : List ExternalRecord) (link : Link) : Link :=
  match locals.find? (fun mine => mine.id = link.localId), externals.find? (fun theirs => theirs.id = link.external) with
  | some mine, some theirs => { link with base := agreed mine.fields theirs.fields link.base }
  | _, _ => link

def linkTo (localId : Int) (external : Text) : Link where
  localId
  external
  base := Fields.empty

theorem agreed_text (mine theirs base : Fields) (field : TextField) :
    (agreed mine theirs base).text field = if mine.text field = theirs.text field then mine.text field else base.text field := by
  -- Each text of two records that have it in common is that of their link's base.
  cases field <;> rfl

/-! ### What is written where -/

theorem setText_text (other : TextField) :
    (fields.setText value field).text other = if field = other then value else fields.text other := by
  cases field <;> cases other <;> rfl

theorem setText_emails : (fields.setText value field).emails = fields.emails := by
  cases field <;> rfl

theorem setText_phones : (fields.setText value field).phones = fields.phones := by
  cases field <;> rfl

theorem writeAll_cons (rest : List Change) :
    fields.writeAll (update :: rest) = (fields.write update).writeAll rest := rfl

theorem write_text_other (other : update.field ≠ .text field) : (fields.write update).text field = fields.text field:= by
  unfold Fields.write
  split
  next text value rest same values =>
    rw [setText_text, if_neg]
    intro equal
    exact other (same.trans (congrArg Field.text equal))
  next => rfl
  next => cases field <;> rfl
  next => cases field <;> rfl

theorem writeAll_text_other (others : ∀ update ∈ updates, update.field ≠ .text field) : (fields.writeAll updates).text field = fields.text field := by
  induction updates generalizing fields with
  | nil => rfl
  | cons update rest ih =>
    rw [writeAll_cons, ih _ (fun other there => others other (List.mem_cons_of_mem update there))]
    exact write_text_other fields update field (others update List.mem_cons_self)

theorem writeAll_text (value : Text)
    (same : ∀ update ∈ updates, update.field = .text field -> update.values = [value])
    (some_such : ∃ update ∈ updates, update.field = .text field) : (fields.writeAll updates).text field = value := by
  induction updates generalizing fields with
  | nil =>
    obtain ⟨update, impossible, -⟩ := some_such
    cases impossible
  | cons update rest ih =>
    rw [writeAll_cons]
    have same_later : ∀ other ∈ rest, other.field = .text field -> other.values = [value] :=
      fun other there => same other (List.mem_cons_of_mem update there)
    by_cases later : ∃ other ∈ rest, other.field = .text field
    · exact ih _ same_later later
    · rw [writeAll_text_other _ rest field (fun other there named => later ⟨other, there, named⟩)]
      obtain ⟨other, there, named⟩ := some_such
      rcases List.mem_cons.mp there with rfl | late
      · have values := same other List.mem_cons_self named
        unfold Fields.write
        rw [named, values]
        exact (setText_text fields value field field).trans (if_pos rfl)
      · exact absurd ⟨other, late, named⟩ later

theorem write_emails (address : Text) :
    address ∈ (fields.write update).emails <->
      address ∈ fields.emails ∨ update.field = .addresses ∧ address ∈ update.values := by
  unfold Fields.write
  split
  next same _ => simp [setText_emails, same]
  next same _ => simp [same]
  next same => simp [same]
  next same => simp [same]

theorem writeAll_emails (address : Text) :
    address ∈ (fields.writeAll updates).emails <->
      address ∈ fields.emails ∨ ∃ update ∈ updates, update.field = .addresses ∧ address ∈ update.values := by
  induction updates generalizing fields with
  | nil => simp [Fields.writeAll]
  | cons update rest ih =>
    rw [writeAll_cons, ih, write_emails]
    simp only [List.mem_cons, exists_eq_or_imp, or_assoc]

theorem write_phones (phone : Text) :
    phone ∈ (fields.write update).phones <->
      phone ∈ fields.phones ∨ update.field = .phones ∧ phone ∈ update.values := by
  unfold Fields.write
  split
  next same _ => simp [setText_phones, same]
  next same _ => simp [same]
  next same => simp [same]
  next same => simp [same]

theorem writeAll_phones (phone : Text) :
    phone ∈ (fields.writeAll updates).phones <->
      phone ∈ fields.phones ∨ ∃ update ∈ updates, update.field = .phones ∧ phone ∈ update.values := by
  induction updates generalizing fields with
  | nil => simp [Fields.writeAll]
  | cons update rest ih =>
    rw [writeAll_cons, ih, write_phones]
    simp only [List.mem_cons, exists_eq_or_imp, or_assoc]

/-! ### A pair compared, written and compared again -/

section pair

variable (mine : LocalRecord) (theirs : ExternalRecord) (base : Fields)

theorem textChange_field (mode : Mode) (field : TextField) (update : Change)
    (changed : textChange mode mine theirs base field = some update) : update.field = .text field := by
  unfold textChange at changed
  split at changed
  next => cases changed
  next =>
    split at changed
    next => cases changed; rfl
    next =>
      split at changed
      next =>
        split at changed
        next => cases changed; rfl
        next => cases changed
      next => cases changed

variable (side : Side) (updates : List Change)

theorem mem_changeSet (field : Field) (values : List Text) (update : Change) :
    update ∈ changeSet mine theirs side field values <-> values ≠ [] ∧ update = change mine theirs side field values := by
  unfold changeSet
  split
  next none_across => simp [none_across]
  next some_across => simp [some_across]

theorem mem_compareUpdates (update : Change) :
    update ∈ compareUpdates .twoWay mine theirs base <->
      (∃ field, textChange .twoWay mine theirs base field = some update) ∨
        update ∈ changeSet mine theirs .here .addresses (lackingHere mine.fields theirs.fields) ∨
        update ∈ changeSet mine theirs .there .addresses (lackingHere theirs.fields mine.fields) ∨
        update ∈ changeSet mine theirs .here .phones (newHere mine.fields theirs.fields) ∨
        update ∈ changeSet mine theirs .there .phones (newHere theirs.fields mine.fields) := by
  -- The changes of a two way comparison.
  unfold compareUpdates
  simp only [if_true, List.mem_append, List.mem_filterMap, or_assoc]
  have every (field : TextField) : field ∈ textFields := by cases field <;> decide
  simp only [every, true_and]

def Lands : Prop :=
  ∀ update, update ∈ updates <-> update.side = side ∧ update ∈ compareUpdates .twoWay mine theirs base

theorem lands_text (lands : Lands mine theirs base side updates) (fields : Fields)
    (field : TextField) :
    (fields.writeAll updates).text field =
      match textChange .twoWay mine theirs base field with
      | some update => if update.side = side then update.values.headD [] else fields.text field
      | none => fields.text field := by
  have text_update (update : Change) (there : update ∈ updates) (named : update.field = .text field) :
      textChange .twoWay mine theirs base field = some update := by
    have listed := (mem_compareUpdates mine theirs base update).mp ((lands update).mp there).2
    rcases listed with ⟨other, changed⟩ | set | set | set | set
    · have same := textChange_field mine theirs base .twoWay other update changed
      rw [named] at same
      cases same
      exact changed
    all_goals
      rw [((mem_changeSet mine theirs _ _ _ update).mp set).2] at named
      cases named
  cases changed : textChange .twoWay mine theirs base field with
  | none =>
    apply writeAll_text_other
    intro update there named
    rw [text_update update there named] at changed
    cases changed
  | some update =>
    dsimp only
    split
    next here =>
      have single : ∃ value, update.values = [value] := by
        unfold textChange at changed
        split at changed
        next => cases changed
        next =>
          split at changed
          next => cases changed; exact ⟨_, rfl⟩
          next =>
            split at changed
            next => cases changed; exact ⟨_, rfl⟩
            next => cases changed
      obtain ⟨value, values⟩ := single
      rw [values]
      apply writeAll_text
      · intro other there named
        have same := text_update other there named
        rw [changed] at same
        cases same
        exact values
      · have listed := (mem_compareUpdates mine theirs base update).mpr (.inl ⟨field, changed⟩)
        exact ⟨update, (lands update).mpr ⟨here, listed⟩, textChange_field mine theirs base .twoWay field update changed⟩
    next elsewhere =>
      apply writeAll_text_other
      intro other there named
      have same := text_update other there named
      rw [changed] at same
      cases same
      exact elsewhere ((lands update).mp there).1

theorem lands_emails (side : Side) (lands : Lands mine theirs base side updates) (fields : Fields)
    (address : Text) :
    address ∈ (fields.writeAll updates).emails <->
      address ∈ fields.emails ∨
        address ∈ (match side with
          | .here => lackingHere mine.fields theirs.fields
          | .there => lackingHere theirs.fields mine.fields) := by
  rw [writeAll_emails]
  apply or_congr_right
  constructor
  · rintro ⟨update, there, named, held⟩
    obtain ⟨here, listed⟩ := (lands update).mp there
    rcases (mem_compareUpdates mine theirs base update).mp listed with ⟨field, changed⟩ | set | set | set | set
    · rw [textChange_field mine theirs base .twoWay field update changed] at named
      cases named
    all_goals
      obtain ⟨-, same⟩ := (mem_changeSet mine theirs _ _ _ update).mp set
      subst same
      cases here
      first
      | exact held
      | cases named
  · intro lacking
    cases side with
    | here =>
      refine ⟨change mine theirs .here .addresses (lackingHere mine.fields theirs.fields), (lands _).mpr ⟨rfl, ?_⟩, rfl, lacking⟩
      exact (mem_compareUpdates mine theirs base _).mpr
        (.inr (.inl ((mem_changeSet mine theirs _ _ _ _).mpr ⟨List.ne_nil_of_mem lacking, rfl⟩)))
    | there =>
      refine ⟨change mine theirs .there .addresses (lackingHere theirs.fields mine.fields), (lands _).mpr ⟨rfl, ?_⟩, rfl, lacking⟩
      exact (mem_compareUpdates mine theirs base _).mpr
        (.inr (.inr (.inl ((mem_changeSet mine theirs _ _ _ _).mpr ⟨List.ne_nil_of_mem lacking, rfl⟩))))

theorem lands_phones (side : Side) (lands : Lands mine theirs base side updates) (fields : Fields)
    (phone : Text) :
    phone ∈ (fields.writeAll updates).phones <->
      phone ∈ fields.phones ∨
        phone ∈ (match side with
          | .here => newHere mine.fields theirs.fields
          | .there => newHere theirs.fields mine.fields) := by
  rw [writeAll_phones]
  apply or_congr_right
  constructor
  · rintro ⟨update, there, named, held⟩
    obtain ⟨here, listed⟩ := (lands update).mp there
    rcases (mem_compareUpdates mine theirs base update).mp listed with ⟨field, changed⟩ | set | set | set | set
    · rw [textChange_field mine theirs base .twoWay field update changed] at named
      cases named
    all_goals
      obtain ⟨-, same⟩ := (mem_changeSet mine theirs _ _ _ update).mp set
      subst same
      cases here
      first
      | exact held
      | cases named
  · intro lacking
    cases side with
    | here =>
      refine ⟨change mine theirs .here .phones (newHere mine.fields theirs.fields), (lands _).mpr ⟨rfl, ?_⟩, rfl, lacking⟩
      exact (mem_compareUpdates mine theirs base _).mpr
        (.inr (.inr (.inr (.inl ((mem_changeSet mine theirs _ _ _ _).mpr ⟨List.ne_nil_of_mem lacking, rfl⟩)))))
    | there =>
      refine ⟨change mine theirs .there .phones (newHere theirs.fields mine.fields), (lands _).mpr ⟨rfl, ?_⟩, rfl, lacking⟩
      exact (mem_compareUpdates mine theirs base _).mpr
        (.inr (.inr (.inr (.inr ((mem_changeSet mine theirs _ _ _ _).mpr ⟨List.ne_nil_of_mem lacking, rfl⟩)))))

section merged

variable (heres theres : List Change) (landsHere : Lands mine theirs base .here heres)
  (landsThere : Lands mine theirs base .there theres)

include landsHere landsThere

theorem text_settled (field : TextField) :
    (mine.fields.writeAll heres).text field = (theirs.fields.writeAll theres).text field ∧
        textConflict mine theirs base field = none ∨
      ((mine.fields.writeAll heres).text field = mine.fields.text field ∧
          (theirs.fields.writeAll theres).text field = theirs.fields.text field) ∧
        mine.fields.text field ≠ theirs.fields.text field ∧ mine.fields.text field ≠ base.text field ∧
          theirs.fields.text field ≠ base.text field := by
  -- After the changes a text is the same on both sides, unless it was in conflict: then it is on each side what it was.
  rw [lands_text mine theirs base .here heres landsHere, lands_text mine theirs base .there theres landsThere]
  unfold textChange textConflict
  by_cases same : mine.fields.text field = theirs.fields.text field
  · simp only [if_pos same]
    exact .inl ⟨same, trivial⟩
  · simp only [if_neg same]
    by_cases mineKept : mine.fields.text field = base.text field
    · simp only [if_pos mineKept]
      exact .inl ⟨rfl, trivial⟩
    · simp only [if_neg mineKept]
      by_cases theirsKept : theirs.fields.text field = base.text field
      · simp only [if_pos theirsKept, if_true]
        exact .inl ⟨rfl, trivial⟩
      · simp only [if_neg theirsKept]
        exact .inr ⟨⟨trivial, trivial⟩, same, mineKept, theirsKept⟩

theorem addresses_settled :
    lackingHere (mine.fields.writeAll heres) (theirs.fields.writeAll theres) = [] ∧
      lackingHere (theirs.fields.writeAll theres) (mine.fields.writeAll heres) = [] := by
  have mineHas := lands_emails mine theirs base heres .here landsHere mine.fields
  have theirsHas := lands_emails mine theirs base theres .there landsThere theirs.fields
  have reaches (first second grown other : Fields)
      (own : ∀ address, address ∈ grown.emails <-> address ∈ first.emails ∨ address ∈ lackingHere first second)
      (across : ∀ address, address ∈ other.emails <-> address ∈ second.emails ∨ address ∈ lackingHere second first) :
      lackingHere grown other = [] := by
    rw [List.eq_nil_iff_forall_not_mem]
    intro address lacking
    obtain ⟨held, absent⟩ := List.mem_filter.mp lacking
    have missing : ∀ kept ∈ grown.emails, eqIgnoreAsciiCase kept address ≠ true := by
      simpa [hasAddress] using absent
    have itself : address ∉ grown.emails := fun there => missing address there (by simp [eqIgnoreAsciiCase])
    rcases (across address).mp held with theirs | crossed
    · by_cases known : hasAddress first.emails address = true
      · obtain ⟨kept, there, same⟩ := List.any_eq_true.mp known
        exact missing kept ((own kept).mpr (.inl there)) same
      · exact itself ((own address).mpr (.inr (List.mem_filter.mpr ⟨theirs, by simpa using known⟩)))
    · exact itself ((own address).mpr (.inl (List.mem_filter.mp crossed).1))
  exact ⟨reaches _ _ _ _ mineHas theirsHas, reaches _ _ _ _ theirsHas mineHas⟩

theorem phones_settled :
    newHere (mine.fields.writeAll heres) (theirs.fields.writeAll theres) = [] ∧
      newHere (theirs.fields.writeAll theres) (mine.fields.writeAll heres) = [] := by
  have mineHas := lands_phones mine theirs base heres .here landsHere mine.fields
  have theirsHas := lands_phones mine theirs base theres .there landsThere theirs.fields
  have reaches (first second grown other : Fields)
      (own : ∀ phone, phone ∈ grown.phones <-> phone ∈ first.phones ∨ phone ∈ newHere first second)
      (across : ∀ phone, phone ∈ other.phones <-> phone ∈ second.phones ∨ phone ∈ newHere second first) :
      newHere grown other = [] := by
    rw [List.eq_nil_iff_forall_not_mem]
    intro phone new
    obtain ⟨held, lacking⟩ := List.mem_filter.mp new
    obtain ⟨key, keyed, absent⟩ : ∃ key, phoneKey phone = some key ∧ key ∉ phoneKeys grown := by
      simpa [Option.any_eq_true] using lacking
    have itself : phone ∉ grown.phones := fun there => absent (List.mem_filterMap.mpr ⟨phone, there, keyed⟩)
    rcases (across phone).mp held with theirs | crossed
    · by_cases known : key ∈ phoneKeys first
      · obtain ⟨kept, there, same⟩ := List.mem_filterMap.mp known
        exact absent (List.mem_filterMap.mpr ⟨kept, (own kept).mpr (.inl there), same⟩)
      · refine itself ((own phone).mpr (.inr (List.mem_filter.mpr ⟨theirs, ?_⟩)))
        simp [keyed, known]
    · exact itself ((own phone).mpr (.inl (List.mem_filter.mp crossed).1))
  exact ⟨reaches _ _ _ _ mineHas theirsHas, reaches _ _ _ _ theirsHas mineHas⟩

theorem updates_settled :
    compareUpdates .twoWay { mine with fields := mine.fields.writeAll heres }
      { theirs with fields := theirs.fields.writeAll theres }
      (agreed (mine.fields.writeAll heres) (theirs.fields.writeAll theres) base) = [] := by
  rw [List.eq_nil_iff_forall_not_mem]
  intro update listed
  obtain ⟨addressesHere, addressesThere⟩ := addresses_settled mine theirs base heres theres landsHere landsThere
  obtain ⟨phonesHere, phonesThere⟩ := phones_settled mine theirs base heres theres landsHere landsThere
  rw [mem_compareUpdates] at listed
  simp only [mem_changeSet, addressesHere, addressesThere, phonesHere, phonesThere, ne_eq, not_true, false_and, or_false]
    at listed
  obtain ⟨field, changed⟩ := listed
  unfold textChange at changed
  simp only [agreed_text] at changed
  rcases text_settled mine theirs base heres theres landsHere landsThere field with
    ⟨same, -⟩ | ⟨⟨mineStays, theirsStays⟩, apart, mineMoved, theirsMoved⟩
  · rw [if_pos same] at changed
    cases changed
  · rw [mineStays, theirsStays, if_neg apart, if_neg apart, if_neg mineMoved, if_neg theirsMoved] at changed
    cases changed

theorem conflicts_settled :
    compareConflicts { mine with fields := mine.fields.writeAll heres }
        { theirs with fields := theirs.fields.writeAll theres }
        (agreed (mine.fields.writeAll heres) (theirs.fields.writeAll theres) base) =
      compareConflicts mine theirs base := by
  unfold compareConflicts
  apply List.filterMap_congr
  intro field _
  rcases text_settled mine theirs base heres theres landsHere landsThere field with
    ⟨same, unasked⟩ | ⟨⟨mineStays, theirsStays⟩, apart, mineMoved, theirsMoved⟩
  · rw [unasked]
    unfold textConflict
    exact if_pos same
  · unfold textConflict
    simp only [agreed_text, mineStays, theirsStays, if_neg apart, if_neg mineMoved, if_neg theirsMoved]

end merged

end pair

end Postio.ContactSync

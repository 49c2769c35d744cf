import Postio.Drafts.RowsSpelled

set_option autoImplicit false

namespace Postio.Drafts

open Pull

variable (mailbox : MailboxId) (store : Store) (folder : Folder) (mail : Mail) (validity : Generation) (row : Mail)
    (uid : Uid)

def numbered : Bool := row.mailboxId = mailbox && (coordinates row).isSome

def served : Bool :=
  among mailbox folder.generation folder.existingUids row

def vanished : Bool :=
  numbered mailbox row && !served mailbox folder row

/-! ### What is written -/

theorem among_iff (generation : Generation) (uids : List Uid) (row : Mail) :
    among mailbox generation uids row = true <-> ∃ uid ∈ uids, coordinates row = some (mailbox, generation, uid) := by
  unfold among
  constructor
  next =>
    intro placed
    simp only [Bool.and_eq_true, decide_eq_true_eq, Option.any_eq_true, List.contains_iff_mem] at placed
    obtain ⟨⟨here, validity⟩, uid, named, there⟩ := placed
    exact ⟨uid, there, (coordinates_eq_some row mailbox generation uid).mpr ⟨here, validity, named⟩⟩
  next =>
    rintro ⟨uid, there, place⟩
    obtain ⟨here, validity, named⟩ := (coordinates_eq_some row mailbox generation uid).mp place
    simp [here, validity, named, there]

theorem vanished_iff :
    vanished mailbox folder row = true <->
      row.mailboxId = mailbox ∧ (coordinates row).isSome ∧ served mailbox folder row = false := by
  simp [vanished, numbered, and_assoc]

/-- What a write of messages the server holds does: no row goes, and those with other UIDs stay as they are. -/
structure Filled (mailbox : MailboxId) (folder : Folder) (before after : Store) : Prop where
  arrived : ∀ id row, after.get id = some row -> before.get id = some row ∨ served mailbox folder row = true
  stays : ∀ id row, before.get id = some row -> (coordinates row).isSome -> served mailbox folder row = false ->
    after.get id = some row
  kept : ∀ id, (before.get id).isSome -> (after.get id).isSome

theorem filled_refl (store : Store) : Filled mailbox folder store store where
  arrived := fun _ _ held => .inl held
  stays := fun _ _ held _ _ => held
  kept := fun _ held => held

theorem filled_trans (before middle after : Store)
    (first : Filled mailbox folder before middle) (second : Filled mailbox folder middle after) :
    Filled mailbox folder before after where
  arrived := by
    intro id row held
    rcases second.arrived id row held with was | fresh
    next => exact first.arrived id row was
    next => exact .inr fresh
  stays := fun id row held named gone => second.stays id row (first.stays id row held named gone) named gone
  kept := fun id held => second.kept id (first.kept id held)

structure Shelved (store : Store) : Prop where
  apart : Apart store
  spelled : Spelled store

def Held : Prop :=
  ∃ uid ∈ folder.existingUids, mail.mailboxId = mailbox ∧ mail.server.uid = some uid ∧
    mail.server.uidValidity = some folder.generation ∧ mail.server.remoteId = some (remoteId folder.generation uid)

theorem known_place (spelled : Spelled store)
    (numbered : mail.server.uid = some uid) (valid : mail.server.uidValidity = some validity)
    (named : mail.server.remoteId = some (remoteId validity uid)) (id : MessageId) (known : store.known mail = some id) :
    ∃ row, store.get id = some row ∧ coordinates row = some (mail.mailboxId, validity, uid) := by
  -- By its name or by its UID, a row that is known is at the message's coordinates.
  unfold Store.known at known
  rw [named, numbered, valid, Option.bind_some] at known
  cases byName : store.findByRemoteId mail.mailboxId (remoteId validity uid) with
  | some other =>
    rw [byName] at known
    cases known
    obtain ⟨row, held, fits⟩ := store.find_held _ _ byName
    simp only [Bool.and_eq_true, decide_eq_true_eq] at fits
    obtain ⟨generation, number, stamped, counted, pair⟩ := spelled id row held _ fits.2
    obtain ⟨same, equal⟩ := remoteId_inj _ _ _ _ pair
    refine ⟨row, held, (coordinates_eq_some row _ _ _).mpr ⟨fits.1, ?_, ?_⟩⟩
    next => rw [stamped, same]
    next => rw [counted, equal]
  | none =>
    rw [byName] at known
    obtain ⟨row, held, fits⟩ := store.find_held _ _ known
    simp only [Bool.and_eq_true, decide_eq_true_eq] at fits
    exact ⟨row, held, (coordinates_eq_some row _ _ _).mpr ⟨fits.1.1, fits.1.2, fits.2⟩⟩

theorem unknown_place (numbered : mail.server.uid = some uid) (valid : mail.server.uidValidity = some validity)
    (unknown : store.known mail = none) (id : MessageId) (row : Mail) (held : store.get id = some row) :
    coordinates row ≠ some (mail.mailboxId, validity, uid) := by
  -- A message that is not known has its coordinates to itself.
  unfold Store.known at unknown
  rw [numbered, valid] at unknown
  cases byName : mail.server.remoteId.bind (store.findByRemoteId mail.mailboxId) with
  | some other =>
    rw [byName] at unknown
    cases unknown
  | none =>
    rw [byName] at unknown
    intro place
    obtain ⟨here, stamped, counted⟩ := (coordinates_eq_some row _ _ _).mp place
    have missed := (store.find_eq_none _).mp unknown id row held
    simp [here, stamped, counted] at missed

theorem existing_place (spelled : Spelled store)
    (numbered : mail.server.uid = some uid) (valid : mail.server.uidValidity = some validity)
    (named : mail.server.remoteId = some (remoteId validity uid)) (id : MessageId)
    (found : store.existing mail = some id) :
    ∃ row, store.get id = some row ∧ (coordinates row = some (mail.mailboxId, validity, uid) ∨
      coordinates row = none ∧ store.known mail = none) := by
  -- The row a message is written over is at its coordinates, or has none.
  have waiting : ∀ chosen : Mail -> Bool, (∀ row, chosen row = true -> Store.awaits row = true) ->
      store.find chosen = some id -> ∃ row, store.get id = some row ∧ coordinates row = none := by
    intro chosen awaits looked
    obtain ⟨row, held, fits⟩ := store.find_held _ _ looked
    have bare := awaits row fits
    simp only [Store.awaits, Bool.and_eq_true, Option.isNone_iff_eq_none] at bare
    exact ⟨row, held, by simp [coordinates, bare.1.2]⟩
  unfold Store.existing at found
  split at found
  next other _ known =>
    cases found
    obtain ⟨row, held, place⟩ := known_place store mail validity uid spelled numbered valid named id known
    exact ⟨row, held, .inl place⟩
  next rfc unknown _ =>
    obtain ⟨row, held, bare⟩ := waiting _ (by simp) found
    exact ⟨row, held, .inr ⟨bare, unknown⟩⟩
  next unknown _ =>
    obtain ⟨row, held, bare⟩ := waiting _ (by simp +contextual) found
    exact ⟨row, held, .inr ⟨bare, unknown⟩⟩

theorem uidTaken_free (id : MessageId) (mail : Mail) (validity : Generation) (uid : Uid)
    (numbered : mail.server.uid = some uid) (valid : mail.server.uidValidity = some validity)
    (free : ∀ other row, store.get other = some row -> other ≠ id ->
      coordinates row ≠ some (mail.mailboxId, validity, uid)) : store.uidTaken id mail = false := by
  apply List.any_eq_false.mpr
  intro row member taken
  simp only [Bool.and_eq_true, decide_eq_true_eq, numbered, valid] at taken
  obtain ⟨⟨⟨⟨⟨other, here⟩, -⟩, counted⟩, -⟩, stamped⟩ := taken
  exact free row.id row (store.get_of_mem row member) other
    ((coordinates_eq_some row _ _ _).mpr ⟨here, stamped, counted⟩)

theorem existing_free (shelved : Shelved store)
    (numbered : mail.server.uid = some uid) (valid : mail.server.uidValidity = some validity)
    (named : mail.server.remoteId = some (remoteId validity uid)) (id : MessageId)
    (found : store.existing mail = some id) : store.uidTaken id mail = false := by
  obtain ⟨row, held, place⟩ := existing_place store mail validity uid shelved.spelled numbered valid named id found
  apply uidTaken_free store id mail validity uid numbered valid
  intro other later there past same
  rcases place with at_ | ⟨-, unknown⟩
  next =>
    apply past
    exact shelved.apart other id later row there held (same.trans at_.symm) (by simp [same])
  next => exact unknown_place store mail validity uid numbered valid unknown other later there same

theorem upsert_succeeds (shelved : Shelved store)
    (numbered : mail.server.uid = some uid) (valid : mail.server.uidValidity = some validity)
    (named : mail.server.remoteId = some (remoteId validity uid)) : ∃ next, store.upsert mail = some next := by
  -- A message the server holds is always written: over a row of its own, or one that waits for an identity, or anew.
  unfold Store.upsert
  cases found : store.existing mail with
  | some id =>
    obtain ⟨row, held, -⟩ := existing_place store mail validity uid shelved.spelled numbered valid named id found
    have free := existing_free store mail validity uid shelved numbered valid named id found
    dsimp only
    unfold Store.writeUpdate
    rw [held, store.uidTaken_reconciled, free]
    exact ⟨_, rfl⟩
  | none =>
    have unknown : store.known mail = none := by
      unfold Store.existing at found
      split at found
      next => cases found
      next unknown _ => exact unknown
      next unknown _ => exact unknown
    have free : store.uidTaken ⟨store.messages.nextId⟩ mail = false :=
      uidTaken_free store _ mail validity uid numbered valid (fun other row held _ =>
        unknown_place store mail validity uid numbered valid unknown other row held)
    dsimp only
    unfold Store.insert
    rw [free]
    exact ⟨_, rfl⟩

theorem filled_upsert (store : Store) (mail : Mail) (shelved : Shelved store)
    (from_ : Held mailbox folder mail) :
    ∃ next, store.upsert mail = some next ∧ Shelved next ∧ Filled mailbox folder store next := by
  obtain ⟨uid, listed, here, numbered, valid, named⟩ := from_
  obtain ⟨next, done⟩ := upsert_succeeds store mail folder.generation uid shelved numbered valid named
  have place : served mailbox folder mail = true :=
    (among_iff _ _ _ _).mpr ⟨uid, listed, (coordinates_eq_some mail _ _ _).mpr ⟨here, valid, numbered⟩⟩
  refine ⟨next, done, ⟨apart_upsert store next mail shelved.apart done, ?_⟩, ?_⟩
  next =>
    apply spelled_upsert store mail next done ?_ shelved.spelled
    intro name told
    rw [named] at told
    cases told
    exact ⟨folder.generation, uid, valid, numbered, rfl⟩
  rcases store.upsert_cases mail next done with ⟨id, row, covers⟩ | fresh
  next =>
    -- the row that is written over has the message's own coordinates, or none
    have stays : ∀ other, other ≠ id -> next.get other = store.get other := covers.others
    constructor
    next =>
      intro other later held
      by_cases on : other = id
      next =>
        subst on
        rw [covers.here] at held
        cases held
        right
        rw [← place]
        unfold served among
        rw [Store.written_server, Store.written_mailboxId]
        rfl
      next => exact .inl ((stays other on).symm.trans held)
    next =>
      intro other later held coordinated gone
      by_cases on : other = id
      next =>
        subst on
        obtain ⟨old, was, at_⟩ :=
          existing_place store mail folder.generation uid shelved.spelled numbered valid named other covers.found
        rw [was] at held
        cases held
        rcases at_ with same | ⟨bare, -⟩
        next =>
          have live : served mailbox folder later = true :=
            (among_iff _ _ _ _).mpr ⟨uid, listed, by rw [same, here]⟩
          rw [live] at gone
          cases gone
        next =>
          rw [bare] at coordinated
          cases coordinated
      next => exact (stays other on).trans held
    next => exact fun other held => store.upsert_held mail next done other held
  next =>
    constructor
    next =>
      intro other later held
      by_cases on : other = ⟨store.messages.nextId⟩
      next =>
        subst on
        rw [fresh.here] at held
        cases held
        exact .inr place
      next => exact .inl ((fresh.others other on).symm.trans held)
    next =>
      intro other later held _ _
      by_cases on : other = ⟨store.messages.nextId⟩
      next =>
        rw [on, store.get_next] at held
        cases held
      next => exact (fresh.others other on).trans held
    next => exact fun other held => store.upsert_held mail next done other held

theorem filled_upsertAll (batch : List Mail) (store : Store)
    (shelved : Shelved store) (from_ : ∀ mail ∈ batch, Held mailbox folder mail) :
    ∃ after, store.upsertAll batch = some after ∧ Shelved after ∧ Filled mailbox folder store after := by
  induction batch generalizing store with
  | nil => exact ⟨store, rfl, shelved, filled_refl mailbox folder store⟩
  | cons mail rest ih =>
    obtain ⟨next, step, kept, first⟩ := filled_upsert mailbox folder store mail shelved (from_ mail (List.mem_cons_self ..))
    obtain ⟨after, last, ends, second⟩ := ih next kept (fun other there => from_ other (List.mem_cons_of_mem mail there))
    refine ⟨after, ?_, ends, filled_trans mailbox folder store next after first second⟩
    change (store.upsert mail).bind _ = _
    rw [step]
    exact last

namespace Desk

variable (desk : Desk) (mailbox : Mailbox) (folder : Folder)

theorem filled_write (messages : List Pull.FetchedMessage)
    (shelved : Shelved desk.store) (from_ : ∀ message ∈ messages, message ∈ folder.messages) :
    ∃ after, desk.write mailbox messages = some after ∧ Shelved after.store ∧
      Filled mailbox.id folder desk.store after.store := by
  have batch : ∀ mail ∈ (messages.map (fun message => message.intoMessage mailbox.accountId mailbox.id)).filter
      desk.store.retained, Held mailbox.id folder mail := by
    intro mail there
    obtain ⟨message, told, rfl⟩ := List.mem_map.mp (List.mem_filter.mp there).1
    obtain ⟨validity, name⟩ := folder.named message (from_ message told)
    refine ⟨message.uid, List.mem_map_of_mem (from_ message told), rfl, rfl, ?_, ?_⟩
    next => exact congrArg some validity
    next => exact congrArg some name
  obtain ⟨after, done, kept, filled⟩ := filled_upsertAll mailbox.id folder _ desk.store shelved batch
  refine ⟨desk.withStore after, ?_, ⟨kept.apart, kept.spelled⟩,
    ⟨filled.arrived, filled.stays, filled.kept⟩⟩
  unfold write Store.upsertBatch
  rw [done]
  rfl

theorem filled_enumerate (coverage : Coverage) (shelved : Shelved desk.store) :
    ∃ after, desk.enumerate mailbox folder coverage = some after ∧ Shelved after.store ∧
      Filled mailbox.id folder desk.store after.store := by
  apply filled_write desk mailbox folder _ shelved
  intro message there
  exact (List.mem_filter.mp ((List.mem_insertionSort _).mp there)).1

theorem filled_shortfall (generation : Option Generation) (shelved : Shelved desk.store) :
    ∃ after, desk.fillShortfall mailbox folder generation = some after ∧
      Filled mailbox.id folder desk.store after.store := by
  unfold fillShortfall
  split
  next =>
    obtain ⟨after, done, -, filled⟩ := filled_enumerate desk mailbox folder .missing shelved
    exact ⟨after, done, filled⟩
  next => exact ⟨desk, rfl, filled_refl _ _ _⟩

/-! ### What is removed -/

theorem filter_all {Row : Type} (held : Option Row) : held.filter (fun _ => true) = held := by
  cases held with
  | none => rfl
  | some row => rfl

theorem get_deleted (gone : Mail -> Bool) (id : MessageId) :
    (desk.deleteMessages gone).store.get id = (desk.store.get id).filter (fun row => !gone row) :=
  desk.messages.get_remove gone id.get

theorem shelved_deleted (gone : Mail -> Bool) (shelved : Shelved desk.store) :
    Shelved (desk.deleteMessages gone).store :=
  ⟨apart_deleteMessages desk gone shelved.apart, spelled_deleteMessages desk gone shelved.spelled⟩

def swept (mailbox : MailboxId) (generation : Generation) (known : List Uid) (expectedGone : Nat) (present : List Uid)
    (row : Mail) : Bool :=
  decide ((known.filter (fun uid => !present.contains uid)).length = expectedGone) &&
    among mailbox generation (known.filter (fun uid => !present.contains uid)) row

theorem reconciled_deletes (mailbox : MailboxId) (generation : Generation) (known : List Uid)
    (expectedGone : Nat) (present : List Uid) (shelved : Shelved desk.store) :
    Shelved (desk.reconcileVanished mailbox generation known expectedGone present).1.store ∧
      ∀ id, (desk.reconcileVanished mailbox generation known expectedGone present).1.store.get id =
        (desk.store.get id).filter (fun row => !swept mailbox generation known expectedGone present row) := by
  unfold reconcileVanished swept
  dsimp only
  split
  next differ =>
    refine ⟨shelved, fun id => ?_⟩
    simp only [differ, decide_false, Bool.false_and, Bool.not_false]
    exact (filter_all _).symm
  next same =>
    refine ⟨shelved_deleted desk _ shelved, fun id => ?_⟩
    simp only [not_not.mp same, decide_true, Bool.true_and]
    exact get_deleted desk _ id

theorem swept_vanished (mailbox : MailboxId) (folder : Folder) (known : List Uid) (expectedGone : Nat) (row : Mail)
    (gone : swept mailbox folder.generation known expectedGone folder.existingUids row = true) :
    vanished mailbox folder row = true := by
  obtain ⟨uid, there, place⟩ := (among_iff _ _ _ _).mp (Bool.and_eq_true_iff.mp gone).2
  obtain ⟨here, -, -⟩ := (coordinates_eq_some row _ _ _).mp place
  have absent := (List.mem_filter.mp there).2
  refine (vanished_iff mailbox folder row).mpr ⟨here, by simp [place], ?_⟩
  rw [Bool.eq_false_iff]
  intro live
  obtain ⟨other, listed, again⟩ := (among_iff _ _ _ _).mp live
  rw [place] at again
  cases again
  simp [listed] at absent

end Desk

end Postio.Drafts

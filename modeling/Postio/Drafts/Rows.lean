import Mathlib.Data.Char
import Mathlib.Data.List.Lex
import Postio.Pull.Marker
import Postio.Store.MailStore
import Postio.Pull.MailRows

set_option autoImplicit false

namespace Postio.Drafts

open Pull

/-- A draft's row: the message row that lists it, and the copy the server keeps of it. -/
structure DraftRecord where
  id : DraftId
  accountId : AccountId
  messageId : Option MessageId
  remoteId : Option RemoteId
  deriving DecidableEq

/-- Where an appended draft landed. -/
structure ServerCopyLocation where
  remoteId : RemoteId
  uid : Uid
  uidValidity : Generation
  deriving DecidableEq

/-- What a composer gives a save: the account, the identity it knows of the server's copy, and the message to list. -/
structure Composed where
  accountId : AccountId
  remoteId : Option RemoteId
  message : Mail
  deriving DecidableEq

/-- The rows of `messages` and of `drafts`, with what the writers of either read. -/
structure Desk where
  messages : Table Mail (fun mail => mail.id.get)
  drafts : Table DraftRecord (fun draft => draft.id.get)
  queue : OperationQueue
  mailboxes : List Mailbox

namespace Desk

def draftOf (record : DraftRecord) : Pull.Draft :=
  { accountId := record.accountId, messageId := record.messageId, remoteId := record.remoteId }

variable (desk : Desk) (id : DraftId) (accountId : AccountId)

def store : Store :=
  { messages := desk.messages, queue := desk.queue, drafts := desk.drafts.rows.map draftOf, mailboxes := desk.mailboxes }

def withStore (store : Store) : Desk :=
  { desk with messages := store.messages, queue := store.queue }

def record : Option DraftRecord := desk.drafts.get id.get

def byRole (role : MailboxRole) : Option Mailbox :=
  ((desk.mailboxes.filter (fun row => row.accountId = accountId && row.role = role && row.selectable)).insertionSort
    (fun first second => first.path ≤ second.path)).head?

def setRecord (change : DraftRecord -> DraftRecord)
    (kept : ∀ record, (change record).id.get = record.id.get) : Desk :=
  { desk with drafts := desk.drafts.updateAt id.get change kept }

/-! ### The row that lists a draft -/

def listed (mailbox : MailboxId) (message : Mail) : Mail :=
  -- The message is built new, so that it names nothing on the server.
  { message with
    accountId
    mailboxId := mailbox
    server := { uid := none, uidValidity := none, modSeq := none, remoteId := none }
    sync := { flagsDirty := false, hasPendingOperations := false, deletedLocally := false } }

def listRow (message : Mail) : Option Desk :=
  -- Keeps the draft's row in the Drafts folder in step with the draft, where the account has such a folder.
  match desk.byRole accountId .drafts with
  | none => some desk
  | some mailbox =>
    match (desk.record id).bind (fun record => record.messageId) with
    | some row => (desk.store.writeUpdate row (listed accountId mailbox.id message)).map desk.withStore
    | none =>
      (desk.store.insert (listed accountId mailbox.id message)).map (fun store =>
        (desk.withStore store).setRecord id (fun record => { record with messageId := some ⟨desk.messages.nextId⟩ })
          (fun _ => rfl))

def save (desk : Desk) (id : Option DraftId) (composed : Composed) : Option Desk :=
  -- An identity the composer does not know is kept. A save that fails leaves nothing written.
  match id with
  | some id =>
    match desk.record id with
    | none => none
    | some _ =>
      (desk.setRecord id (fun record =>
        { record with accountId := composed.accountId, remoteId := composed.remoteId.or record.remoteId })
        (fun _ => rfl)).listRow id composed.accountId composed.message
  | none =>
    Desk.listRow { desk with
        drafts := desk.drafts.insert (fun id =>
          { id := ⟨id⟩, accountId := composed.accountId, messageId := none, remoteId := composed.remoteId })
          (fun _ => rfl) }
      ⟨desk.drafts.nextId⟩ composed.accountId composed.message

def deleteMessages (gone : Mail -> Bool) : Desk :=
  -- A row that is deleted is no draft's any more.
  { desk with
    messages := desk.messages.remove gone
    drafts := desk.drafts.update (fun record =>
      if record.messageId.any (fun id => (desk.messages.get id.get).any gone) then { record with messageId := none }
      else record) (fun record => by
        split
        next => rfl
        next => rfl) }

def stray (record : DraftRecord) (remoteId : RemoteId) (row : Mail) : Bool :=
  -- A row of the account's Drafts mailboxes that is the very copy, and not the draft's own.
  row.server.remoteId = some remoteId && !(record.messageId = some row.id) &&
    desk.mailboxes.any (fun mailbox =>
      mailbox.id = row.mailboxId && mailbox.accountId = record.accountId && mailbox.role = .drafts)

def located (location : Option ServerCopyLocation) (row : Mail) : Mail :=
  { row with
    server :=
      { row.server with
        uid := location.map (fun location => location.uid)
        uidValidity := location.map (fun location => location.uidValidity)
        remoteId := location.map (fun location => location.remoteId) } }

def nameCopy (record : DraftRecord) (location : Option ServerCopyLocation) : Option Desk :=
  -- The second write of `set_server_copy`: the stray row goes, and the draft's own row names the copy.
  let cleared :=
    match location with
    | none => desk
    | some location => desk.deleteMessages (desk.stray record location.remoteId)
  match record.messageId with
  | none => some cleared
  | some id =>
    match cleared.store.get id with
    | none => some cleared
    | some row =>
      if cleared.store.uidTaken id (located location row) then none
      else some { cleared with messages := cleared.messages.updateAt id.get (located location) (fun _ => rfl) }

def setServerCopy (location : Option ServerCopyLocation) : Desk :=
  -- The draft's own row is written first, and stays written where the second write fails.
  match desk.record id with
  | none => desk
  | some record =>
    let named := desk.setRecord id (fun record =>
      { record with remoteId := location.map (fun location => location.remoteId) }) (fun _ => rfl)
    (named.nameCopy record location).getD named

def setSyncedMessage (message : MessageId) : Desk :=
  desk.setRecord id (fun record => { record with messageId := some message }) (fun _ => rfl)

def deleteDraft : Desk :=
  -- The draft's row in the folder goes with it.
  match desk.record id with
  | none => desk
  | some record =>
    let unlisted := desk.deleteMessages (fun row => record.messageId = some row.id)
    { unlisted with drafts := unlisted.drafts.removeAt id.get }

/-! ### Every writer -/

inductive Event where
  | save (id : Option DraftId) (composed : Composed)
  | setServerCopy (id : DraftId) (location : Option ServerCopyLocation)
  | setSyncedMessage (id : DraftId) (message : MessageId)
  | deleteDraft (id : DraftId)
  | delete (ids : List MessageId)
  | mail (event : Pull.Event)
  | adopts (id : MessageId) (mailboxId : MailboxId) (uid : Uid) (uidValidity : Generation) (remoteId : RemoteId)
  -- A mailbox is found, or found to have changed.
  | discover (mailbox : Mailbox)

def step (desk : Desk) : Event -> Desk
  | .save id composed => (desk.save id composed).getD desk
  | .setServerCopy id location => desk.setServerCopy id location
  | .setSyncedMessage id message => desk.setSyncedMessage id message
  | .deleteDraft id => desk.deleteDraft id
  | .delete ids => desk.deleteMessages (fun row => ids.contains row.id)
  | .mail event => desk.withStore (desk.store.step event)
  | .adopts id mailboxId uid uidValidity remoteId =>
    desk.withStore (desk.store.adoptMovedIdentity id mailboxId uid uidValidity remoteId)
  | .discover mailbox => { desk with mailboxes := desk.mailboxes.filter (fun row => row.id ≠ mailbox.id) ++ [mailbox] }

def empty : Desk where
  messages := Table.empty _
  drafts := Table.empty _
  queue := .empty
  mailboxes := []

end Desk

open Pull

/-! What `idx_messages_uid` keeps: no two rows of a mailbox have one UID in one generation. -/

def coordinates (row : Mail) : Option (MailboxId × Generation × Uid) :=
  row.server.uid.bind (fun uid => row.server.uidValidity.map (fun validity => (row.mailboxId, validity, uid)))

theorem coordinates_eq_some (row : Mail) (mailbox : MailboxId) (generation : Generation) (uid : Uid) :
    coordinates row = some (mailbox, generation, uid) <->
      row.mailboxId = mailbox ∧ row.server.uidValidity = some generation ∧ row.server.uid = some uid := by
  unfold coordinates
  cases row.server.uid with
  | none => simp
  | some named =>
    cases row.server.uidValidity with
    | none => simp
    | some validity => simp

def Apart (store : Store) : Prop :=
  ∀ id other row later, store.get id = some row -> store.get other = some later ->
    coordinates row = coordinates later -> (coordinates row).isSome -> id = other

structure Sparser (before after : Store) : Prop where
  kept : ∀ id row, after.get id = some row ->
    coordinates row = none ∨ ∃ old, before.get id = some old ∧ coordinates row = coordinates old

theorem apart_sparser (before after : Store) (sparser : Sparser before after) (apart : Apart before) : Apart after := by
  intro id other row later held there same named
  rcases sparser.kept id row held with lost | ⟨old, was, kept⟩
  next =>
    rw [lost] at named
    cases named
  next =>
    rcases sparser.kept other later there with lost | ⟨second, had, stays⟩
    next =>
      rw [same, lost] at named
      cases named
    next =>
      apply apart id other old second was had (kept.symm.trans (same.trans stays))
      rw [← kept]
      exact named

theorem apart_placed (before after : Store) (placed : MessageId) (row : Mail) (apart : Apart before)
    (here : after.get placed = some row) (others : ∀ other, other ≠ placed -> after.get other = before.get other)
    (free : ∀ other later, other ≠ placed -> before.get other = some later -> (coordinates row).isSome ->
      coordinates row ≠ coordinates later) : Apart after := by
  -- One row is placed where no other is.
  intro id other first second held there same named
  by_cases on : id = placed
  next =>
    by_cases too : other = placed
    next => exact on.trans too.symm
    next =>
      subst on
      rw [here] at held
      cases held
      rw [others other too] at there
      exact absurd same (free other second too there named)
  next =>
    rw [others id on] at held
    by_cases too : other = placed
    next =>
      subst too
      rw [here] at there
      cases there
      rw [same] at named
      exact absurd same.symm (free id first on held named)
    next =>
      rw [others other too] at there
      exact apart id other first second held there same named

theorem free_coordinates (store : Store) (id : MessageId) (mail : Mail) (free : store.uidTaken id mail = false)
    (other : MessageId) (row : Mail) (apart : other ≠ id) (held : store.get other = some row)
    (named : (coordinates mail).isSome) : coordinates mail ≠ coordinates row := by
  intro same
  obtain ⟨⟨mailbox, generation, uid⟩, place⟩ := Option.isSome_iff_exists.mp named
  obtain ⟨mailboxId, validity, uids⟩ := (coordinates_eq_some mail mailbox generation uid).mp place
  obtain ⟨mailboxId', validity', uids'⟩ := (coordinates_eq_some row mailbox generation uid).mp (same.symm.trans place)
  have none := List.any_eq_false.mp free row (store.get_mem other row held)
  have named := store.get_id other row held
  simp [named, apart, mailboxId, mailboxId', validity, validity', uids, uids'] at none

theorem coordinates_written (mail row : Mail) : coordinates (Store.written mail row) = coordinates mail := by
  unfold Store.written Store.keepFetchedContent
  split
  next =>
    split
    next => rfl
    next => rfl
  next => rfl

theorem apart_writeUpdate (store next : Store) (id : MessageId) (mail : Mail) (apart : Apart store)
    (done : store.writeUpdate id mail = some next) : Apart next := by
  unfold Store.writeUpdate at done
  split at done
  next => cases done
  next passed =>
    simp only [Bool.or_eq_true, not_or, Bool.not_eq_true, Option.isNone_eq_false_iff] at passed
    obtain ⟨row, held⟩ := Option.isSome_iff_exists.mp passed.1
    cases done
    refine apart_placed store _ id (Store.written mail row) apart ?_ ?_ ?_
    next =>
      have now := store.messages.get_updateAt id.get (Store.written mail) (fun _ => rfl) id.get
      rw [if_pos rfl] at now
      change _ = (store.get id).map _ at now
      rw [held] at now
      exact now
    next =>
      intro other past
      have now := store.messages.get_updateAt id.get (Store.written mail) (fun _ => rfl) other.get
      rw [if_neg (Store.get_ne id other past)] at now
      exact now
    next =>
      intro other later past there named
      rw [coordinates_written] at named ⊢
      exact free_coordinates store id mail passed.2 other later past there named

theorem apart_insert (store next : Store) (mail : Mail) (apart : Apart store) (done : store.insert mail = some next) :
    Apart next := by
  unfold Store.insert at done
  split at done
  next => cases done
  next passed =>
    cases done
    refine apart_placed store _ ⟨store.messages.nextId⟩ (Store.inserted mail store.messages.nextId) apart ?_ ?_ ?_
    next =>
      have now := store.messages.get_insert (Store.inserted mail) (fun _ => rfl) store.messages.nextId
      rw [if_pos rfl] at now
      exact now
    next =>
      intro other past
      have now := store.messages.get_insert (Store.inserted mail) (fun _ => rfl) other.get
      rw [if_neg (Store.get_ne ⟨store.messages.nextId⟩ other past)] at now
      exact now
    next =>
      intro other later past there named
      exact free_coordinates store _ mail (by simpa using passed) other later past there named

theorem apart_upsert (store next : Store) (mail : Mail) (apart : Apart store) (done : store.upsert mail = some next) :
    Apart next := by
  unfold Store.upsert at done
  split at done
  next id _ => exact apart_writeUpdate store next id _ apart done
  next => exact apart_insert store next mail apart done

theorem apart_upsertBatch (store : Store) (batch : List Mail) (apart : Apart store) :
    Apart ((store.upsertBatch batch).getD store) := by
  cases done : store.upsertBatch batch with
  | none => exact apart
  | some after =>
    exact Store.upsertAll_invariant Apart _ (fun before mail next _ step held => apart_upsert before next mail held step)
      store after done apart

theorem sparser_updateWhere (store : Store) (queue : OperationQueue) (chosen : Mail -> Bool) (change : Mail -> Mail)
    (kept : ∀ row, (change row).id = row.id)
    (places : ∀ row, coordinates (change row) = none ∨ coordinates (change row) = coordinates row) :
    Sparser store ({ store with queue := queue : Store }.updateWhere chosen change kept) where
  kept := by
    intro id row held
    have rows := ({ store with queue := queue : Store }).get_updateWhere chosen change kept id
    rw [rows] at held
    obtain ⟨old, was, same⟩ := Option.map_eq_some_iff.mp held
    subst same
    split
    next =>
      rcases places old with lost | stays
      next => exact .inl lost
      next => exact .inr ⟨old, was, stays⟩
    next => exact .inr ⟨old, was, rfl⟩

theorem sparser_queue (store : Store) (queue : OperationQueue) : Sparser store { store with queue } where
  kept := fun _ row held => .inr ⟨row, held, rfl⟩

theorem apart_event (store : Store) (event : Pull.Event) (apart : Apart store) : Apart (store.step event) := by
  have marks : ∀ (queue : OperationQueue) (chosen : Mail -> Bool) (pending : Bool),
      Sparser store ({ store with queue := queue : Store }.updateWhere chosen (Store.marked pending) (fun _ => rfl)) :=
    fun queue chosen pending => sparser_updateWhere store queue chosen _ _ (fun _ => .inr rfl)
  cases event with
  | pull batch => exact apart_upsertBatch store batch apart
  | enqueue accountId target operation now notBefore => exact apart_sparser store _ (marks _ _ _) apart
  | enqueueSet accountId set operation now =>
    change Apart (store.enqueueSet accountId set operation now)
    unfold Store.enqueueSet
    split
    next => exact apart_sparser store _ (marks _ _ _) apart
    next => exact apart
  | enqueueMany accountId ids operation now =>
    change Apart (store.enqueueMany accountId ids operation now)
    unfold Store.enqueueMany
    split
    next => exact apart
    next => exact apart_sparser store _ (marks _ _ _) apart
  | mark id state now error countAttempt =>
    change Apart (store.setState id state now error countAttempt)
    unfold Store.setState
    split
    next => exact apart_sparser store _ (marks _ _ _) apart
    next => exact apart
  | defer id retryAt error =>
    change Apart (store.defer id retryAt error)
    unfold Store.defer
    split
    next => exact apart_sparser store _ (sparser_queue store _) apart
    next => exact apart
  | requeue accountId now => exact apart_sparser store _ (sparser_queue store _) apart
  | delete id =>
    change Apart (store.delete id)
    unfold Store.delete
    split
    next => exact apart_sparser store _ (marks _ _ _) apart
    next => exact apart
  | prune accountId before => exact apart_sparser store _ (sparser_queue store _) apart
  | hide ids deleted =>
    refine apart_sparser store _ ?_ apart
    exact sparser_updateWhere store store.queue (fun row => row.id ∈ ids)
      (fun row => { row with sync := { row.sync with deletedLocally := deleted, hasPendingOperations := deleted } })
      (fun _ => rfl) (fun _ => .inr rfl)
  | moveTo ids mailboxId =>
    refine apart_sparser store _ ?_ apart
    exact sparser_updateWhere store store.queue (fun row => row.id ∈ ids)
      (fun row => { Store.moved mailboxId row with rfcMessageId := row.rfcMessageId.map lower }) (fun _ => rfl)
      (fun _ => .inl rfl)
  | moveSet set mailboxId =>
    refine apart_sparser store _ ?_ apart
    exact sparser_updateWhere store store.queue set (Store.moved mailboxId) (fun _ => rfl) (fun _ => .inl rfl)

theorem apart_adopt (store : Store) (id : MessageId) (mailboxId : MailboxId) (uid : Uid) (uidValidity : Generation)
    (remoteId : RemoteId) (apart : Apart store) : Apart (store.adoptMovedIdentity id mailboxId uid uidValidity remoteId) := by
  unfold Store.adoptMovedIdentity
  split
  next => exact apart
  next row held =>
    split
    next fits =>
      simp only [Bool.and_eq_true, Bool.not_eq_true'] at fits
      refine apart_placed store _ id (Store.named uid uidValidity remoteId row) apart ?_ ?_ ?_
      next =>
        have now := store.messages.get_updateAt id.get (Store.named uid uidValidity remoteId) (fun _ => rfl) id.get
        rw [if_pos rfl] at now
        change _ = (store.get id).map _ at now
        rw [held] at now
        exact now
      next =>
        intro other past
        have now := store.messages.get_updateAt id.get (Store.named uid uidValidity remoteId) (fun _ => rfl) other.get
        rw [if_neg (Store.get_ne id other past)] at now
        exact now
      next =>
        intro other later past there named
        exact free_coordinates store id _ fits.2 other later past there named
    next => exact apart

/-! ### The writers of drafts -/

namespace Desk

variable (desk after : Desk)

theorem apart_congr (messages : after.messages = desk.messages) (apart : Apart desk.store) :
    Apart after.store := by
  intro id other row later held there
  apply apart id other row later
  next =>
    change desk.messages.get id.get = _
    rw [← messages]
    exact held
  next =>
    change desk.messages.get other.get = _
    rw [← messages]
    exact there

theorem apart_withStore (store : Store) (apart : Apart store) : Apart (desk.withStore store).store := apart

theorem apart_deleteMessages (gone : Mail -> Bool) (apart : Apart desk.store) :
    Apart (desk.deleteMessages gone).store := by
  apply apart_sparser desk.store _ ?_ apart
  constructor
  intro id row held
  have now := desk.messages.get_remove gone id.get
  change (desk.messages.remove gone).get id.get = some row at held
  rw [now] at held
  obtain ⟨was, -⟩ := Option.filter_eq_some_iff.mp held
  exact .inr ⟨row, was, rfl⟩

theorem apart_listRow (id : DraftId) (accountId : AccountId) (message : Mail)
    (apart : Apart desk.store) (done : desk.listRow id accountId message = some after) : Apart after.store := by
  unfold listRow at done
  split at done
  next =>
    cases done
    exact apart
  next =>
    split at done
    next row _ =>
      obtain ⟨store, written, same⟩ := Option.map_eq_some_iff.mp done
      subst same
      exact apart_writeUpdate desk.store store row _ apart written
    next =>
      obtain ⟨store, written, same⟩ := Option.map_eq_some_iff.mp done
      subst same
      exact apart_insert desk.store store _ apart written

theorem apart_save (id : Option DraftId) (composed : Composed) (apart : Apart desk.store) :
    Apart ((desk.save id composed).getD desk).store := by
  cases done : desk.save id composed with
  | none => exact apart
  | some after =>
    unfold save at done
    split at done
    next =>
      split at done
      next => cases done
      next =>
        refine apart_listRow _ after _ _ _ ?_ done
        exact apart_congr desk _ rfl apart
    next =>
      refine apart_listRow _ after _ _ _ ?_ done
      exact apart_congr desk _ rfl apart

theorem apart_nameCopy (record : DraftRecord) (location : Option ServerCopyLocation)
    (apart : Apart desk.store) (done : desk.nameCopy record location = some after) : Apart after.store := by
  unfold nameCopy at done
  extract_lets cleared at done
  have clear : Apart cleared.store := by
    cases location with
    | none => exact apart
    | some location => exact apart_deleteMessages desk _ apart
  split at done
  next =>
    rw [← Option.some.inj done]
    exact clear
  next id _ =>
    split at done
    next =>
      rw [← Option.some.inj done]
      exact clear
    next row held =>
      split at done
      next => cases done
      next free =>
        rw [← Option.some.inj done]
        refine apart_placed cleared.store _ id (located location row) clear ?_ ?_ ?_
        next =>
          have now := cleared.messages.get_updateAt id.get (located location) (fun _ => rfl) id.get
          rw [if_pos rfl] at now
          change _ = (cleared.store.get id).map _ at now
          rw [held] at now
          exact now
        next =>
          intro other past
          have now := cleared.messages.get_updateAt id.get (located location) (fun _ => rfl) other.get
          rw [if_neg (Store.get_ne id other past)] at now
          exact now
        next =>
          intro other later past there named
          exact free_coordinates cleared.store id _ (by simpa using free) other later past there named

theorem apart_step (event : Event) (apart : Apart desk.store) : Apart (desk.step event).store := by
  cases event with
  | save id composed => exact apart_save desk id composed apart
  | setSyncedMessage id message => exact apart_congr desk _ rfl apart
  | delete ids => exact apart_deleteMessages desk _ apart
  | mail event => exact apart_withStore desk _ (apart_event desk.store event apart)
  | adopts id mailboxId uid uidValidity remoteId =>
    exact apart_withStore desk _ (apart_adopt desk.store id mailboxId uid uidValidity remoteId apart)
  | discover mailbox => exact apart_congr desk _ rfl apart
  | setServerCopy id location =>
    change Apart (desk.setServerCopy id location).store
    unfold setServerCopy
    split
    next => exact apart
    next record _ =>
      have named : Apart (desk.setRecord id (fun record =>
          { record with remoteId := location.map (fun location => location.remoteId) }) (fun _ => rfl)).store :=
        apart_congr desk _ rfl apart
      dsimp only
      cases done : Desk.nameCopy _ record location with
      | none => exact named
      | some after => exact apart_nameCopy _ after record location named done
  | deleteDraft id =>
    change Apart (desk.deleteDraft id).store
    unfold deleteDraft
    split
    next => exact apart
    next => exact apart_congr _ _ rfl (apart_deleteMessages desk _ apart)

theorem apart_run (events : List Event) : Apart (Run.run step empty events).store := by
  apply Run.run_kept step (fun desk => Apart desk.store) apart_step empty events
  intro id other row later held
  cases held

end Desk

end Postio.Drafts

import Postio.Drafts.ShortOfExists
import Postio.Pull.FlagIntents

set_option autoImplicit false

namespace Postio.Drafts

open Pull

/-! A row that names a message of the server has its UID, and the name is the pair. -/

def SpelledBy (server : ServerIdentifiers) : Prop :=
  ∀ name, server.remoteId = some name ->
    ∃ validity uid, server.uidValidity = some validity ∧ server.uid = some uid ∧ name = remoteId validity uid

variable (store : Store) (batch : List Mail) (id : MessageId)

def Spelled : Prop := ∀ id row, store.get id = some row -> SpelledBy row.server

theorem remoteId_inj (validity other : Generation) (uid later : Uid) (same : remoteId validity uid = remoteId other later) :
    validity = other ∧ uid = later := by
  have pairs := Nat.pair_eq_pair.mp (congrArg RemoteId.get same)
  constructor
  next =>
    cases validity
    cases other
    exact congrArg Generation.mk pairs.1
  next => exact pairs.2

theorem nameless_spelled (server : ServerIdentifiers) (nameless : server.remoteId = none) : SpelledBy server := by
  intro name named
  rw [nameless] at named
  cases named

def From (server : ServerIdentifiers) : Prop :=
  server.remoteId = none ∨ (∃ old, store.get id = some old ∧ server = old.server) ∨ ∃ mail ∈ batch, server = mail.server

theorem from_self (row : Mail) (held : store.get id = some row) :
    From store batch id row.server := .inr (.inl ⟨row, held, rfl⟩)

theorem from_updateWhere (queue : OperationQueue) (chosen : Mail -> Bool) (change : Mail -> Mail)
    (kept : ∀ row, (change row).id = row.id)
    (servers : ∀ row, (change row).server.remoteId = none ∨ (change row).server = row.server) (id : MessageId) (row : Mail)
    (held : ({ store with queue := queue : Store }.updateWhere chosen change kept).get id = some row) :
    From store [] id row.server := by
  rw [({ store with queue := queue : Store }).get_updateWhere chosen change kept id] at held
  obtain ⟨old, was, same⟩ := Option.map_eq_some_iff.mp held
  subst same
  split
  next =>
    rcases servers old with nameless | stays
    next => exact .inl nameless
    next => exact .inr (.inl ⟨old, was, stays⟩)
  next => exact from_self store [] id old was

theorem from_upsert (mail : Mail) (next : Store) (done : store.upsert mail = some next) (id : MessageId)
    (row : Mail) (held : next.get id = some row) : From store [mail] id row.server := by
  rcases store.upsert_cases mail next done with ⟨placed, old, covers⟩ | fresh
  next =>
    by_cases here : id = placed
    next =>
      subst here
      rw [covers.here] at held
      cases held
      exact .inr (.inr ⟨mail, List.mem_cons_self .., Store.written_server _ _⟩)
    next =>
      rw [covers.others id here] at held
      exact from_self store _ id row held
  next =>
    by_cases here : id = ⟨store.messages.nextId⟩
    next =>
      subst here
      rw [fresh.here] at held
      cases held
      exact .inr (.inr ⟨mail, List.mem_cons_self .., rfl⟩)
    next =>
      rw [fresh.others id here] at held
      exact from_self store _ id row held

theorem spelled_upsert (mail : Mail) (next : Store) (done : store.upsert mail = some next)
    (named : SpelledBy mail.server) (spelled : Spelled store) : Spelled next := by
  intro id row held
  rcases from_upsert store mail next done id row held with nameless | ⟨old, was, same⟩ | ⟨other, there, same⟩
  next => exact nameless_spelled row.server nameless
  next =>
    rw [same]
    exact spelled id old was
  next =>
    rw [same, List.mem_singleton.mp there]
    exact named

theorem spelled_upsertBatch (named : ∀ mail ∈ batch, SpelledBy mail.server)
    (spelled : Spelled store) : Spelled ((store.upsertBatch batch).getD store) := by
  cases done : store.upsertBatch batch with
  | none => exact spelled
  | some after =>
    apply Store.upsertAll_invariant Spelled _ ?_ store after done spelled
    intro middle mail next member step held
    exact spelled_upsert middle mail next step (named mail (List.mem_filter.mp member).1) held

theorem spelled_from (before after : Store) (origin : ∀ id row, after.get id = some row -> From before [] id row.server)
    (spelled : Spelled before) : Spelled after := by
  intro id row held
  rcases origin id row held with nameless | ⟨old, was, same⟩ | ⟨mail, there, -⟩
  next => exact nameless_spelled row.server nameless
  next =>
    rw [same]
    exact spelled id old was
  next => cases there

def Told : Pull.Event -> Prop
  | .pull batch => ∀ mail ∈ batch, SpelledBy mail.server
  | _ => True

theorem spelled_event (event : Pull.Event) (told : Told event) (spelled : Spelled store) :
    Spelled (store.step event) := by
  have marks : ∀ (queue : OperationQueue) (chosen : Mail -> Bool) (pending : Bool),
      Spelled ({ store with queue := queue : Store }.updateWhere chosen (Store.marked pending) (fun _ => rfl)) :=
    fun queue chosen pending => spelled_from store _
      (from_updateWhere store queue chosen (Store.marked pending) (fun _ => rfl) (fun _ => .inr rfl)) spelled
  cases event with
  | pull batch => exact spelled_upsertBatch store batch told spelled
  | enqueue accountId target operation now notBefore => exact marks _ _ _
  | enqueueSet accountId set operation now =>
    change Spelled (store.enqueueSet accountId set operation now)
    unfold Store.enqueueSet
    split
    next => exact marks _ _ _
    next => exact spelled
  | enqueueMany accountId ids operation now =>
    change Spelled (store.enqueueMany accountId ids operation now)
    unfold Store.enqueueMany
    split
    next => exact spelled
    next => exact marks _ _ _
  | mark id state now error countAttempt =>
    change Spelled (store.setState id state now error countAttempt)
    unfold Store.setState
    split
    next => exact marks _ _ _
    next => exact spelled
  | defer id retryAt error =>
    change Spelled (store.defer id retryAt error)
    unfold Store.defer
    split
    next => exact spelled
    next => exact spelled
  | requeue accountId now => exact spelled
  | delete id =>
    change Spelled (store.delete id)
    unfold Store.delete
    split
    next => exact marks _ _ _
    next => exact spelled
  | prune accountId before => exact spelled
  | hide ids deleted =>
    refine spelled_from store _ ?_ spelled
    exact from_updateWhere store store.queue (fun row => row.id ∈ ids)
      (fun row => { row with sync := { row.sync with deletedLocally := deleted, hasPendingOperations := deleted } })
      (fun _ => rfl) (fun _ => .inr rfl)
  | moveTo ids mailboxId =>
    refine spelled_from store _ ?_ spelled
    exact from_updateWhere store store.queue (fun row => row.id ∈ ids)
      (fun row => { Store.moved mailboxId row with rfcMessageId := row.rfcMessageId.map lower }) (fun _ => rfl)
      (fun _ => .inl rfl)
  | moveSet set mailboxId =>
    refine spelled_from store _ ?_ spelled
    exact from_updateWhere store store.queue set (Store.moved mailboxId) (fun _ => rfl) (fun _ => .inl rfl)

theorem spelled_placed (before after : Store) (placed : MessageId)
    (here : ∀ row, after.get placed = some row -> SpelledBy row.server)
    (others : ∀ other, other ≠ placed -> after.get other = before.get other) (spelled : Spelled before) :
    Spelled after := by
  -- One row is renamed in place.
  intro id row held
  by_cases on : id = placed
  next =>
    rw [on] at held
    exact here row held
  next =>
    rw [others id on] at held
    exact spelled id row held

theorem spelled_updateAt (change : Mail -> Mail)
    (kept : ∀ row, (change row).id.get = row.id.get) (named : ∀ row, SpelledBy (change row).server)
    (spelled : Spelled store) : Spelled { store with messages := store.messages.updateAt id.get change kept } := by
  refine spelled_placed store _ id ?_ ?_ spelled
  next =>
    intro row held
    have now := store.messages.get_updateAt id.get change kept id.get
    rw [if_pos rfl] at now
    obtain ⟨old, -, same⟩ := Option.map_eq_some_iff.mp (now.symm.trans held)
    rw [← same]
    exact named old
  next =>
    intro other past
    have now := store.messages.get_updateAt id.get change kept other.get
    rw [if_neg (Store.get_ne id other past)] at now
    exact now

theorem spelled_adopt (mailboxId : MailboxId) (uid : Uid) (uidValidity : Generation)
    (spelled : Spelled store) :
    Spelled (store.adoptMovedIdentity id mailboxId uid uidValidity (remoteId uidValidity uid)) := by
  unfold Store.adoptMovedIdentity
  split
  next => exact spelled
  next row held =>
    split
    next =>
      refine spelled_updateAt store id (Store.named uid uidValidity (remoteId uidValidity uid)) (fun _ => rfl) ?_ spelled
      intro old name named
      cases named
      exact ⟨uidValidity, uid, rfl, rfl, rfl⟩
    next => exact spelled

/-! ### The writers of drafts -/

namespace Desk

variable (desk after : Desk)

theorem spelled_congr (messages : after.messages = desk.messages) (spelled : Spelled desk.store) :
    Spelled after.store := by
  intro id row held
  apply spelled id row
  change desk.messages.get id.get = _
  rw [← messages]
  exact held

theorem spelled_deleteMessages (gone : Mail -> Bool) (spelled : Spelled desk.store) :
    Spelled (desk.deleteMessages gone).store := by
  intro id row held
  change (desk.messages.remove gone).get id.get = some row at held
  rw [desk.messages.get_remove gone id.get] at held
  exact spelled id row (Option.filter_eq_some_iff.mp held).1

theorem spelled_listRow (id : DraftId) (accountId : AccountId) (message : Mail)
    (spelled : Spelled desk.store) (done : desk.listRow id accountId message = some after) : Spelled after.store := by
  unfold listRow at done
  split at done
  next =>
    cases done
    exact spelled
  next mailbox _ =>
    -- the row is built with no name of the server's
    split at done
    next row _ =>
      obtain ⟨store, written, same⟩ := Option.map_eq_some_iff.mp done
      subst same
      unfold Store.writeUpdate at written
      split at written
      next => cases written
      next =>
        rw [← Option.some.inj written]
        refine spelled_updateAt desk.store row (Store.written (listed accountId mailbox.id message)) (fun _ => rfl) ?_ spelled
        intro old
        rw [Store.written_server]
        exact nameless_spelled _ rfl
    next =>
      obtain ⟨store, written, same⟩ := Option.map_eq_some_iff.mp done
      subst same
      unfold Store.insert at written
      split at written
      next => cases written
      next =>
        cases written
        refine spelled_placed desk.store _ ⟨desk.messages.nextId⟩ ?_ ?_ spelled
        next =>
          intro row held
          have now := desk.messages.get_insert (Store.inserted (listed accountId mailbox.id message)) (fun _ => rfl)
            desk.messages.nextId
          rw [if_pos rfl] at now
          rw [← Option.some.inj (now.symm.trans held)]
          exact nameless_spelled _ rfl
        next =>
          intro other past
          have now := desk.messages.get_insert (Store.inserted (listed accountId mailbox.id message)) (fun _ => rfl)
            other.get
          rw [if_neg (Store.get_ne ⟨desk.messages.nextId⟩ other past)] at now
          exact now

theorem spelled_save (id : Option DraftId) (composed : Composed) (spelled : Spelled desk.store) :
    Spelled ((desk.save id composed).getD desk).store := by
  cases done : desk.save id composed with
  | none => exact spelled
  | some after =>
    unfold save at done
    split at done
    next =>
      split at done
      next => cases done
      next =>
        refine spelled_listRow _ after _ _ _ ?_ done
        exact spelled_congr desk _ rfl spelled
    next =>
      refine spelled_listRow _ after _ _ _ ?_ done
      exact spelled_congr desk _ rfl spelled

theorem spelled_nameCopy (record : DraftRecord) (location : Option ServerCopyLocation)
    (told : ∀ copy, location = some copy -> copy.remoteId = remoteId copy.uidValidity copy.uid)
    (spelled : Spelled desk.store) (done : desk.nameCopy record location = some after) : Spelled after.store := by
  unfold nameCopy at done
  extract_lets cleared at done
  have clear : Spelled cleared.store := by
    cases location with
    | none => exact spelled
    | some location => exact spelled_deleteMessages desk _ spelled
  split at done
  next =>
    rw [← Option.some.inj done]
    exact clear
  next id _ =>
    split at done
    next =>
      rw [← Option.some.inj done]
      exact clear
    next =>
      split at done
      next => cases done
      next =>
        rw [← Option.some.inj done]
        refine spelled_updateAt cleared.store id (located location) (fun _ => rfl) ?_ clear
        intro row name named
        cases location with
        | none => cases named
        | some copy =>
          cases named
          exact ⟨copy.uidValidity, copy.uid, rfl, rfl, told copy rfl⟩

/-- What an event says the server answered is spelled by the one adapter. -/
def Event.Told : Event -> Prop
  | .setServerCopy _ location => ∀ copy, location = some copy -> copy.remoteId = remoteId copy.uidValidity copy.uid
  | .mail event => Drafts.Told event
  | .adopts _ _ uid uidValidity name => name = remoteId uidValidity uid
  | _ => True

theorem spelled_step (event : Event) (told : event.Told) (spelled : Spelled desk.store) :
    Spelled (desk.step event).store := by
  cases event with
  | save id composed => exact spelled_save desk id composed spelled
  | setSyncedMessage id message => exact spelled_congr desk _ rfl spelled
  | delete ids => exact spelled_deleteMessages desk _ spelled
  | mail event => exact spelled_event desk.store event told spelled
  | adopts id mailboxId uid uidValidity name =>
    rw [told]
    exact spelled_adopt desk.store id mailboxId uid uidValidity spelled
  | discover mailbox => exact spelled_congr desk _ rfl spelled
  | setServerCopy id location =>
    change Spelled (desk.setServerCopy id location).store
    unfold setServerCopy
    split
    next => exact spelled
    next record _ =>
      have named : Spelled (desk.setRecord id (fun record =>
          { record with remoteId := location.map (fun location => location.remoteId) }) (fun _ => rfl)).store :=
        spelled_congr desk _ rfl spelled
      dsimp only
      cases done : Desk.nameCopy _ record location with
      | none => exact named
      | some after => exact spelled_nameCopy _ after record location told named done
  | deleteDraft id =>
    change Spelled (desk.deleteDraft id).store
    unfold deleteDraft
    split
    next => exact spelled
    next => exact spelled_congr _ _ rfl (spelled_deleteMessages desk _ spelled)

theorem spelled_run (events : List Event) (told : ∀ event ∈ events, event.Told) :
    Spelled (Run.run step empty events).store := by
  apply Run.run_invariant step (fun desk => Spelled desk.store) (fun _ event => event.Told)
    (fun desk event spelled told => spelled_step desk event told spelled) empty events
  next =>
    intro id row held
    cases held
  next => exact Run.along_each step Event.Told empty events told

end Desk

end Postio.Drafts

import Postio.Session.Focus

set_option autoImplicit false

namespace Postio

namespace MailStore

variable (store : MailStore)

def deleteMessage (id : MessageId) : MailStore :=
  -- The queue keeps no reference to a message; everything else that names one lets go of it, or goes with it.
  { store with
    messages := store.messages.remove (fun row => row.id = id)
    sagas := store.sagas.map (fun saga =>
      { saga with
        sourceMessage := saga.sourceMessage.filter (fun source => source ≠ id)
        targetMessage := saga.targetMessage.filter (fun target => target ≠ id) })
    decisions := store.decisions.filter (fun decision => decision.message ≠ id)
    holds := store.holds.filter (fun held => held.message ≠ id) }

def withdrawPending (message : Option MessageId) : MailStore :=
  message.elim store (fun id =>
    { store with queue := store.queue.remove (fun row => row.target = .message id && row.unsettled) })

def forSources (messages : List MessageId) : List CrossAccountMove :=
  store.sagas.filter (fun saga => saga.phase ≠ .aborted && saga.sourceMessage.any (fun source => messages.contains source))

def transition (id : CrossAccountMoveId) (phase : MovePhase) : Option MailStore :=
  match store.sagas.find? (fun saga => saga.id = id) with
  | none => none
  | some current =>
    if current.phase.allows phase then
      some { store with sagas := store.sagas.map (fun saga => if saga.id = id then { saga with phase } else saga) }
    else none

end MailStore

namespace Actions

open Commits

variable (now : Instant) (store : MailStore) (saga : CrossAccountMove)

def cancelOne : Except CommandError MailStore :=
  -- Undoes a saga nothing has left the machine for.
  let withdrawn := (store.withdrawPending saga.sourceMessage).withdrawPending saga.targetMessage
  let dropped := saga.targetMessage.elim withdrawn withdrawn.deleteMessage
  let shown := saga.sourceMessage.elim dropped (fun source => dropped.setDeletedLocally [source] false)
  (shown.transition saga.id .aborted).elim (.error saveFailed) .ok

/-- Both ends of a saga that can be walked the other way. -/
structure SagaEnds where
  copy : MessageId
  original : MessageId
  sourceAccount : AccountId
  sourceMailbox : MailboxId
  destAccount : AccountId
  destMailbox : MailboxId
  deriving DecidableEq

/-- The way back starts where the copy is. A saga that has lost an end has none. -/
def sagaEnds : Option SagaEnds := do
  return {
    copy := ← saga.targetMessage
    original := ← saga.sourceMessage
    sourceAccount := ← saga.targetAccount
    sourceMailbox := ← saga.targetMailbox
    destAccount := ← saga.sourceAccount
    destMailbox := ← saga.sourceMailbox }

def startInverse (ends : SagaEnds) (store : MailStore) : MailStore :=
  -- Starts the same machine the other way about. The original row is shown again, not made anew.
  let inverse : CrossAccountMoveId := ⟨store.nextSaga⟩
  let created : MailStore :=
    { store with
      sagas := store.sagas ++
        [{ id := inverse
           sourceMessage := some ends.copy
           sourceAccount := some ends.sourceAccount
           sourceMailbox := some ends.sourceMailbox
           targetAccount := some ends.destAccount
           targetMailbox := some ends.destMailbox
           targetMessage := some ends.original
           phase := .copying }]
      nextSaga := store.nextSaga + 1 }
  ((((created.enqueue ends.destAccount ends.original (.crossAccountCopy inverse) now).enqueue
    ends.sourceAccount ends.copy (.crossAccountRemove inverse) now).setDeletedLocally [ends.original] false)
    ).setDeletedLocally [ends.copy] true

def invertOne : Except CommandError MailStore :=
  match sagaEnds saga with
  | none => .ok store
  | some ends =>
    if (store.messages.get ends.copy).isNone then .error (.rejected "That message is no longer in the store")
    -- A foreign key refuses a saga whose original row has gone.
    else if (store.messages.get ends.original).isNone then .error saveFailed
    else .ok (startInverse now ends store)

def undoSaga : Except CommandError (MailStore × Bool) :=
  -- Takes one saga back, and whether it did: a copy nobody could prove is left as it is.
  match saga.phase with
  | .copying => (cancelOne store saga).map (fun after => (after, true))
  | .unconfirmed => .ok (store, false)
  | .confirmed =>
    -- Aborted first: its pending removal would delete the source copy the inverse restores.
    match (store.withdrawPending saga.sourceMessage).transition saga.id .aborted with
    | none => .error saveFailed
    | some aborted => (invertOne now aborted saga).map (fun after => (after, true))
  | .done => (invertOne now store saga).map (fun after => (after, true))
  | .aborted => .ok (store, false)

def undoSagas (now : Instant) : List CrossAccountMove -> MailStore -> Except CommandError (MailStore × Nat)
  | [], store => .ok (store, 0)
  | saga :: rest, store => do
    let (after, undone) ← undoSaga now store saga
    let (last, count) ← undoSagas now rest after
    return (last, count + undone.toNat)

def cancelCrossAccountMoves (messages : List MessageId) (world : World) :
    Except CommandError Bool × World :=
  -- The sagas still open for the messages are taken back in one transaction. `false` when there are none.
  if (world.state.forSources messages).isEmpty then (.ok false, world)
  else
    commit (fun store =>
      match undoSagas now (store.forSources messages) store with
      | .error error => .error error
      | .ok (after, undone) =>
        if undone = 0 then
          .error (.rejected ("That move reached the other account but Postio could not confirm it, " ++
            "                 so taking it back would be a guess. Nothing was changed."))
        else .ok (after, true)) world

end Actions

def letter (id account mailbox : Nat) : Message :=
  -- A message with nothing to it.
  { id := ⟨id⟩
    accountId := ⟨account⟩
    mailboxId := ⟨mailbox⟩
    threadId := none
    rfcMessageId := none
    source := []
    flags := ∅
    labels := ∅
    receivedAt := 0
    sortAt := 0
    deletedLocally := false
    snoozedUntil := none
    sendState := none
    remoteId := none }

/-- One message in each of two accounts' inboxes, and an archive in each. -/
def twoAccounts : MailStore where
  messages :=
    { rows := [letter 1 1 1, letter 2 2 2]
      nextId := 3
      ordered := by decide
      issued := by decide }
  mailboxes :=
    [{ id := ⟨1⟩, accountId := ⟨1⟩, role := .inbox, path := ['a'], selectable := true },
      { id := ⟨2⟩, accountId := ⟨2⟩, role := .inbox, path := ['a'], selectable := true },
      { id := ⟨3⟩, accountId := ⟨1⟩, role := .archive, path := ['b'], selectable := true },
      { id := ⟨4⟩, accountId := ⟨2⟩, role := .archive, path := ['b'], selectable := true }]
  accounts :=
    [{ id := ⟨1⟩, enabled := true, pendingDeletion := false },
      { id := ⟨2⟩, enabled := true, pendingDeletion := false }]
  threads := []
  labels := []
  sagas := []
  nextSaga := 1
  decisions := []
  holds := []
  deliveries := []
  reminders := []
  arrivals := []
  never := []
  queue := .empty
  mailboxesDistinct := by decide

def window : AppState := { selected := .these [], viewing := none, focus := none }

end Postio

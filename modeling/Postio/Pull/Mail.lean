import Postio.Lib.Table
import Postio.Model.SyncState

set_option autoImplicit false

namespace Postio.Pull

abbrev Text := List Char

structure Attachment where
  partId : Option Text
  blob : Option BlobId
  deriving DecidableEq

/-- What of a message's content is here. -/
structure Body where
  state : BodyState
  rawBlob : Option BlobId
  preview : Option Text
  contentType : Option Text
  textPart : Option Text
  htmlPart : Option Text
  attachments : List Attachment
  deriving DecidableEq

/-- The addressing headers of a message, its `Message-ID` apart. -/
structure Headers where
  inReplyTo : Option Text
  references : List Text
  subject : Option Text
  date : Option Instant
  listId : Option Text
  people : List Address
  deriving DecidableEq

structure ServerIdentifiers where
  uid : Option Uid
  uidValidity : Option Generation
  modSeq : Option ModSeq
  remoteId : Option RemoteId
  deriving DecidableEq

structure LocalSyncState where
  flagsDirty : Bool
  hasPendingOperations : Bool
  deletedLocally : Bool
  deriving DecidableEq

/-- A row of `messages` with its labels, and a message as a fetch builds it. No write takes the last two columns from
a message. -/
structure Mail where
  id : MessageId
  accountId : AccountId
  mailboxId : MailboxId
  threadId : Option ThreadId
  rfcMessageId : Option Text
  headers : Headers
  receivedAt : Instant
  size : Nat
  flags : FlagSet
  labels : Finset LabelId
  server : ServerIdentifiers
  sync : LocalSyncState
  body : Body
  sortAt : Instant
  snoozedUntil : Option Instant
  deriving DecidableEq

structure Envelope where
  messageId : Option Text
  headers : Headers
  deriving DecidableEq

structure BodyStructure where
  contentType : Text
  textPart : Option Text
  htmlPart : Option Text
  attachments : List Attachment
  deriving DecidableEq

/-- A message as the server describes it. -/
structure FetchedMessage where
  uid : Uid
  uidValidity : Generation
  modSeq : Option ModSeq
  remoteId : RemoteId
  flags : FlagSet
  internalDate : Instant
  size : Nat
  envelope : Option Envelope
  bodyStructure : Option BodyStructure
  deriving DecidableEq

/-- `\Recent` is the server's word for one session, and is not kept. -/
def persistable (flags : FlagSet) : FlagSet := flags.erase .recent

/-- The case-insensitive identity of a `Message-ID`, by which two are equal. -/
def folded (rfc : Text) : Text := rfc.map Char.toLower

/-- SQL's `lower`, which knows the ASCII letters. -/
def lower (text : Text) : Text := text.map Char.toLower

namespace FetchedMessage

def noHeaders : Headers :=
  { inReplyTo := none, references := [], subject := none, date := none, listId := none, people := [] }

def body (fetched : FetchedMessage) : Body :=
  -- What the fetch says of the content. A message is otherwise built with defaults.
  { state := if fetched.envelope.isSome then .headersOnly else .notFetched
    rawBlob := none
    preview := none
    contentType := fetched.bodyStructure.map (fun part => part.contentType)
    textPart := fetched.bodyStructure.bind (fun part => part.textPart)
    htmlPart := fetched.bodyStructure.bind (fun part => part.htmlPart)
    attachments := fetched.bodyStructure.elim [] (fun part => part.attachments) }

def intoMessage (fetched : FetchedMessage) (accountId : AccountId) (mailboxId : MailboxId) : Mail :=
  { id := ⟨0⟩
    accountId
    mailboxId
    threadId := none
    rfcMessageId := fetched.envelope.bind (fun envelope => envelope.messageId)
    headers := fetched.envelope.elim noHeaders (fun envelope => envelope.headers)
    receivedAt := fetched.internalDate
    size := fetched.size
    flags := persistable fetched.flags
    labels := ∅
    server := { uid := some fetched.uid, uidValidity := some fetched.uidValidity, modSeq := fetched.modSeq,
                remoteId := some fetched.remoteId }
    sync := { flagsDirty := false, hasPendingOperations := false, deletedLocally := false }
    body := fetched.body
    sortAt := fetched.internalDate
    snoozedUntil := none }

end FetchedMessage

/-- A draft of this client's, with the message row it has and the copy the server keeps of it. -/
structure Draft where
  accountId : AccountId
  messageId : Option MessageId
  remoteId : Option RemoteId
  deriving DecidableEq

structure Store where
  messages : Table Mail (fun mail => mail.id.get)
  queue : OperationQueue
  drafts : List Draft
  mailboxes : List Mailbox

namespace Store

def get (store : Store) (id : MessageId) : Option Mail := store.messages.get id.get

variable (store : Store) (id : MessageId) (accountId : AccountId) (mail : Mail) (target : OperationTarget)
    (ids : List MessageId) (mailboxId : MailboxId)

def updateWhere (chosen : Mail -> Bool) (change : Mail -> Mail) (kept : ∀ row, (change row).id = row.id) :
    Store :=
  -- Rewrites some rows in place, as an `UPDATE` with a `WHERE` does.
  { store with
    messages := store.messages.update (fun row => if chosen row then change row else row) (fun row => by
      split
      · rw [kept]
      · rfl) }

/-! ### The batch's snapshots -/

def ownDraftCopies : List (MailboxId × RemoteId) :=
  -- Where the server keeps a copy of a draft of this client's.
  store.drafts.flatMap (fun draft =>
    (store.mailboxes.filter (fun mailbox => mailbox.accountId = draft.accountId && mailbox.role = .drafts)).filterMap
      (fun mailbox => draft.remoteId.map (fun remoteId => (mailbox.id, remoteId))))

def leaves : Operation -> Bool
  | .move _ _ => true
  | .delete _ _ => true
  | _ => false

def shadow (queued : QueuedOperation) : Option (MailboxId × RemoteId) :=
  -- What an undrained move or delete shadows: the place it names, by the identity it was queued with.
  if queued.unsettled && leaves queued.operation then
    queued.mailboxId.bind (fun mailbox => queued.sourceRemoteId.map (fun remoteId => (mailbox, remoteId)))
  else none

def shadowed : List (MailboxId × RemoteId) := store.queue.rows.filterMap shadow

def flagChange (queued : QueuedOperation) : Option (Bool × FlagSet) :=
  -- A flag change a queue row still holds for a message: set or cleared.
  if queued.unsettled && queued.target = .message id then
    match queued.operation with
    | .setFlags flags => some (true, flags)
    | .clearFlags flags => some (false, flags)
    | _ => none
  else none

def unacknowledged (queue : OperationQueue) (id : MessageId) : List (Bool × FlagSet) :=
  queue.rows.filterMap (flagChange id)

def replay (flags : FlagSet) (change : Bool × FlagSet) : FlagSet :=
  if change.1 then flags ∪ change.2 else flags \ change.2

def withUnacknowledged (server : FlagSet) (changes : List (Bool × FlagSet)) : FlagSet := changes.foldl replay server

/-! ### Which row a message is -/

def find (store : Store) (found : Mail -> Bool) : Option MessageId := (store.messages.rows.find? found).map (fun row => row.id)

def findByRemoteId (remoteId : RemoteId) : Option MessageId :=
  store.find (fun row => row.mailboxId = mailboxId && row.server.remoteId = some remoteId)

def findByGenerationUid (generation : Generation) (uid : Uid) : Option MessageId :=
  store.find (fun row =>
    row.mailboxId = mailboxId && row.server.uidValidity = some generation && row.server.uid = some uid)

def awaits (row : Mail) : Bool :=
  row.server.remoteId.isNone && row.server.uid.isNone && !row.sync.deletedLocally

def findAwaitingIdentity (rfc : Text) : Option MessageId :=
  store.find (fun row =>
    row.accountId = accountId && row.rfcMessageId = some (folded rfc) && row.mailboxId = mailboxId && awaits row)

def findAwaitingHeaderless (receivedAt : Instant) (size : Nat) : Option MessageId :=
  store.find (fun row =>
    row.accountId = accountId && row.receivedAt = receivedAt && row.mailboxId = mailboxId && row.size = size &&
      row.rfcMessageId.isNone && awaits row && !store.drafts.any (fun draft => draft.messageId = some row.id))

def known : Option MessageId :=
  -- By the server's own coordinates.
  match mail.server.remoteId.bind (store.findByRemoteId mail.mailboxId), mail.server.uid, mail.server.uidValidity with
  | some id, _, _ => some id
  | none, some uid, some validity => store.findByGenerationUid mail.mailboxId validity uid
  | none, _, _ => none

def existing : Option MessageId :=
  -- The row a message is written over, if any.
  match store.known mail, mail.rfcMessageId with
  | some id, _ => some id
  | none, some rfc => store.findAwaitingIdentity mail.accountId mail.mailboxId rfc
  | none, none => store.findAwaitingHeaderless mail.accountId mail.mailboxId mail.receivedAt mail.size

/-! ### Writing it -/

def rowValues : Mail :=
  -- A row the server has not named is stored folded.
  { mail with
    rfcMessageId := mail.rfcMessageId.map (fun rfc =>
      if mail.server.remoteId.isNone && mail.server.uid.isNone then folded rfc else rfc)
    flags := persistable mail.flags }

def keepFetchedContent (stored mail : Mail) : Mail :=
  -- A header refresh must not forget the body already fetched.
  if mail.body.state = .headersOnly then
    if stored.body.state = .headersOnly then mail else { mail with body := stored.body }
  else mail

def written (stored : Mail) : Mail :=
  { rowValues (keepFetchedContent stored mail) with
    id := stored.id, sortAt := max stored.sortAt mail.receivedAt, snoozedUntil := stored.snoozedUntil }

def uidTaken : Bool :=
  -- `idx_messages_uid` is unique among the rows that have a UID.
  store.messages.rows.any (fun row =>
    row.id ≠ id && row.mailboxId = mail.mailboxId && mail.server.uid.isSome && row.server.uid = mail.server.uid &&
      mail.server.uidValidity.isSome && row.server.uidValidity = mail.server.uidValidity)

def writeUpdate : Option Store :=
  if (store.get id).isNone || store.uidTaken id mail then none
  else some { store with messages := store.messages.updateAt id.get (written mail) (fun _ => rfl) }

def inserted (id : Nat) : Mail :=
  { rowValues mail with id := ⟨id⟩, sortAt := mail.receivedAt, snoozedUntil := none }

def insert (store : Store) (mail : Mail) : Option Store :=
  if store.uidTaken ⟨store.messages.nextId⟩ mail then none
  else some { store with messages := store.messages.insert (inserted mail) (fun _ => rfl) }

def reconciled : Mail :=
  -- What the batch adds to a message it writes over a row: the flag changes still in the queue, and the row's labels
  -- where the fetch says nothing of labels.
  { mail with
    flags := withUnacknowledged mail.flags (unacknowledged store.queue id)
    labels := if mail.labels = ∅ then (store.get id).elim ∅ (fun row => row.labels) else mail.labels }

def upsert : Option Store :=
  match store.existing mail with
  | some id => store.writeUpdate id (store.reconciled id mail)
  | none => store.insert mail

def upsertAll (store : Store) : List Mail -> Option Store
  | [] => some store
  | mail :: rest => (store.upsert mail).bind (fun store => store.upsertAll rest)

def retained : Bool :=
  mail.server.remoteId.all (fun remoteId =>
    !store.ownDraftCopies.contains (mail.mailboxId, remoteId) && !store.shadowed.contains (mail.mailboxId, remoteId))

def upsertBatch (batch : List Mail) : Option Store := store.upsertAll (batch.filter store.retained)

/-! ### Flags -/

def setServerFlags (flags : FlagSet) : Store :=
  -- Rewrites the flags of one row, as the server has them.
  { store with
    messages := store.messages.updateAt id.get (fun row =>
      { row with flags := persistable flags, sync := { row.sync with flagsDirty := false } }) (fun _ => rfl) }

def mergedFlags (server : FlagSet) : FlagSet :=
  persistable (withUnacknowledged server (unacknowledged store.queue id))

/-- Writes the flags the server reports for messages, and says whose changed. -/
def applyServerFlags (store : Store) : List (MessageId × FlagSet) -> Store × List MessageId
  | [] => (store, [])
  | (id, server) :: rest =>
    match store.get id with
    | none => store.applyServerFlags rest
    | some row =>
      if persistable row.flags = store.mergedFlags id server then store.applyServerFlags rest
      else
        (((store.setServerFlags id (store.mergedFlags id server)).applyServerFlags rest).1,
          id :: ((store.setServerFlags id (store.mergedFlags id server)).applyServerFlags rest).2)

/-! ### Moving and hiding -/

def moved (row : Mail) : Mail :=
  { row with
    mailboxId
    server := { uid := none, uidValidity := none, modSeq := none, remoteId := none }
    sync := { row.sync with hasPendingOperations := true } }

def moveTo : Store :=
  store.updateWhere (fun row => row.id ∈ ids)
    (fun row => { moved mailboxId row with rfcMessageId := row.rfcMessageId.map lower }) (fun _ => rfl)

def moveSet (set : Mail -> Bool) (mailboxId : MailboxId) : Store :=
  store.updateWhere set (moved mailboxId) (fun _ => rfl)

def named (uid : Uid) (uidValidity : Generation) (remoteId : RemoteId) (row : Mail) : Mail :=
  { row with server := { row.server with uid := some uid, uidValidity := some uidValidity, remoteId := some remoteId } }

def adoptMovedIdentity (uid : Uid) (uidValidity : Generation) (remoteId : RemoteId) : Store :=
  -- Gives a moved row the identity the move's answer named, if it is still where it was moved to and has none.
  match store.get id with
  | none => store
  | some row =>
    if row.mailboxId = mailboxId && row.server.uid.isNone && row.server.remoteId.isNone &&
        !store.uidTaken id (named uid uidValidity remoteId row) then
      { store with messages := store.messages.updateAt id.get (named uid uidValidity remoteId) (fun _ => rfl) }
    else store

def setDeletedLocally (deleted : Bool) : Store :=
  store.updateWhere (fun row => row.id ∈ ids)
    (fun row => { row with sync := { row.sync with deletedLocally := deleted, hasPendingOperations := deleted } })
    (fun _ => rfl)

/-! ### The queue, with the marker the list reads -/

def isTarget (row : Mail) : Bool :=
  match target with
  | .message id => row.id = id
  | .thread id => row.threadId = some id
  | _ => false

def hasPending (queue : OperationQueue) (target : OperationTarget) : Bool :=
  queue.rows.any (fun queued => queued.target = target && queued.unsettled)

def marked (pending : Bool) (row : Mail) : Mail := { row with sync := { row.sync with hasPendingOperations := pending } }

def refreshPendingFlag : Store :=
  store.updateWhere (isTarget target) (marked (hasPending store.queue target)) (fun _ => rfl)

def sourceOf : OperationTarget -> Option RemoteId
  | .message id => (store.get id).bind (fun row => row.server.remoteId)
  | _ => none

def enqueue (operation : Operation) (now : Instant) (notBefore : Option Instant) : Store :=
  { store with
    queue := store.queue.enqueueInner accountId target operation now notBefore (store.sourceOf target)
    : Store }.refreshPendingFlag target

def enqueueWhere (chosen : Mail -> Bool) (operation : Operation) (now : Instant) :
    Store :=
  -- One queue row for each chosen message, in one statement, and the marker in another.
  let rows := (store.messages.rows.filter chosen).map (fun row => (row.id, row.server.remoteId))
  { store with queue := store.queue.enqueueEach accountId rows operation now : Store }.updateWhere chosen (marked true)
    (fun _ => rfl)

def enqueueSet (set : Mail -> Bool) (operation : Operation) (now : Instant) :
    Store :=
  if store.messages.rows.any set then store.enqueueWhere accountId set operation now else store

def enqueueMany (operation : Operation) (now : Instant) :
    Store :=
  if ids = [] then store else store.enqueueWhere accountId (fun row => row.id ∈ ids) operation now

def setState (store : Store) (id : OperationId) (state : OperationState) (now : Instant) (error : Option String)
    (countAttempt : Bool) : Store :=
  -- Marks in flight, done or failed. An operation that is not there is an error, and nothing changes.
  match store.queue.get id, store.queue.setState id state now error countAttempt with
  | some queued, some queue => { store with queue := queue : Store }.refreshPendingFlag queued.target
  | _, _ => store

def defer (store : Store) (id : OperationId) (retryAt : Instant) (error : String) : Store :=
  match store.queue.defer id retryAt error with
  | some queue => { store with queue := queue }
  | none => store

def requeued (now : Instant) (queued : QueuedOperation) : QueuedOperation :=
  if queued.accountId = accountId && queued.state = .inFlight then
    { queued with state := .pending, nextAttemptAt := none, updatedAt := now }
  else queued

def requeueInFlight (now : Instant) : Store :=
  { store with
    queue := store.queue.update (requeued accountId now) (fun queued => by
      unfold requeued
      split
      · rfl
      · rfl) }

def delete (store : Store) (id : OperationId) : Store :=
  match store.queue.get id with
  | some queued => { store with queue := store.queue.delete id : Store }.refreshPendingFlag queued.target
  | none => store

def pruneSettled (store : Store) (accountId : AccountId) (before : Instant) : Store :=
  { store with queue := store.queue.pruneSettled accountId before }

end Store

end Postio.Pull

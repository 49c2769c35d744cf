import Postio.Session.Command
import Postio.Store.MessageSet

set_option autoImplicit false

namespace Postio

def MailboxRole.asStr : MailboxRole -> String
  | .inbox => "inbox"
  | .archive => "archive"
  | .sent => "sent"
  | .drafts => "drafts"
  | .trash => "trash"
  | .junk => "junk"
  | .flagged => "flagged"
  | .snoozed => "snoozed"
  | .outbox => "outbox"
  | .regular => "regular"

inductive Destination where
  | role (role : MailboxRole)
  | mailbox (id : MailboxId)
  deriving DecidableEq

/-- One account's share of a bulk aim. -/
structure BulkUnit where
  set : MessageSet
  account : AccountId
  source : Option MailboxId
  deriving DecidableEq

inductive Aim where
  | rows (rows : List Message)
  | bulk (units : List BulkUnit)
  deriving DecidableEq

namespace MailStore

variable (store : MailStore)

def mailboxFor (account : AccountId) : Destination -> Except CommandError MailboxId
  | .mailbox id => .ok id
  | .role role =>
    match store.byRole account role with
    | some mailbox => .ok mailbox.id
    | none => .error (.rejected s!"This account has no {role.asStr} folder")

def readRows (ids : List MessageId) : Except CommandError (List Message) :=
  let rows := ids.filterMap store.messages.get
  if rows.isEmpty then .error (.rejected "Those messages are no longer here") else .ok rows

def threadIds (now : Instant) (thread : ThreadId) : Except CommandError (List MessageId) :=
  let rows := store.threadMessages now thread
  if rows.isEmpty then .error (.rejected "That thread is empty") else .ok (rows.map Message.id)

def accountOf (mailbox : MailboxId) : Except CommandError AccountId :=
  match store.mailbox mailbox with
  | some row => .ok row.accountId
  | none => .error (.rejected "That folder is no longer here")

end MailStore

def coalescingWindow : Nat := 7 * 24 * 60 * 60 * 1000

namespace MailStore

variable (store : MailStore) (now : Instant) (own : Thread)

def thread (id : ThreadId) : Option Thread := store.threads.find? (fun row => row.id = id)

def enabledAccount (account : AccountId) : Bool :=
  store.accounts.any (fun row => row.id = account && row.enabled && !row.pendingDeletion)

def rootOf (thread : ThreadId) : Option (List Char) :=
  (store.threadMessages now thread).head?.bind (fun row => row.rfcMessageId.filter (fun root => !root.isEmpty))

def sameRoot (candidate : Thread) : Bool :=
  (store.rootOf now own.id).any (fun root =>
    store.messages.rows.any (fun row => row.threadId = some candidate.id && row.rfcMessageId = some root))

def sameSubject (candidate : Thread) : Bool :=
  own.subject.any (fun subject => !subject.isEmpty) && own.subject = candidate.subject &&
    decide ((candidate.lastAt - own.lastAt).natAbs ≤ coalescingWindow)

def groupPartners : List Thread :=
  store.threads.filter (fun candidate => candidate.accountId ≠ own.accountId && 0 < candidate.messageCount &&
    store.enabledAccount candidate.accountId && (store.sameRoot now own candidate || sameSubject own candidate))

def withFoldedCopies (threads : List ThreadId) : List ThreadId :=
  threads ++ (threads.filterMap store.thread).flatMap (fun own => (store.groupPartners now own).map Thread.id)

def focusExceptions (excepted : List MessageId) :
    List MessageId × List ThreadId :=
  let threadOf := fun id => (store.messages.get id).bind Message.threadId
  (excepted.filter (fun id => (threadOf id).isNone), store.withFoldedCopies now (excepted.filterMap threadOf))

end MailStore

def inboxUnits (store : MailStore) (accounts : List AccountId) (set : MailboxId -> MessageSet) : List BulkUnit :=
  accounts.filterMap (fun account =>
    (store.byRole account .inbox).map (fun inbox => { set := set inbox.id, account, source := some inbox.id }))

def aim (app : AppState) (store : MailStore) (now : Instant) (target : MessageTarget) : Except CommandError Aim :=
  -- What a verb will act on: rows, or a predicate over them.
  let bulk (units : List BulkUnit) : Except CommandError Aim :=
    if units.isEmpty then .error (.rejected "Nothing selected") else .ok (.bulk units)
  match app.resolve target with
  | none => .error (.rejected "Nothing selected")
  | some (.messages ids) => (store.readRows ids).map .rows
  | some (.thread thread) => do (← store.readRows (← store.threadIds now thread)) |> .rows |> .ok
  | some (.threads threads) => do (← store.readRows (← threads.mapM (store.threadIds now)).flatten) |> .rows |> .ok
  | some (.everything (.mailbox mailbox) excepted) => do
    let account ← store.accountOf mailbox
    bulk [{ set := .inMailbox mailbox excepted, account, source := some mailbox }]
  | some (.everything (.flagged account) excepted) =>
    bulk [{ set := .flagged account excepted, account, source := none }]
  | some (.everything (.focus accounts) excepted) =>
    let (lone, exceptThreads) := store.focusExceptions now excepted
    bulk (inboxUnits store accounts (fun inbox => .inFocusInbox inbox lone exceptThreads))
  | some (.everything (.unified accounts) excepted) =>
    bulk (inboxUnits store accounts (fun inbox => .inMailbox inbox excepted))
  | some (.batch range account source) => bulk [{ set := .queued range, account, source }]

end Postio

import Mathlib.Data.Char
import Mathlib.Data.List.Dedup
import Mathlib.Data.List.Lex
import Mathlib.Data.List.Sort
import Postio.Store.OperationQueue

set_option autoImplicit false

namespace Postio

inductive MailboxRole where
  | inbox
  | archive
  | sent
  | drafts
  | trash
  | junk
  | flagged
  | snoozed
  | outbox
  | regular
  deriving DecidableEq, Repr

structure Mailbox where
  id : MailboxId
  accountId : AccountId
  role : MailboxRole
  path : List Char
  selectable : Bool
  deriving DecidableEq

structure Account where
  id : AccountId
  enabled : Bool
  pendingDeletion : Bool
  deriving DecidableEq

inductive BodyState where
  | notFetched
  | headersOnly
  | partly
  | full
  deriving DecidableEq, Repr

structure Address where
  normalized : List Char
  deriving DecidableEq

/-- One row of `messages`, with its labels. The columns `seen` and `flagged` say what `flags` says, since every
write of either writes both. -/
structure Message where
  id : MessageId
  accountId : AccountId
  mailboxId : MailboxId
  threadId : Option ThreadId
  rfcMessageId : Option (List Char)
  source : List Address
  flags : FlagSet
  labels : Finset LabelId
  receivedAt : Instant
  sortAt : Instant
  deletedLocally : Bool
  snoozedUntil : Option Instant
  sendState : Option DraftState
  remoteId : Option RemoteId
  deriving DecidableEq

/-- A thread's stored aggregates. Membership is the messages' own `threadId`. -/
structure Thread where
  id : ThreadId
  accountId : AccountId
  subject : Option (List Char)
  messageCount : Nat
  lastAt : Instant
  deriving DecidableEq

structure Label where
  id : LabelId
  name : Keyword
  deriving DecidableEq

inductive MovePhase where
  | copying
  | unconfirmed
  | confirmed
  | done
  | aborted
  deriving DecidableEq

def MovePhase.allows : MovePhase -> MovePhase -> Bool
  | .copying, .unconfirmed | .copying, .confirmed | .copying, .aborted => true
  | .unconfirmed, .confirmed | .unconfirmed, .aborted => true
  | .confirmed, .done | .confirmed, .aborted => true
  | _, _ => false

/-- A saga that carries one message to another account. Each reference is lost with the row it names. -/
structure CrossAccountMove where
  id : CrossAccountMoveId
  sourceMessage : Option MessageId
  sourceAccount : Option AccountId
  sourceMailbox : Option MailboxId
  targetAccount : Option AccountId
  targetMailbox : Option MailboxId
  targetMessage : Option MessageId
  phase : MovePhase
  deriving DecidableEq

inductive FilterReason where
  | spam
  | promotion
  | notification
  | receipt
  | shipping
  | social
  deriving DecidableEq

structure FilterDecision where
  message : MessageId
  reason : FilterReason
  restoredAt : Option Instant
  deriving DecidableEq

structure DigestHold where
  message : MessageId
  delivery : Option DeliveryId
  deriving DecidableEq

structure DigestDelivery where
  id : DeliveryId
  archivedAt : Option Instant
  deriving DecidableEq

inductive ContactArrival where
  | inbox
  | digest
  | filtered
  deriving DecidableEq

structure Reminder where
  threadId : ThreadId
  firedAt : Option Instant
  cancelledAt : Option Instant
  settledAt : Option Instant
  deriving DecidableEq

/-- The rows in id order, each id issued once. -/
structure MessageTable where
  rows : List Message
  nextId : Nat
  ordered : rows.Pairwise (fun first second => first.id.get < second.id.get)
  issued : ∀ row ∈ rows, row.id.get < nextId
  deriving DecidableEq

namespace MessageTable

variable (table : MessageTable)

def get (id : MessageId) : Option Message := table.rows.find? (fun row => row.id = id)

def update (change : Message -> Message) (kept : ∀ row, (change row).id = row.id) :
    MessageTable :=
  -- Rewrites rows in place. No statement changes a row's id.
  { rows := table.rows.map change
    nextId := table.nextId
    ordered := by
      rw [List.pairwise_map]
      simpa only [kept] using table.ordered
    issued := by
      intro row member
      obtain ⟨old, there, rfl⟩ := List.mem_map.mp member
      simpa only [kept] using table.issued old there }

def insert (row : MessageId -> Message) (stamped : ∀ id, (row id).id = id) : MessageTable :=
  { rows := table.rows ++ [row ⟨table.nextId⟩]
    nextId := table.nextId + 1
    ordered := by
      rw [List.pairwise_append]
      refine ⟨table.ordered, List.pairwise_singleton _ _, ?_⟩
      intro first member second last
      simp only [List.mem_singleton] at last
      subst last
      simpa [stamped] using table.issued first member
    issued := by
      intro row member
      rcases List.mem_append.mp member with old | new
      · exact Nat.lt_succ_of_lt (table.issued row old)
      · simp only [List.mem_singleton] at new
        subst new
        simp [stamped] }

def remove (gone : Message -> Bool) : MessageTable :=
  { rows := table.rows.filter (fun row => !gone row)
    nextId := table.nextId
    ordered := table.ordered.filter _
    issued := fun row member => table.issued row (List.mem_of_mem_filter member) }

theorem ids_injective (row other : Message) (first : row ∈ table.rows)
    (second : other ∈ table.rows) (same : row.id = other.id) : row = other := by
  have distinct : (table.rows.map Message.id).Nodup :=
    List.pairwise_map.mpr (table.ordered.imp (fun less equal => by
      rw [equal] at less
      omega))
  exact List.inj_on_of_nodup_map distinct first second same

theorem get_eq_some (id : MessageId) (row : Message) :
    table.get id = some row <-> row ∈ table.rows ∧ row.id = id := by
  constructor
  · intro found
    exact ⟨List.mem_of_find?_eq_some found, by simpa using List.find?_some found⟩
  · rintro ⟨member, rfl⟩
    cases found : table.get row.id with
    | none => exact absurd (List.find?_eq_none.mp found row member) (by simp)
    | some other =>
      have there := List.mem_of_find?_eq_some found
      have same : other.id = row.id := by simpa using List.find?_some found
      rw [ids_injective table other row there member same]

end MessageTable

structure MailStore where
  messages : MessageTable
  mailboxes : List Mailbox
  accounts : List Account
  threads : List Thread
  labels : List Label
  sagas : List CrossAccountMove
  nextSaga : Nat
  decisions : List FilterDecision
  holds : List DigestHold
  deliveries : List DigestDelivery
  reminders : List Reminder
  arrivals : List (Address × ContactArrival)
  -- The addresses `config.toml` says never to filter.
  never : List Address
  queue : OperationQueue
  mailboxesDistinct : (mailboxes.map Mailbox.id).Nodup
  deriving DecidableEq

def clock (now : Instant) : Instant := now / 1000 * 1000

/-- Groups rows as a `BTreeMap` of lists does: in key order, each group in the order the rows came. -/
def groupBy {Row : Type} (key : Row -> Nat) (rows : List Row) : List (Nat × List Row) :=
  ((rows.map key).dedup.insertionSort (· ≤ ·)).map (fun value => (value, rows.filter (fun row => key row = value)))

theorem mem_groupBy {Row : Type} (key : Row -> Nat) (rows : List Row) (value : Nat) (group : List Row) :
    (value, group) ∈ groupBy key rows <->
      (∃ row ∈ rows, key row = value) ∧ group = rows.filter (fun row => key row = value) := by
  simp only [groupBy, List.mem_map, List.mem_insertionSort, List.mem_dedup, Prod.mk.injEq]
  constructor
  · rintro ⟨found, ⟨row, member, rfl⟩, rfl, rfl⟩
    exact ⟨⟨row, member, rfl⟩, rfl⟩
  · rintro ⟨⟨row, member, rfl⟩, rfl⟩
    exact ⟨key row, ⟨row, member, rfl⟩, rfl, rfl⟩

namespace MailStore

def update (store : MailStore) (change : Message -> Message) (kept : ∀ row, (change row).id = row.id) : MailStore :=
  { store with messages := store.messages.update change kept }

variable (store : MailStore) (account : AccountId) (ids : List MessageId) (change : Message -> Message)
    (message : MessageId) (kept : ∀ row, (change row).id = row.id) (operation : Operation) (now : Instant)

def updateIds : MailStore :=
  -- Rewrites the rows named by `ids`.
  store.update (fun row => if row.id ∈ ids then change row else row) (fun row => by
    split
    · exact kept row
    · rfl)

def moveTo (mailbox : MailboxId) : MailStore :=
  store.updateIds ids (fun row => { row with mailboxId := mailbox, remoteId := none }) (fun _ => rfl)

/-- `\Recent` is a session's, and never stored. -/
def setFlags (id : MessageId) (flags : FlagSet) : MailStore :=
  store.updateIds [id] (fun row => { row with flags := flags.erase .recent }) (fun _ => rfl)

def setDeletedLocally (deleted : Bool) : MailStore :=
  store.updateIds ids (fun row => { row with deletedLocally := deleted }) (fun _ => rfl)

def snooze (wakeAt : Instant) : MailStore :=
  store.updateIds ids (fun row => { row with snoozedUntil := some wakeAt }) (fun _ => rfl)

def unsnooze : MailStore :=
  store.updateIds ids (fun row => { row with snoozedUntil := none }) (fun _ => rfl)

def attach (label : LabelId) : MailStore :=
  store.updateIds [message] (fun row => { row with labels := insert label row.labels }) (fun _ => rfl)

def detach (label : LabelId) : MailStore :=
  store.updateIds [message] (fun row => { row with labels := row.labels.erase label }) (fun _ => rfl)

def mailbox (id : MailboxId) : Option Mailbox := store.mailboxes.find? (fun row => row.id = id)

def byRole (role : MailboxRole) : Option Mailbox :=
  ((store.mailboxes.filter (fun row => row.accountId = account && row.role = role && row.selectable)).insertionSort
    (fun first second => first.path ≤ second.path)).head?

def label (id : LabelId) : Option Label := store.labels.find? (fun row => row.id = id)

def enqueue :
    MailStore :=
  -- The queue row snapshots the server's name for the message before the caller's own write clears it.
  { store with
    queue := store.queue.enqueueInner account (.message message) operation now none
      ((store.messages.get message).bind Message.remoteId) }

def enqueueRows (rows : List Message) (operation : Operation) (now : Instant) : MailStore :=
  { store with
    queue := store.queue.enqueueEach account (rows.map (fun row => (row.id, row.remoteId))) operation now }

def enqueueMany : MailStore :=
  store.enqueueRows account (store.messages.rows.filter (fun row => row.id ∈ ids)) operation now

def visible (row : Message) : Bool := !row.deletedLocally && row.snoozedUntil.all (· ≤ now)

def threadMessages (thread : ThreadId) : List Message :=
  -- The thread's members, oldest first.
  (store.messages.rows.filter (fun row => row.threadId = some thread && visible now row)).insertionSort
    (fun first second => first.receivedAt < second.receivedAt ∨
      first.receivedAt = second.receivedAt ∧ first.id.get ≤ second.id.get)

def snoozedMessages (thread : ThreadId) : List Message :=
  -- The thread's members that are asleep, which `threadMessages` leaves out.
  (store.messages.rows.filter (fun row => row.threadId = some thread && row.snoozedUntil.isSome)).insertionSort
    (fun first second => first.receivedAt < second.receivedAt ∨
      first.receivedAt = second.receivedAt ∧ first.id.get ≤ second.id.get)

@[simp]
theorem update_rows : (store.update change kept).messages.rows = store.messages.rows.map change:= rfl

@[simp]
theorem update_queue : (store.update change kept).queue = store.queue:= rfl

@[simp]
theorem enqueueRows_messages (rows : List Message) (operation : Operation)
    (now : Instant) : (store.enqueueRows account rows operation now).messages = store.messages := rfl

@[simp]
theorem enqueueMany_messages : (store.enqueueMany account ids operation now).messages = store.messages := rfl

@[simp]
theorem enqueue_messages : (store.enqueue account message operation now).messages = store.messages := rfl

theorem mailbox_of_mem (row : Mailbox) (member : row ∈ store.mailboxes) :
    store.mailbox row.id = some row := by
  cases found : store.mailbox row.id with
  | none => exact absurd (List.find?_eq_none.mp found row member) (by simp)
  | some other =>
    have there := List.mem_of_find?_eq_some found
    have same : other.id = row.id := by simpa using List.find?_some found
    rw [List.inj_on_of_nodup_map store.mailboxesDistinct there member same]

theorem byRole_spec (role : MailboxRole) (found : Mailbox) (same : store.byRole account role = some found) :
    found ∈ store.mailboxes ∧ found.accountId = account ∧ found.role = role ∧ found.selectable = true := by
  have member := List.mem_of_head? same
  simp only [List.mem_insertionSort, List.mem_filter, Bool.and_eq_true, decide_eq_true_eq] at member
  exact ⟨member.1, member.2.1.1, member.2.1.2, member.2.2⟩

end MailStore

end Postio

import Postio.Store.MailStore

set_option autoImplicit false

namespace Postio

/-- A flag with a column of its own. -/
inductive ColumnFlag where
  | seen
  | flagged
  deriving DecidableEq

def ColumnFlag.flag : ColumnFlag -> Flag
  | .seen => .seen
  | .flagged => .flagged

/-- A predicate over messages, for the verbs that never name their rows. -/
inductive MessageSet where
  | inMailbox (mailbox : MailboxId) (excepted : List MessageId)
  | inFocusInbox (mailbox : MailboxId) (excepted : List MessageId) (exceptThreads : List ThreadId)
  | flagged (account : AccountId) (excepted : List MessageId)
  | queued (range : OperationRange)
  | withFlag (set : MessageSet) (flag : ColumnFlag) (present : Bool)
  | inSourceMailbox (set : MessageSet) (mailbox : MailboxId)
  deriving DecidableEq

namespace MailStore

variable (store : MailStore) (now : Instant) (set : MessageSet)

def withoutConversations (excepted : List MessageId) (row : Message) : Bool :=
  -- Excepted by conversation: an id that was deselected stands for its whole thread.
  !excepted.contains row.id &&
    !(row.threadId.isSome && store.messages.rows.any (fun other =>
      excepted.contains other.id && other.threadId = row.threadId))

def focusExcludes (row : Message) : Bool :=
  -- Mail a digest still holds, and conversations whose reminder stands.
  store.holds.any (fun held => held.message = row.id &&
      !(held.delivery.any (fun delivery =>
        store.deliveries.any (fun delivered => delivered.id = delivery && delivered.archivedAt.isSome)))) ||
    store.reminders.any (fun surfaced => row.threadId = some surfaced.threadId && surfaced.firedAt.isSome &&
      surfaced.cancelledAt.isNone && surfaced.settledAt.isNone)

def predicate (store : MailStore) (now : Instant) : MessageSet -> Message -> Bool
  | .inMailbox mailbox excepted, row =>
    row.mailboxId = mailbox && !row.deletedLocally && store.withoutConversations excepted row
  | .inFocusInbox mailbox excepted exceptThreads, row =>
    row.mailboxId = mailbox && visible now row && !store.focusExcludes row && !excepted.contains row.id &&
      row.threadId.all (fun thread => !exceptThreads.contains thread)
  | .queued range, row =>
    store.queue.rows.any (fun queued => range.first ≤ queued.id && queued.id ≤ range.last &&
      queued.target = .message row.id)
  | .flagged account excepted, row =>
    row.accountId = account && decide (.flagged ∈ row.flags) && !row.deletedLocally && !excepted.contains row.id
  | .inSourceMailbox set mailbox, row => store.predicate now set row && row.mailboxId = mailbox
  | .withFlag set flag present, row => store.predicate now set row && decide (flag.flag ∈ row.flags) = present

def named : List Message :=
  store.messages.rows.filter (store.predicate now set)

def countSet : Nat := (store.named now set).length

def mailboxesOfSet : List MailboxId :=
  ((store.named now set).map Message.mailboxId).dedup

def updateSet (change : Message -> Message) (kept : ∀ row, (change row).id = row.id) : MailStore :=
  store.update (fun row => if store.predicate now set row then change row else row) (fun row => by
    split
    · exact kept row
    · rfl)

theorem moved_id (mailbox : MailboxId) (row : Message) :
    ({ row with mailboxId := mailbox, remoteId := none } : Message).id = row.id := rfl

def moveSet (mailbox : MailboxId) : MailStore :=
  store.updateSet now set (fun row => { row with mailboxId := mailbox, remoteId := none }) (moved_id mailbox)

def setFlagOnSet (flag : ColumnFlag) (present : Bool) :
    MailStore :=
  store.updateSet now set
    (fun row => { row with flags := if present then insert flag.flag row.flags else row.flags.erase flag.flag })
    (fun _ => rfl)

def enqueueSet (account : AccountId) (set : MessageSet) (operation : Operation) :
    Option (OperationRange × MailStore) :=
  -- One queue row per message named, and the run of ids they were written under. The run starts past whatever the queue
  -- held.
  let rows := store.named now set
  if rows.isEmpty then none
  else
    let highest := (store.queue.rows.getLast?).elim 0 (fun row => row.id.get)
    let written := store.enqueueRows account rows operation now
    some ({ first := ⟨highest + 1⟩, last := ⟨written.queue.nextId - 1⟩ }, written)

end MailStore

def FilterReason.keyword : FilterReason -> Flag
  | .spam => .keyword { name := "$postiofiltered-spam".toList, folded := by decide }
  | .promotion => .keyword { name := "$postiofiltered-promotion".toList, folded := by decide }
  | .notification => .keyword { name := "$postiofiltered-notification".toList, folded := by decide }
  | .receipt => .keyword { name := "$postiofiltered-receipt".toList, folded := by decide }
  | .shipping => .keyword { name := "$postiofiltered-shipping".toList, folded := by decide }
  | .social => .keyword { name := "$postiofiltered-social".toList, folded := by decide }

def FilterReason.all : List FilterReason := [.spam, .promotion, .notification, .receipt, .shipping, .social]

/-- Which server operation a relocation is. -/
inductive Relocation where
  | move
  | trash
  deriving DecidableEq

def Relocation.operation (relocation : Relocation) (source dest : MailboxId) : Operation :=
  match relocation with
  | .move => .move source dest
  | .trash => .delete source dest

def flagOperation (flag : Flag) (wanted : Bool) : Operation :=
  if wanted then .setFlags {flag} else .clearFlags {flag}

def withFlag (flags : FlagSet) (flag : Flag) (wanted : Bool) : FlagSet :=
  if wanted then insert flag flags else flags.erase flag

namespace MailStore

/-! The local half of each change, and the queue row that tells the server. Every message must belong to
`account`; the callers see to it. -/

def relocateGroup (account : AccountId) (destination : MailboxId) (relocation : Relocation) (now : Instant)
    (store : MailStore) (group : MailboxId × List MessageId) : MailStore :=
  -- The queue rows come first: the move clears what they snapshot.
  (store.enqueueMany account group.2 (relocation.operation group.1 destination) now).moveTo group.2 destination

variable (store : MailStore)

def relocate (account : AccountId) (bySource : List (MailboxId × List MessageId))
    (destination : MailboxId) (relocation : Relocation) (now : Instant) : MailStore :=
  bySource.foldl (relocateGroup account destination relocation now) store

def markedFlags (reason : Option FilterReason) (flags : FlagSet) : FlagSet :=
  -- What `mark_filtered` leaves of a row's flags.
  let wanted := reason.map FilterReason.keyword
  let others := (FilterReason.all.map FilterReason.keyword).filter (fun keyword => some keyword ≠ wanted)
  let cleared := flags \ others.toFinset
  wanted.elim cleared (fun keyword => insert keyword cleared)

def markFiltered (account : AccountId) (rows : List Message) (reason : Option FilterReason)
    (now : Instant) : MailStore :=
  let wanted := reason.map FilterReason.keyword
  let others := ((FilterReason.all.map FilterReason.keyword).filter (fun keyword => some keyword ≠ wanted)).toFinset
  let changed := rows.filter (fun row => markedFlags reason row.flags ≠ row.flags)
  let cleared := rows.filter (fun row => row.flags ∩ others ≠ ∅)
  let added := rows.filter (fun row => wanted.any (fun keyword => decide (keyword ∉ row.flags)))
  let flagged := changed.foldl (fun store row => store.setFlags row.id (markedFlags reason row.flags)) store
  let unmarked := flagged.enqueueMany account (cleared.map Message.id) (.clearFlags others) now
  wanted.elim unmarked (fun keyword =>
    unmarked.enqueueMany account (added.map Message.id) (.setFlags {keyword}) now)

def setFlagRow (account : AccountId) (flag : Flag) (wanted : Bool) (now : Instant) (store : MailStore)
    (row : Message) : MailStore :=
  (store.setFlags row.id (withFlag row.flags flag wanted)).enqueue account row.id (flagOperation flag wanted) now

def setFlag (account : AccountId) (rows : List Message) (flag : Flag) (wanted : Bool)
    (now : Instant) : MailStore :=
  rows.foldl (setFlagRow account flag wanted now) store

end MailStore

end Postio

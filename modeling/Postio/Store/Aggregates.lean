import Postio.Lib.Run
import Postio.Store.Filing
import Postio.Store.MessageSet

set_option autoImplicit false

namespace Postio

/-- What a conversation's row says of its members. -/
structure Aggregates where
  messageCount : Nat
  unreadCount : Nat
  hasAttachments : Bool
  isFlagged : Bool
  firstAt : Instant
  lastAt : Instant
  deriving DecidableEq

def ThreadRow.aggregates (thread : ThreadRow) : Aggregates where
  messageCount := thread.messageCount
  unreadCount := thread.unreadCount
  hasAttachments := thread.hasAttachments
  isFlagged := thread.isFlagged
  firstAt := thread.firstAt
  lastAt := thread.lastAt

namespace Conversations

variable (store : Conversations) (named : Mail -> Bool) (messages : List MessageId) (mailbox : MailboxId)

def updateWhere (change : Mail -> Mail) (kept : ∀ mail, (change mail).id.get = mail.id.get) : Conversations :=
  -- Rewrites the rows a statement's condition names.
  { store with
    mails := store.mails.update (fun mail => if named mail then change mail else mail) (fun mail => by
      split
      · exact kept mail
      · rfl) }

def conversationsOf : List ThreadId :=
  ((store.mails.rows.filter (fun mail => messages.contains mail.id)).filterMap (fun mail => mail.threadId)).dedup

def flagMail (flag : Flag) (wanted : Bool) (mail : Mail) : Mail :=
  { mail with flags := (if wanted then insert flag mail.flags else mail.flags.erase flag).erase .recent }

def setFlag (now : Instant) (messages : List MessageId) (flag : Flag) (wanted : Bool) :
    Conversations :=
  (store.conversationsOf messages).foldl (fun store thread => store.recompute now thread)
    (store.updateWhere (fun mail => messages.contains mail.id) (flagMail flag wanted) (fun _ => rfl))

def withColumnFlag (flag : ColumnFlag) (present : Bool) (mail : Mail) : Mail :=
  { mail with flags := if present then insert flag.flag mail.flags else mail.flags.erase flag.flag }

/-- One `UPDATE` over every row a predicate names. -/
def setFlagOnSet (flag : ColumnFlag) (present : Bool) : Conversations :=
  store.updateWhere named (withColumnFlag flag present) (fun _ => rfl)

def inMailbox (mail : Mail) : Mail := { mail with mailboxId := mailbox, remoteId := none }

def moveTo : Conversations :=
  store.updateWhere (fun mail => messages.contains mail.id) (inMailbox mailbox) (fun _ => rfl)

def moveSet : Conversations :=
  store.updateWhere named (inMailbox mailbox) (fun _ => rfl)

def hidden (deleted : Bool) (mail : Mail) : Mail := { mail with deletedLocally := deleted }

def setDeletedLocally (deleted : Bool) : Conversations :=
  store.updateWhere (fun mail => messages.contains mail.id) (hidden deleted) (fun _ => rfl)

def snoozed (wakeAt : Option Instant) (mail : Mail) : Mail := { mail with snoozedUntil := wakeAt }

def snooze (wakeAt : Instant) : Conversations :=
  store.updateWhere (fun mail => messages.contains mail.id) (snoozed (some wakeAt)) (fun _ => rfl)

def unsnooze : Conversations :=
  store.updateWhere (fun mail => messages.contains mail.id) (snoozed none) (fun _ => rfl)

def due (account : AccountId) (now : Instant) (mail : Mail) : Bool :=
  mail.accountId = account && mail.snoozedUntil.any (· ≤ now)

def woken (mail : Mail) : Mail :=
  { mail with sortAt := mail.snoozedUntil.elim mail.sortAt (max mail.sortAt), snoozedUntil := none }

def raised (woken : List Mail) (thread : ThreadRow) : ThreadRow :=
  -- A conversation moves to where its latest snooze ran out.
  { thread with
    lastAt := ((woken.filter (fun mail => mail.threadId = some thread.id)).filterMap (fun mail => mail.snoozedUntil)).foldl
      max thread.lastAt }

def wakeDue (account : AccountId) (now : Instant) : Conversations :=
  -- Clears every snooze of an account that is due. First, while the snoozes still say so, the conversations move.
  { store with
    threads := store.threads.update (raised (store.mails.rows.filter (due account now))) (fun _ => rfl) }.updateWhere
      (due account now) woken (fun _ => rfl)

def expunge : Conversations :=
  { store with mails := store.mails.remove (fun mail => messages.contains mail.id) }

def storeUnit (now : Instant) (account : AccountId) (unit : List Fetched) : Conversations :=
  ((store.upsertAll unit).1.fileAll now account (store.upsertAll unit).2).1

end Conversations

/-- The verbs' and the passes' writes, as far as a conversation's members and columns go. -/
inductive ThreadWrite where
  | setFlag (messages : List MessageId) (flag : Flag) (wanted : Bool)
  | setFlagOnSet (named : Mail -> Bool) (flag : ColumnFlag) (present : Bool)
  | moveTo (messages : List MessageId) (mailbox : MailboxId)
  | moveSet (named : Mail -> Bool) (mailbox : MailboxId)
  | setDeletedLocally (messages : List MessageId) (deleted : Bool)
  | snooze (messages : List MessageId) (wakeAt : Instant)
  | unsnooze (messages : List MessageId)
  | wakeDue (account : AccountId)
  | unit (account : AccountId) (unit : List Fetched)
  | expunge (messages : List MessageId)
  | merge (keep absorb : ThreadId)
  | reconsider (account : AccountId) (message : MessageId)

structure Threaded extends Conversations where
  now : Instant

namespace Threaded

def opened (now : Instant) : Threaded where
  mails := .empty _
  threads := .empty _
  links := []
  now

def write (store : Conversations) (now : Instant) : ThreadWrite -> Conversations
  | .setFlag messages flag wanted => store.setFlag now messages flag wanted
  | .setFlagOnSet named flag present => store.setFlagOnSet named flag present
  | .moveTo messages mailbox => store.moveTo messages mailbox
  | .moveSet named mailbox => store.moveSet named mailbox
  | .setDeletedLocally messages deleted => store.setDeletedLocally messages deleted
  | .snooze messages wakeAt => store.snooze messages wakeAt
  | .unsnooze messages => store.unsnooze messages
  | .wakeDue account => store.wakeDue account now
  | .unit account unit => store.storeUnit now account unit
  | .expunge messages => store.expunge messages
  | .merge keep absorb => store.merge now keep absorb
  | .reconsider account message =>
    match store.mails.get message.get with
    | some mail => store.reconsider now account mail
    | none => store

def step (store : Threaded) (entry : Nat × ThreadWrite) : Threaded :=
  { toConversations := write store.toConversations (store.now + entry.1) entry.2
    now := store.now + entry.1 }

def Exact (store : Threaded) : Prop :=
  ∀ thread ∈ store.threads.rows,
    thread.aggregates = (Conversations.recomputed (store.members store.now thread.id) thread).aggregates

end Threaded

end Postio

import Postio.Lib.Run
import Postio.Lib.Table
import Postio.Store.MailStore

set_option autoImplicit false

namespace Postio

/-- The columns of `messages` that its mailbox's counts read. -/
structure CountedMail where
  id : MessageId
  accountId : AccountId
  mailboxId : MailboxId
  seen : Bool
  flagged : Bool
  deletedLocally : Bool
  bodyState : BodyState
  snoozedUntil : Option Instant
  -- No column: the second of the statement whose trigger last counted the row.
  countedAt : Instant
  deriving DecidableEq

/-- The cached counts of a row of `mailboxes`. -/
inductive MailboxCount where
  | total
  | unread
  | flagged
  | snoozed
  | bodiesOwed
  deriving DecidableEq

namespace CountedMail

def awake (second : Instant) (mail : CountedMail) : Bool := mail.snoozedUntil.all (fun wakeAt => wakeAt ≤ second)

def asleep (second : Instant) (mail : CountedMail) : Bool := mail.snoozedUntil.any (fun wakeAt => second < wakeAt)

def owed (mail : CountedMail) : Bool :=
  match mail.bodyState with
  | .notFetched | .headersOnly => true
  | .partly | .full => false

def counts (second : Instant) (mail : CountedMail) : MailboxCount -> Bool
  | .total => !mail.deletedLocally && mail.awake second
  | .unread => !mail.deletedLocally && mail.awake second && !mail.seen
  | .flagged => !mail.deletedLocally && mail.awake second && mail.flagged
  | .snoozed => !mail.deletedLocally && mail.asleep second
  | .bodiesOwed => !mail.deletedLocally && mail.owed

def share (second : Instant) (mail : CountedMail) (count : MailboxCount) : Int :=
  if mail.counts second count then 1 else 0

end CountedMail

/-- The columns an `UPDATE` names, with what it sets them to. -/
structure Columns where
  mailboxId : Option MailboxId := none
  seen : Option Bool := none
  flagged : Option Bool := none
  deletedLocally : Option Bool := none
  bodyState : Option BodyState := none
  snoozedUntil : Option (Option Instant) := none
  deriving DecidableEq

namespace Columns

variable (columns : Columns)

def applied (mail : CountedMail) : CountedMail :=
  { mail with
    mailboxId := columns.mailboxId.getD mail.mailboxId
    seen := columns.seen.getD mail.seen
    flagged := columns.flagged.getD mail.flagged
    deletedLocally := columns.deletedLocally.getD mail.deletedLocally
    bodyState := columns.bodyState.getD mail.bodyState
    snoozedUntil := columns.snoozedUntil.getD mail.snoozedUntil }

/-- `messages_count_update` fires on these columns. -/
def recounts : Bool :=
  columns.mailboxId.isSome || columns.seen.isSome || columns.flagged.isSome || columns.deletedLocally.isSome ||
    columns.snoozedUntil.isSome

/-- `messages_bodies_owed_update` fires on these. -/
def reowes : Bool :=
  columns.mailboxId.isSome || columns.deletedLocally.isSome || columns.bodyState.isSome

end Columns

/-- Messages, the counts cached for their mailboxes, and the time. -/
structure CountedStore where
  messages : Table CountedMail (fun mail => mail.id.get)
  figures : Figures MailboxId MailboxCount
  now : Instant

inductive RowWrite where
  | insert (mail : CountedMail)
  | update (id : MessageId) (columns : Columns)
  | delete (id : MessageId)

namespace CountedStore

def opened (now : Instant) : CountedStore where
  messages := .empty _
  figures := fun _ _ => 0
  now

variable (store : CountedStore)

def second : Instant := clock store.now

def every (_ : MailboxCount) : Bool := true

def visibility : MailboxCount -> Bool
  | .bodiesOwed => false
  | _ => true

def bodies : MailboxCount -> Bool
  | .bodiesOwed => true
  | _ => false

def insert (store : CountedStore) (mail : CountedMail) : CountedStore :=
  let row := fun id => { mail with id := ⟨id⟩, countedAt := store.second }
  { store with
    messages := store.messages.insert row (fun _ => rfl)
    figures :=
      if mail.deletedLocally then store.figures
      else store.figures.raise every mail.mailboxId (mail.share store.second) }

/-- Whether `messages_bodies_owed_update` finds anything to do. -/
def owedMoves (old new : CountedMail) : Bool :=
  old.mailboxId ≠ new.mailboxId || (!old.deletedLocally && old.owed) != (!new.deletedLocally && new.owed)

def update (id : MessageId) (columns : Columns) : CountedStore :=
  match store.messages.get id.get with
  | none => store
  | some old =>
    let new := columns.applied old
    let counted :=
      if columns.recounts then
        (store.figures.lower visibility old.mailboxId (old.share store.second)).raise visibility new.mailboxId
          (new.share store.second)
      else store.figures
    let owed :=
      if columns.reowes && owedMoves old new then
        (counted.lower bodies old.mailboxId (old.share store.second)).raise bodies new.mailboxId
          (new.share store.second)
      else counted
    { store with
      messages := store.messages.updateAt id.get
        (fun mail =>
          { columns.applied mail with countedAt := if columns.recounts then store.second else mail.countedAt })
        (fun _ => rfl)
      figures := owed }

def delete (id : MessageId) : CountedStore :=
  match store.messages.get id.get with
  | none => store
  | some old =>
    { store with
      messages := store.messages.removeAt id.get
      figures :=
        if old.deletedLocally then store.figures
        else store.figures.lower every old.mailboxId (old.share store.second) }

def write : RowWrite -> CountedStore
  | .insert mail => store.insert mail
  | .update id columns => store.update id columns
  | .delete id => store.delete id

inductive Event where
  | insert (mail : CountedMail)
  | update (ids : List MessageId) (columns : Columns)
  | delete (ids : List MessageId)
  | snooze (ids : List MessageId) (wakeAt : Instant)
  | unsnooze (ids : List MessageId)
  | wakeDue (account : AccountId) (asOf : Instant)

def named (ids : List MessageId) : List MessageId :=
  (store.messages.rows.map CountedMail.id).filter (fun id => ids.contains id)

def due (account : AccountId) (asOf : Instant) : List MessageId :=
  (store.messages.rows.filter (fun mail =>
    mail.accountId = account && mail.snoozedUntil.any (fun wakeAt => wakeAt ≤ asOf))).map CountedMail.id

/-- The rows a statement writes, each of which fires the triggers. -/
def writes : Event -> List RowWrite
  | .insert mail => [.insert mail]
  | .update ids columns => (store.named ids).map (fun id => .update id columns)
  | .delete ids => (store.named ids).map .delete
  | .snooze ids wakeAt => (store.named ids).map (fun id => .update id { snoozedUntil := some (some wakeAt) })
  | .unsnooze ids => (store.named ids).map (fun id => .update id { snoozedUntil := some none })
  | .wakeDue account asOf => (store.due account asOf).map (fun id => .update id { snoozedUntil := some none })

def elapse (elapsed : Nat) : CountedStore := { store with now := store.now + elapsed }

def step (entry : Nat × Event) : CountedStore :=
  Run.run write (store.elapse entry.1) (store.writes entry.2)

def recount : Figures MailboxId MailboxCount :=
  store.messages.tally CountedMail.mailboxId (CountedMail.share store.second)

end CountedStore

end Postio

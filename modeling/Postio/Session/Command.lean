import Postio.Store.MailStore

set_option autoImplicit false

namespace Postio

inductive MessageTarget where
  | selection
  | messages (ids : List MessageId)
  | thread (thread : ThreadId)
  | threads (threads : List ThreadId)
  -- Built by undo only: the queue rows a whole-view action wrote.
  | batch (range : OperationRange) (account : AccountId) (source : Option MailboxId)
  deriving DecidableEq

inductive Command where
  | archive (target : MessageTarget)
  | delete (target : MessageTarget)
  | move (target : MessageTarget) (dest : Option MailboxId)
  | flag (target : MessageTarget) (flagged : Option Bool)
  | toggleRead (target : MessageTarget) (unread : Option Bool)
  | addLabel (target : MessageTarget) (label : Option LabelId) (wanted : Option Bool)
  | snooze (target : MessageTarget) (wakeAt : Option Instant)
  | unsnooze (target : MessageTarget)
  | restoreFiltered (target : MessageTarget) (restored : Bool)
  | archiveDigest (delivery : DeliveryId) (archived : Bool)
  deriving DecidableEq

inductive UndoKind where
  | archive
  | delete
  | move
  | flag
  | unflag
  | markRead
  | markUnread
  | label
  | snooze
  | unsnooze
  | restore
  | refilter
  deriving DecidableEq

inductive CommandError where
  | rejected (reason : String)
  | failed (reason : String)
  deriving DecidableEq

/-- What one unit of a verb did: who it touched, and the commands that take it back. -/
structure Applied where
  account : AccountId
  kind : UndoKind
  messages : List MessageId
  count : Nat
  inverse : List Command
  deriving DecidableEq

inductive ViewScope where
  | mailbox (mailbox : MailboxId)
  | flagged (account : AccountId)
  | unified (accounts : List AccountId)
  | focus (accounts : List AccountId)
  deriving DecidableEq

inductive Selection where
  | everything (excepted : List MessageId)
  | these (messages : List MessageId)
  deriving DecidableEq

/-- What app state knows of the list a verb is invoked over. -/
structure AppState where
  selected : Selection
  viewing : Option ViewScope
  focus : Option MessageId
  deriving DecidableEq

inductive Resolved where
  | messages (ids : List MessageId)
  | everything (scope : ViewScope) (excepted : List MessageId)
  | threads (threads : List ThreadId)
  | thread (thread : ThreadId)
  | batch (range : OperationRange) (account : AccountId) (source : Option MailboxId)
  deriving DecidableEq

def AppState.resolve (app : AppState) : MessageTarget -> Option Resolved
  | .thread thread => some (.thread thread)
  | .threads threads => some (.threads threads)
  | .batch range account source => some (.batch range account source)
  | .messages ids => if ids.isEmpty then none else some (.messages ids)
  | .selection =>
    match app.selected with
    | .everything excepted => app.viewing.map (fun scope => .everything scope excepted)
    | .these messages =>
      if messages.isEmpty then app.focus.map (fun focus => .messages [focus])
      else some (.messages messages)

end Postio

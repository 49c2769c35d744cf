import Mathlib.Data.Finset.Basic
import Postio.Model.Ids

set_option autoImplicit false

namespace Postio

/-- A server keyword. Keywords are compared without regard to ASCII case, so only the folded name is kept. -/
structure Keyword where
  name : List Char
  folded : name.map Char.toLower = name
  deriving DecidableEq

inductive Flag where
  | seen
  | answered
  | flagged
  | deleted
  | draft
  | recent
  | forwarded
  | junk
  | notJunk
  | keyword (name : Keyword)
  deriving DecidableEq

abbrev FlagSet := Finset Flag

inductive OperationTarget where
  | message (id : MessageId)
  | thread (id : ThreadId)
  | mailbox (id : MailboxId)
  | draft (id : DraftId)
  | account (id : AccountId)
  deriving DecidableEq, Repr

structure OperationRange where
  first : OperationId
  last : OperationId
  deriving DecidableEq, Repr

inductive OperationState where
  | pending
  | inFlight
  | done
  | failed
  deriving DecidableEq, Repr

def OperationState.isSettled : OperationState -> Bool
  | .done | .failed => true
  | .pending | .inFlight => false

inductive DraftState where
  | editing
  | queued
  | sending
  | sent
  | failed
  | unconfirmed
  deriving DecidableEq, Repr

inductive Operation where
  | setFlags (flags : FlagSet)
  | clearFlags (flags : FlagSet)
  | move (source dest : MailboxId)
  | delete (source trash : MailboxId)
  | expunge (mailbox : MailboxId)
  | purge (mailbox : MailboxId)
  | append (mailbox : MailboxId) (blob : BlobId) (flags : FlagSet)
  | send (draft : DraftId)
  | saveDraft (mailbox : MailboxId)
  | discardDraft (mailbox : MailboxId) (remoteId : RemoteId)
  | crossAccountCopy (saga : CrossAccountMoveId)
  | crossAccountRemove (saga : CrossAccountMoveId)
  deriving DecidableEq

def Operation.inverse : Operation -> Option Operation
  | .setFlags flags => some (.clearFlags flags)
  | .clearFlags flags => some (.setFlags flags)
  | .move source dest => some (.move dest source)
  | .delete source trash => some (.move trash source)
  | _ => none

def Operation.mailbox : Operation -> Option MailboxId
  | .move source _ | .delete source _ => some source
  | .expunge mailbox | .purge mailbox | .append mailbox _ _ => some mailbox
  | .saveDraft mailbox | .discardDraft mailbox _ => some mailbox
  | _ => none

end Postio

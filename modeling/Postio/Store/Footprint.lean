import Postio.Lib.Run
import Postio.Lib.Table
import Postio.Store.MailStore

set_option autoImplicit false

namespace Postio

/-- The columns of `messages` that its account's footprint reads. -/
structure WeighedMail where
  id : MessageId
  accountId : AccountId
  deletedLocally : Bool
  size : Nat
  bodyState : BodyState
  readReceiptRequested : Bool
  attachmentBytes : Int
  attachmentBytesUnfetched : Int
  deriving DecidableEq

/-- A row of `attachments`, of a message or of a draft. -/
structure AttachmentRow where
  id : Nat
  messageId : Option MessageId
  size : Nat
  blobId : Option BlobId
  deriving DecidableEq

/-- The figures of a row of `account_footprints`. -/
inductive FootprintColumn where
  | messages
  | totalBytes
  | attachmentBytes
  | localBytes
  | readReceipts
  deriving DecidableEq

/-- The two sums a message keeps over its attachments. -/
inductive AttachmentColumn where
  | bytes
  | unfetched
  deriving DecidableEq

def AttachmentRow.weighs (attachment : AttachmentRow) : AttachmentColumn -> Int
  | .bytes => attachment.size
  | .unfetched => if attachment.blobId.isNone then attachment.size else 0

namespace WeighedMail

variable (mail : WeighedMail)

def localBytes : Int :=
  match mail.bodyState with
  | .full => mail.size
  | .partly => mail.size - mail.attachmentBytesUnfetched
  | .notFetched | .headersOnly => 0

def weighs : FootprintColumn -> Int
  | .messages => 1
  | .totalBytes => mail.size
  | .attachmentBytes => mail.attachmentBytes
  | .localBytes => mail.localBytes
  | .readReceipts => if mail.readReceiptRequested then 1 else 0

def share (column : FootprintColumn) : Int := if mail.deletedLocally then 0 else mail.weighs column

def takeOut (attachment : AttachmentRow) (mail : WeighedMail) : WeighedMail :=
  -- The statement `trg_footprint_attachments_ad` runs.
  { mail with
    attachmentBytes := max (mail.attachmentBytes - attachment.weighs .bytes) 0
    attachmentBytesUnfetched := max (mail.attachmentBytesUnfetched - attachment.weighs .unfetched) 0 }

def putIn (attachment : AttachmentRow) (mail : WeighedMail) : WeighedMail :=
  { mail with
    attachmentBytes := mail.attachmentBytes + attachment.weighs .bytes
    attachmentBytesUnfetched := mail.attachmentBytesUnfetched + attachment.weighs .unfetched }

end WeighedMail

/-- The columns an `UPDATE` of a message sets, of those its footprint reads. -/
structure MailColumns where
  accountId : Option AccountId := none
  deletedLocally : Option Bool := none
  size : Option Nat := none
  bodyState : Option BodyState := none
  readReceiptRequested : Option Bool := none
  deriving DecidableEq

def MailColumns.applied (columns : MailColumns) (mail : WeighedMail) : WeighedMail :=
  { mail with
    accountId := columns.accountId.getD mail.accountId
    deletedLocally := columns.deletedLocally.getD mail.deletedLocally
    size := columns.size.getD mail.size
    bodyState := columns.bodyState.getD mail.bodyState
    readReceiptRequested := columns.readReceiptRequested.getD mail.readReceiptRequested }

structure MailWeights where
  messages : Table WeighedMail (fun mail => mail.id.get)
  footprints : Figures AccountId FootprintColumn

/-- A write of one row of `messages`. -/
inductive MailWrite where
  | insert (mail : WeighedMail)
  | update (id : MessageId) (columns : MailColumns)
  | takeOut (id : MessageId) (attachment : AttachmentRow)
  | putIn (id : MessageId) (attachment : AttachmentRow)
  | delete (id : MessageId)

/-- What an update makes of a row. -/
def MailWrite.change : MailWrite -> WeighedMail -> WeighedMail
  | .update _ columns => columns.applied
  | .takeOut _ attachment => WeighedMail.takeOut attachment
  | .putIn _ attachment => WeighedMail.putIn attachment
  | .insert _ | .delete _ => id

theorem MailWrite.change_id (entry : MailWrite) (mail : WeighedMail) : (entry.change mail).id = mail.id := by
  cases entry with
  | _ => rfl

namespace MailWeights

def every (_ : FootprintColumn) : Bool := true

def lower (store : MailWeights) (mail : WeighedMail) : Figures AccountId FootprintColumn :=
  if mail.deletedLocally then store.footprints else store.footprints.lower every mail.accountId mail.weighs

def raise (store : MailWeights) (mail : WeighedMail) : Figures AccountId FootprintColumn :=
  if mail.deletedLocally then store.footprints else store.footprints.raise every mail.accountId mail.weighs

def insert (store : MailWeights) (mail : WeighedMail) : MailWeights where
  messages := store.messages.insert
    (fun id => { mail with id := ⟨id⟩, attachmentBytes := 0, attachmentBytesUnfetched := 0 }) (fun _ => rfl)
  footprints := store.raise { mail with attachmentBytes := 0, attachmentBytesUnfetched := 0 }

def differs (old new : WeighedMail) : Bool :=
  -- The columns `trg_footprint_messages_au` compares.
  old.accountId ≠ new.accountId || old.deletedLocally ≠ new.deletedLocally || old.size ≠ new.size ||
    old.bodyState ≠ new.bodyState || old.readReceiptRequested ≠ new.readReceiptRequested ||
    old.attachmentBytes ≠ new.attachmentBytes || old.attachmentBytesUnfetched ≠ new.attachmentBytesUnfetched

variable (store : MailWeights)

def update (id : MessageId) (entry : MailWrite) : MailWeights :=
  match store.messages.get id.get with
  | none => store
  | some old =>
    { messages := store.messages.updateAt id.get entry.change (fun mail => by rw [entry.change_id])
      footprints :=
        if differs old (entry.change old) then { store with footprints := store.lower old }.raise (entry.change old)
        else store.footprints }

def delete (id : MessageId) : MailWeights :=
  match store.messages.get id.get with
  | none => store
  | some old => { messages := store.messages.removeAt id.get, footprints := store.lower old }

def write (entry : MailWrite) : MailWeights :=
  match entry with
  | .insert mail => store.insert mail
  | .update id _ | .takeOut id _ | .putIn id _ => store.update id entry
  | .delete id => store.delete id

def aggregate (messages : Table WeighedMail (fun mail => mail.id.get)) : Figures AccountId FootprintColumn :=
  messages.tally WeighedMail.accountId WeighedMail.share

end MailWeights

structure FootprintStore extends MailWeights where
  accounts : Table AccountId AccountId.get
  attachments : Table AttachmentRow AttachmentRow.id

namespace FootprintStore

def opened : FootprintStore where
  messages := .empty _
  footprints := fun _ _ => 0
  accounts := .empty _
  attachments := .empty _

structure AttachmentColumns where
  messageId : Option (Option MessageId) := none
  size : Option Nat := none
  blobId : Option (Option BlobId) := none
  deriving DecidableEq

def AttachmentColumns.applied (columns : AttachmentColumns) (attachment : AttachmentRow) : AttachmentRow :=
  { attachment with
    messageId := columns.messageId.getD attachment.messageId
    size := columns.size.getD attachment.size
    blobId := columns.blobId.getD attachment.blobId }

inductive Event where
  | insertAccount
  | deleteAccount (id : AccountId)
  | insertMessage (mail : WeighedMail)
  | updateMessage (id : MessageId) (columns : MailColumns)
  | deleteMessage (id : MessageId)
  | insertAttachment (attachment : AttachmentRow)
  | updateAttachment (id : Nat) (columns : AttachmentColumns)
  | deleteAttachment (id : Nat)

variable (store : FootprintStore)

def hasAccount (account : AccountId) : Bool := (store.accounts.get account.get).isSome

def hasMessage (message : Option MessageId) : Bool :=
  message.all (fun id => (store.messages.get id.get).isSome)

/-- What `trg_footprint_attachments_au` compares. -/
def differs (old new : AttachmentRow) : Bool :=
  old.messageId ≠ new.messageId || old.size ≠ new.size || old.blobId.isNone ≠ new.blobId.isNone

/-- The rows of `messages` that a statement and its triggers write, in order. -/
def writes : Event -> List MailWrite
  | .insertAccount | .deleteAccount _ => []
  | .insertMessage mail => if store.hasAccount mail.accountId then [.insert mail] else []
  | .updateMessage id columns => if columns.accountId.all store.hasAccount then [.update id columns] else []
  | .deleteMessage id => [.delete id]
  | .insertAttachment attachment =>
    if store.hasMessage attachment.messageId then attachment.messageId.toList.map (.putIn · attachment) else []
  | .updateAttachment id columns =>
    match store.attachments.get id with
    | none => []
    | some old =>
      let new := columns.applied old
      if store.hasMessage new.messageId && differs old new then
        old.messageId.toList.map (.takeOut · old) ++ new.messageId.toList.map (.putIn · new)
      else []
  | .deleteAttachment id =>
    match store.attachments.get id with
    | none => []
    | some old => old.messageId.toList.map (.takeOut · old)

/-- What becomes of the attachments themselves. A message's go with it. -/
def attached : Event -> Table AttachmentRow AttachmentRow.id
  | .insertAttachment attachment =>
    if store.hasMessage attachment.messageId then
      store.attachments.insert (fun id => { attachment with id }) (fun _ => rfl)
    else store.attachments
  | .updateAttachment id columns =>
    match store.attachments.get id with
    | none => store.attachments
    | some old =>
      if store.hasMessage (columns.applied old).messageId then
        store.attachments.updateAt id columns.applied (fun _ => rfl)
      else store.attachments
  | .deleteAttachment id => store.attachments.removeAt id
  | .deleteMessage id => store.attachments.remove (fun attachment => attachment.messageId = some id)
  | .deleteAccount account =>
    store.attachments.remove (fun attachment => attachment.messageId.any (fun id =>
      (store.messages.get id.get).any (fun mail => mail.accountId = account)))
  | .insertAccount | .insertMessage _ | .updateMessage _ _ => store.attachments

def step (event : Event) : FootprintStore :=
  let written := { store with
    toMailWeights := Run.run MailWeights.write store.toMailWeights (store.writes event)
    attachments := store.attached event }
  match event with
  | .insertAccount => { written with accounts := store.accounts.insert AccountId.mk (fun _ => rfl) }
  -- Its footprint goes with the account, and so do its messages.
  | .deleteAccount account =>
    { written with
      accounts := store.accounts.removeAt account.get
      messages := store.messages.remove (fun mail => mail.accountId = account)
      footprints := fun other column => if other = account then 0 else store.footprints other column }
  | _ => written

end FootprintStore

end Postio

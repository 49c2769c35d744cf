import Postio.Pull.MailRows
import Postio.Store.Contents

set_option autoImplicit false

namespace Postio.Pull

/-! A row whose backend names the content of its message shows a projection of it. -/

/-- A row of `message_contents`. The attachments of its body are its parts, by position. -/
structure SharedBody where
  id : ContentId
  accountId : AccountId
  identity : Option ContentIdentity
  body : Body
  deriving DecidableEq

structure SharedStore where
  store : Store
  contents : Table SharedBody (fun content => content.id.get)
  -- The columns of a message's row that say what content it is of.
  identityOf : MessageId -> Option ContentIdentity
  contentOf : MessageId -> Option ContentId

/-- A message with the identity its backend guarantees. -/
structure Arrival where
  mail : Mail
  identity : Option ContentIdentity
  deriving DecidableEq

namespace SharedStore

def get (shared : SharedStore) (id : MessageId) : Option Mail := shared.store.get id

variable (shared : SharedStore) (id : MessageId)

def content (id : ContentId) : Option SharedBody := shared.contents.get id.get

def shows (content : ContentId) (row : Mail) : Bool := shared.contentOf row.id = some content

def setRows (chosen : Mail -> Bool) (change : Body -> Body) : SharedStore :=
  { shared with
    store := shared.store.updateWhere chosen (fun row => { row with body := change row.body }) (fun _ => rfl) }

def setBody (change : Body -> Body) : SharedStore :=
  shared.setRows (fun row => row.id = id) change

def setContent (id : ContentId) (change : Body -> Body) : SharedStore :=
  { shared with
    contents := shared.contents.updateAt id.get (fun content => { content with body := change content.body })
      (fun _ => rfl) }

def withAttachments (change : List Attachment -> List Attachment) (body : Body) : Body :=
  { body with attachments := change body.attachments }

def spread (path : Option Text) (blob : Option BlobId) (attachments : List Attachment) : List Attachment :=
  attachments.map (fun attached => if sqlEqual attached.partId path then { attached with blob } else attached)

/-! ### What the triggers do -/

def showBlob (content : ContentId) (path : Option Text) (blob : Option BlobId) : SharedStore :=
  shared.setRows (shared.shows content) (withAttachments (spread path blob))

def keepBlob (content : ContentId) (path : Option Text) (blob : Option BlobId) : SharedStore :=
  shared.setContent content (withAttachments (spread path blob))

def partsOf (content : ContentId) : List Attachment :=
  (shared.content content).elim [] (fun content => content.body.attachments)

def attachmentsOf : List Attachment :=
  (shared.get id).elim [] (fun row => row.body.attachments)

def attachmentBlobUpdated (attached : Attachment) : SharedStore :=
  match shared.contentOf id, attached.blob with
  | some content, some blob =>
    if (shared.partsOf content).any (fun part => sqlEqual part.partId attached.partId && part.blob ≠ some blob) then
      (shared.keepBlob content attached.partId (some blob)).showBlob content attached.partId (some blob)
    else shared
  | _, _ => shared

def partBlobUpdated (content : ContentId) (part : Attachment) : SharedStore :=
  let changed := shared.store.messages.rows.any (fun row => shared.shows content row &&
    row.body.attachments.any (fun attached => sqlEqual attached.partId part.partId && attached.blob ≠ part.blob))
  let shown := shared.showBlob content part.partId part.blob
  -- What a trigger has written does not set it off again.
  if changed && part.blob.isSome then shown.keepBlob content part.partId part.blob else shown

def describedBy (attached part : Attachment) : Attachment := { attached with blob := attached.blob.or part.blob }

def upsertPart (content : ContentId) (position : Nat) (attached : Attachment) : SharedStore :=
  match (shared.partsOf content)[position]? with
  | some old =>
    let new := describedBy attached old
    let written := shared.setContent content (withAttachments (fun parts => parts.set position new))
    if new.blob ≠ old.blob then written.partBlobUpdated content new else written
  | none => shared.setContent content (withAttachments (fun parts => parts ++ [attached]))

/-- An attachment goes to the next position. -/
def insertAttachment (shared : SharedStore) (attached : Attachment) : SharedStore :=
  let position := (shared.attachmentsOf id).length
  let written := shared.setBody id (withAttachments (fun attachments => attachments ++ [attached]))
  match shared.identityOf id, shared.contentOf id with
  | some _, some content => written.upsertPart content position attached
  | _, _ => written

def setAttachedBlob (content : ContentId) (shared : SharedStore) (position : Nat) : SharedStore :=
  -- The payload is the part's, as it is when the row's turn comes.
  match (shared.attachmentsOf id)[position]? with
  | none => shared
  | some attached =>
    let shown := { attached with blob := (shared.partsOf content)[position]?.bind (fun part => part.blob) }
    (shared.setBody id (withAttachments (fun attachments => attachments.set position shown))).attachmentBlobUpdated id
      shown

def refresh (content : ContentId) (id : MessageId) : SharedStore :=
  let trimmed := shared.setBody id (withAttachments (fun attachments =>
    attachments.take (shared.partsOf content).length))
  let missing := (shared.partsOf content).drop (trimmed.attachmentsOf id).length
  let filled := missing.foldl (insertAttachment id) trimmed
  (List.range (filled.attachmentsOf id).length).foldl (setAttachedBlob id content) filled

/-- What a row with an identity shows of its content. -/
def restated (content body : Body) : Body :=
  { body with
    state :=
      if isLocal content.state then
        if body.attachments.any (fun attached => attached.blob.isNone) then .partly else .full
      else .headersOnly
    rawBlob := content.rawBlob.or body.rawBlob
    preview := body.preview.or content.preview
    contentType := content.contentType.or body.contentType
    textPart := content.textPart.or body.textPart
    htmlPart := content.htmlPart.or body.htmlPart }

def project : SharedStore :=
  -- A row without an identity is not projected.
  match shared.identityOf id, (shared.contentOf id).bind shared.content with
  | some _, some content =>
    let refreshed :=
      if content.identity.isSome && isLocal content.body.state then shared.refresh content.id id else shared
    refreshed.setBody id (restated content.body)
  | _, _ => shared

def findContent (accountId : AccountId) (identity : ContentIdentity) : Option ContentId :=
  (shared.contents.rows.find? (fun content => content.accountId = accountId && content.identity = some identity)).map
    (fun content => content.id)

def emptyBody (body : Body) : Body :=
  { state := .headersOnly, rawBlob := body.rawBlob, preview := body.preview, contentType := none, textPart := none
    htmlPart := none, attachments := [] }

/-- Content nobody has been of yet knows of the raw source and the preview. -/
def newContent (accountId : AccountId) (identity : Option ContentIdentity) (body : Body) :
    SharedStore × ContentId :=
  ({ shared with
      contents := shared.contents.insert
        (fun id => { id := ⟨id⟩, accountId, identity, body := emptyBody body }) (fun _ => rfl) },
    ⟨shared.contents.nextId⟩)

def join (content : ContentId) : SharedStore :=
  { shared with contentOf := fun other => if other = id then some content else shared.contentOf other }

def dropUnused (content : ContentId) : SharedStore :=
  if shared.store.messages.rows.any (shared.shows content) then shared
  else { shared with contents := shared.contents.removeAt content.get }

def acquire (row : Mail) (identity : Option ContentIdentity) : SharedStore :=
  -- The content an identity stands for takes the place of what the row was of.
  let named := { shared with identityOf := fun other => if other = id then identity else shared.identityOf other }
  let (kept, content) :=
    match identity.bind (shared.findContent row.accountId) with
    | some content => (named, content)
    | none => named.newContent row.accountId identity row.body
  let joined := (kept.join id content).project id
  (shared.contentOf id).elim joined joined.dropUnused

/-! ### A message written -/

def identify (row : Mail) (identity : Option ContentIdentity) : SharedStore :=
  if shared.identityOf id = identity then shared else shared.acquire id row identity

def writeChildren (attachments : List Attachment) : SharedStore :=
  (attachments.foldl (insertAttachment id) (shared.setBody id (withAttachments (fun _ => [])))).project id

/-- The row's columns are written, its identity with them, and its attachments one by one. -/
def write (before : List Attachment) (written : Store) (identity : Option ContentIdentity) : SharedStore :=
  match written.get id with
  | none => { shared with store := written }
  | some row =>
    let columns := { shared with store := written : SharedStore }.setBody id (withAttachments (fun _ => before))
    (columns.identify id row identity).writeChildren id row.body.attachments

def forget : SharedStore :=
  { shared with
    identityOf := fun other => if other = id then none else shared.identityOf other
    contentOf := fun other => if other = id then none else shared.contentOf other }

def upsert (arrival : Arrival) : Option SharedStore :=
  match shared.store.existing arrival.mail with
  | some id =>
    (shared.store.writeUpdate id (shared.store.reconciled id arrival.mail)).map (fun written =>
      shared.write id (shared.attachmentsOf id) written arrival.identity)
  | none =>
    (shared.store.insert arrival.mail).map (fun inserted =>
      -- A row that is new is of no content yet.
      (shared.forget ⟨shared.store.messages.nextId⟩).write ⟨shared.store.messages.nextId⟩ [] inserted arrival.identity)

def upsertAll (shared : SharedStore) : List Arrival -> Option SharedStore
  | [] => some shared
  | arrival :: rest => (shared.upsert arrival).bind (fun shared => shared.upsertAll rest)

def upsertBatch (batch : List Arrival) : Option SharedStore :=
  shared.upsertAll (batch.filter (fun arrival => shared.store.retained arrival.mail))

end SharedStore

end Postio.Pull

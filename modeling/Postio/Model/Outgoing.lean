import Mathlib.Data.List.Infix
import Postio.Lib.Fields
import Postio.Model.RecipientLaw

set_option autoImplicit false

namespace Postio.Outgoing

open Fields (Text folds isBlank Opens)
open Recipients (EmailAddress rsplitOnce)

/-! The header fields a draft is sent with. -/

/-! ### Message ids -/

/-- `RfcMessageId`, by what it was made from. -/
structure RfcMessageId where
  given : Text
  deriving DecidableEq

namespace RfcMessageId

def trimBrackets (text : Text) : Text := (text.dropWhile (· == '<')).rdropWhile (· == '>')

variable (id : RfcMessageId)

def asStr : Text := '<' :: (Lines.trim (trimBrackets (Lines.trim id.given)) ++ ['>'])

def withoutBrackets : Text := trimBrackets id.asStr

def same (other : RfcMessageId) : Bool := id.asStr.map Char.toLower == other.asStr.map Char.toLower

end RfcMessageId

/-- The message an answer is written to. -/
structure Message where
  rfcMessageId : Option RfcMessageId
  inReplyTo : Option RfcMessageId
  references : List RfcMessageId

def Message.referenceChain (message : Message) : List RfcMessageId :=
  message.references ++ (message.inReplyTo.filter (fun id => !(message.references.getLast?.any id.same))).toList

/-! ### Drafts -/

inductive Disposition where
  | inline
  | attachment
  | other
  deriving DecidableEq

structure Attachment where
  filename : Option Text
  mimeType : Text
  contentId : Option Text
  disposition : Disposition

def Attachment.displayName (attachment : Attachment) : Text :=
  match attachment.filename with
  | some name => if Lines.trim name ≠ [] then name else "attachment".toList
  | none => "attachment".toList

structure Identity where
  address : EmailAddress
  replyTo : Option EmailAddress

def Identity.effectiveReplyTo (identity : Identity) : EmailAddress := identity.replyTo.getD identity.address

structure Draft where
  rfcMessageId : Option RfcMessageId
  subject : Text
  recipients : List EmailAddress
  cc : List EmailAddress
  bcc : List EmailAddress
  text : Option Text
  markdown : Bool
  html : Option Text

/-- Whether the assembled message carries a `Bcc` header. -/
inductive Bcc where
  | omitted
  | included
  deriving DecidableEq

/-! ### What is handed to the mail builder -/

inductive Name where
  | messageId
  | date
  | sender
  | replyTo
  | inReplyTo
  | references
  | subject
  | recipients
  | cc
  | bcc
  | contentType
  | contentDisposition
  | contentId
  deriving DecidableEq

def Name.text : Name -> Text
  | messageId => "Message-ID".toList
  | date => "Date".toList
  | sender => "From".toList
  | replyTo => "Reply-To".toList
  | inReplyTo => "In-Reply-To".toList
  | references => "References".toList
  | subject => "Subject".toList
  | recipients => "To".toList
  | cc => "Cc".toList
  | bcc => "Bcc".toList
  | contentType => "Content-Type".toList
  | contentDisposition => "Content-Disposition".toList
  | contentId => "Content-ID".toList

inductive Attribute where
  | charset
  | format
  | method
  | filename
  deriving DecidableEq

def Attribute.text : Attribute -> Text
  | charset => "charset".toList
  | format => "format".toList
  | method => "method".toList
  | filename => "filename".toList

inductive Value where
  | now
  | text (value : Text)
  | address (address : EmailAddress)
  | addresses (list : List EmailAddress)
  | messageIds (ids : List Text)
  | contentType (type : Text) (attributes : List (Attribute × Text))

def mbAddress (address : EmailAddress) : List Text := address.name.toList ++ [address.address]

/-- The strings a value holds, in the order they are written. -/
def Value.pieces : Value -> List Text
  | now => []
  | text given => [given]
  | address one => mbAddress one
  | addresses list => list.flatMap mbAddress
  | messageIds ids => ids
  | contentType type attributes => type :: attributes.map Prod.snd

abbrev Field := Name × Value

structure Built where
  header : List Field
  parts : List (List Field)

/-! ### `header_text` -/

def isBreak (char : Char) : Bool := char == '\r' || char == '\n'

def foldBreaks (folded : Text) : Text -> Text
  | [] => folded
  | char :: rest =>
    if isBreak char then
      let later := rest.dropWhile (fun next => isBreak next || isBlank next)
      foldBreaks (if folded ≠ [] ∧ later ≠ [] then folded ++ [' '] else folded) later
    else foldBreaks (folded ++ [char]) rest
termination_by text => text.length
decreasing_by
  next =>
    have fewer := (List.dropWhile_sublist (fun next => isBreak next || isBlank next) (l := rest)).length_le
    simp only [List.length_cons]
    omega
  next => simp

def headerText (value : Text) : Text := if value.any isBreak then foldBreaks [] value else value

/-! ### `assemble` -/

def usableMessageId (id : RfcMessageId) : Option Text :=
  if id.withoutBrackets.any isBreak then none else some id.withoutBrackets

def threadingHeaders (parent : Message) : List Field :=
  let references := parent.referenceChain.filterMap usableMessageId
  match parent.rfcMessageId.bind usableMessageId with
  | some parentId => [(.inReplyTo, .messageIds [parentId]), (.references, .messageIds (references ++ [parentId]))]
  | none => if references = [] then [] else [(.references, .messageIds references)]

def undisclosedRecipients : Text := "undisclosed-recipients:;".toList

def recipientList (addresses : List EmailAddress) : Option Value :=
  if addresses = [] then none else some (.addresses addresses)

variable (token : Text) (draft : Draft) (identity : Identity)

def recipientsHeader (bcc : Bcc) : List Field :=
  match recipientList draft.recipients with
  | some list => [(.recipients, list)]
  | none =>
    if bcc = .omitted ∧ draft.cc = [] ∧ draft.bcc ≠ [] then [(.recipients, .text undisclosedRecipients)] else []

def attachmentPart (attachment : Attachment) : List Field :=
  match attachment.disposition, attachment.contentId with
  | .inline, some contentId =>
    [(.contentType, .contentType attachment.mimeType []), (.contentDisposition, .contentType "inline".toList []),
      (.contentId, .messageIds [contentId])]
  | _, _ =>
    [(.contentType, .contentType attachment.mimeType []),
      (.contentDisposition, .contentType "attachment".toList [(.filename, attachment.displayName)])]

def textPart : List (List Field) :=
  let charset := (Attribute.charset, "utf-8".toList)
  let format := if draft.markdown then [] else [(.format, "flowed".toList)]
  (draft.text.map (fun _ => [(Name.contentType, Value.contentType "text/plain".toList (charset :: format))])).toList

def htmlPart : List (List Field) :=
  (draft.html.map (fun _ =>
    [(Name.contentType, Value.contentType "text/html".toList [(.charset, "utf-8".toList)])])).toList

/-- The answer to an invitation. Its one method is `REPLY`. -/
def calendarPart (calendar : Bool) : List (List Field) :=
  if calendar then
    [[(.contentType, .contentType "text/calendar".toList
      [(.method, "REPLY".toList), (.charset, "utf-8".toList)])]]
  else []

def fallbackDomain : Text := "invalid".toList

/-- A fresh id. `token` is what `make_boundary` gives. -/
def generateMessageId (domain : Text) : RfcMessageId := ⟨token ++ '@' :: domain⟩

def domain (address : EmailAddress) : Option Text := (rsplitOnce '@' address.address).map Prod.snd

def messageId : RfcMessageId :=
  draft.rfcMessageId.getD (generateMessageId token ((domain identity.address).getD fallbackDomain))

def header (parent : Option Message) (bcc : Bcc) : List Field :=
  [(.messageId, .messageIds [(messageId token draft identity).withoutBrackets]), (.date, .now),
    (.sender, .address identity.address), (.replyTo, .address identity.effectiveReplyTo)] ++
  (parent.map threadingHeaders).getD [] ++
  (if draft.subject = [] then [] else [(.subject, .text (headerText draft.subject))]) ++
  recipientsHeader draft bcc ++
  (recipientList draft.cc).toList.map (fun list => (.cc, list)) ++
  (if bcc = .included then (recipientList draft.bcc).toList.map (fun list => (.bcc, list)) else [])

def assemble (attachments : List Attachment) (parent : Option Message)
    (bcc : Bcc) (calendar : Bool) : Built :=
  { header := header token draft identity parent bcc
    parts := textPart draft ++ htmlPart draft ++ attachments.map attachmentPart ++ calendarPart calendar }

def build (attachments : List Attachment) (parent : Option Message) (calendar : Bool) : Built :=
  assemble token draft identity attachments parent .omitted calendar

/-! ### The mail builder -/

/-- What `mail-builder` writes around the strings of a value, before the first and after each; the fields it adds to a section of
its own; and what follows the section. -/
structure Builder where
  lead : Field -> Text
  after : Field -> List Text
  own : List Field -> List Text
  body : List Field -> Text

namespace Builder

def fieldText (builder : Builder) (field : Field) : Text :=
  field.1.text ++ ([':', ' '] ++ (builder.lead field ++
    (List.zipWith (fun piece after => piece ++ after) field.2.pieces (builder.after field)).flatten))

def fields (builder : Builder) (fields : List Field) : List Text := fields.map builder.fieldText ++ builder.own fields

def write (builder : Builder) (fields : List Field) : Text := Fields.sectionText (builder.fields fields) (builder.body fields)

/-- A string is written as it is given. What stands around it is folded, sets it off from the next, and does not make a fold of
a line break that the string ends with. -/
structure AsGiven (builder : Builder) : Prop where
  all : ∀ field, (builder.after field).length = field.2.pieces.length
  lead : ∀ field, folds (builder.lead field) = true
  after : ∀ field, ∀ after ∈ builder.after field, folds after = true ∧ after.head?.any isBlank = false
  apart : ∀ field, ∀ after ∈ (builder.after field).dropLast, after ≠ []
  own : ∀ fields, ∀ field ∈ builder.own fields, Opens field ∧ folds field = true

end Builder

def Reads (builder : Builder) (fields : List Field) : Prop :=
  Fields.readFields (builder.write fields) = builder.fields fields ∧ (fields.map Prod.fst).Nodup

def Safe (builder : Builder) (built : Built) : Prop := Reads builder built.header ∧ ∀ part ∈ built.parts, Reads builder part

end Postio.Outgoing

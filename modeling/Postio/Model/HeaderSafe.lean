import Postio.Model.Outgoing

set_option autoImplicit false

namespace Postio.Outgoing

open Fields (Text folds isBlank Opens)
open Recipients (EmailAddress)

/-! Which values of a draft can create a header. -/

/-! ### A field as it is written -/

theorem name_opens (name : Name) (rest : Text) : Opens (name.text ++ ([':', ' '] ++ rest)) := by
  cases name <;> exact ⟨_, _, rfl, by decide, by decide, by decide⟩

theorem name_folds (name : Name) : folds (name.text ++ [':', ' ']) = true := by cases name <;> decide

/-- Strings that are set off from each other fold as each of them does. -/
theorem folds_pieces (pieces afters : List Text) (all : afters.length = pieces.length)
    (sound : ∀ after ∈ afters, folds after = true ∧ after.head?.any isBlank = false) (apart : ∀ after ∈ afters.dropLast, after ≠ []) :
    folds (List.zipWith (fun piece after => piece ++ after) pieces afters).flatten = true <->
      ∀ piece ∈ pieces, folds piece = true := by
  induction pieces generalizing afters with
  | nil => simp [folds]
  | cons piece pieces ih =>
    cases afters with
    | nil => cases all
    | cons after afters =>
      obtain ⟨⟨folded, solid⟩, behind⟩ := List.forall_mem_cons.mp sound
      have length : afters.length = pieces.length := Nat.succ.inj all
      have inner : ∀ other ∈ afters.dropLast, other ≠ [] := by
        intro other inside
        cases afters with
        | nil => cases inside
        | cons next afters => exact apart other (by rw [List.dropLast_cons_of_ne_nil (by simp)]; exact List.mem_cons_of_mem _ inside)
      have unblank : (after ++ (List.zipWith (fun piece after => piece ++ after) pieces afters).flatten).head?.any isBlank = false := by
        cases after with
        | cons char after => exact solid
        | nil =>
          cases afters with
          | nil => simp
          | cons next afters => exact absurd rfl (apart [] (by simp))
      rw [List.zipWith_cons_cons, List.flatten_cons, List.append_assoc, Fields.folds_solid _ _ unblank,
        Fields.folds_append _ _ folded, Bool.and_eq_true, ih afters length behind inner, List.forall_mem_cons]

section

variable (builder : Builder) (given : builder.AsGiven)

include given

theorem folds_fieldText (field : Field) : folds (builder.fieldText field) = true <-> ∀ piece ∈ field.2.pieces, folds piece = true := by
  rw [Builder.fieldText, ← List.append_assoc, Fields.folds_append _ _ (name_folds field.1), Fields.folds_append _ _ (given.lead field),
    folds_pieces _ _ (given.all field) (given.after field) (given.apart field)]

/-- A section is read back where the strings of its values fold. -/
theorem write_iff (fields : List Field) : Fields.readFields (builder.write fields) = builder.fields fields <->
    ∀ field ∈ fields, ∀ piece ∈ field.2.pieces, folds piece = true := by
  have opens : ∀ text ∈ builder.fields fields, Opens text := by
    intro text inside
    rcases List.mem_append.mp inside with set | own
    next =>
      obtain ⟨field, -, rfl⟩ := List.mem_map.mp set
      exact name_opens field.1 _
    next => exact (given.own fields text own).1
  rw [Builder.write, Fields.readFields_section _ _ opens]
  constructor
  next =>
    intro all field inside
    rw [← folds_fieldText builder given field]
    exact all _ (List.mem_append_left _ (List.mem_map.mpr ⟨field, inside, rfl⟩))
  next =>
    intro all text inside
    rcases List.mem_append.mp inside with set | own
    next =>
      obtain ⟨field, among, rfl⟩ := List.mem_map.mp set
      exact (folds_fieldText builder given field).mpr (all field among)
    next => exact (given.own fields text own).2

end

/-! ### Values that are made safe -/

theorem foldBreaks_plain (folded text : Text) (plain : '\n' ∉ folded) : '\n' ∉ foldBreaks folded text := by
  fun_induction foldBreaks folded text with
  | case1 folded => exact plain
  | case2 folded char rest breaks later ih =>
    refine ih ?_
    split
    next => simpa using plain
    next => exact plain
  | case3 folded char rest other ih =>
    refine ih ?_
    have unlike : '\n' ≠ char := fun same => other (by rw [← same]; rfl)
    simpa [unlike] using plain

theorem headerText_plain (value : Text) : '\n' ∉ headerText value := by
  unfold headerText
  split
  next => exact foldBreaks_plain [] value List.not_mem_nil
  next other =>
    intro inside
    exact other (List.any_eq_true.mpr ⟨'\n', inside, rfl⟩)

theorem usable_folds (id : RfcMessageId) (text : Text) (usable : usableMessageId id = some text) : folds text = true := by
  unfold usableMessageId at usable
  split at usable
  next => cases usable
  next other =>
    cases usable
    exact Fields.folds_plain _ (fun inside => other (List.any_eq_true.mpr ⟨'\n', inside, rfl⟩))

theorem threading_folds (parent : Message) :
    ∀ field ∈ threadingHeaders parent, ∀ piece ∈ field.2.pieces, folds piece = true := by
  have chain : ∀ text ∈ parent.referenceChain.filterMap usableMessageId, folds text = true := by
    intro text inside
    obtain ⟨id, -, usable⟩ := List.mem_filterMap.mp inside
    exact usable_folds id text usable
  unfold threadingHeaders
  cases found : parent.rfcMessageId.bind usableMessageId with
  | some parentId =>
    obtain ⟨id, -, usable⟩ := Option.bind_eq_some_iff.mp found
    have own := usable_folds id parentId usable
    simp only [List.forall_mem_cons, Value.pieces, List.forall_mem_append, List.not_mem_nil, false_implies, implies_true,
      and_true]
    exact ⟨own, chain, own⟩
  | none =>
    dsimp only
    split
    next => simp
    next => simpa [Value.pieces] using chain

/-! ### An id that is made for the message -/

variable (attachment : Attachment) (text token : Text) (address : EmailAddress) (draft : Draft)

theorem trim_folds (folded : folds text = true) : folds (Lines.trim text) = true := by
  obtain ⟨lead, trail, -, -, split⟩ := Lines.trim_split text
  rw [split] at folded
  refine Fields.folds_front _ trail (Fields.folds_back lead _ folded) (fun last => ?_)
  have blank := (Lines.trim_ends text).2 '\n' last
  exact absurd blank (by decide)

theorem trimBrackets_folds (folded : folds text = true) : folds (RfcMessageId.trimBrackets text) = true := by
  have inner : folds (text.dropWhile (· == '<')) = true := by
    rw [← List.takeWhile_append_dropWhile (p := (· == '<')) (l := text)] at folded
    exact Fields.folds_back _ _ folded
  have solid : ((text.dropWhile (· == '<')).rtakeWhile (· == '>')).head?.any isBlank = false := by
    cases cut : (text.dropWhile (· == '<')).rtakeWhile (· == '>') with
    | nil => rfl
    | cons char rest =>
      have same := List.mem_rtakeWhile_imp (p := (· == '>')) (cut ▸ List.mem_cons_self : char ∈ _)
      obtain rfl := eq_of_beq same
      rfl
  rw [← @List.rdropWhile_append_rtakeWhile _ (· == '>') (text.dropWhile (· == '<')), Fields.folds_solid _ _ solid,
    Bool.and_eq_true] at inner
  exact inner.1

theorem asStr_folds (id : RfcMessageId) (folded : folds id.given = true) : folds id.withoutBrackets = true := by
  have inner := trim_folds _ (trimBrackets_folds _ (trim_folds id.given folded))
  refine trimBrackets_folds _ ?_
  have closed : folds (Lines.trim (RfcMessageId.trimBrackets (Lines.trim id.given)) ++ ['>']) = true := by
    rw [Fields.folds_solid _ _ rfl, inner]
    rfl
  rw [RfcMessageId.asStr, folds, closed]
  rfl

theorem generated_folds (plain : '\n' ∉ token) (address : EmailAddress)
    (folded : folds address.address = true) :
    folds (generateMessageId token ((domain address).getD fallbackDomain)).withoutBrackets = true := by
  refine asStr_folds _ ?_
  have behind : folds ((domain address).getD fallbackDomain) = true := by
    unfold domain
    cases split : Recipients.rsplitOnce '@' address.address with
    | none => rfl
    | some parts =>
      have whole := (Recipients.rsplitOnce_some '@' address.address parts.1 parts.2 split).1
      rw [whole, List.append_cons] at folded
      exact Fields.folds_back _ _ folded
  have mark : folds ('@' :: (domain address).getD fallbackDomain) = true := by
    rw [folds, behind]
    rfl
  rw [generateMessageId, Fields.folds_solid _ _ rfl, mark, Fields.folds_plain token plain]
  rfl

/-! ### The fields of a message -/

def headerNames : List Name :=
  [.messageId, .date, .sender, .replyTo, .inReplyTo, .references, .subject, .recipients, .cc, .bcc]

/-- Each field is set once. -/
theorem header_nodup (identity : Identity) (parent : Option Message) (bcc : Bcc) :
    ((header token draft identity parent bcc).map Prod.fst).Nodup := by
  have threading : (((parent.map threadingHeaders).getD []).map Prod.fst).Sublist [Name.inReplyTo, .references] := by
    cases parent with
    | none => exact List.nil_sublist _
    | some parent =>
      simp only [Option.map_some, Option.getD_some, threadingHeaders]
      split
      next => exact List.Sublist.refl _
      next =>
        split
        next => exact List.nil_sublist _
        next => exact List.Sublist.cons _ (List.Sublist.refl _)
  have subject : ((if draft.subject = [] then [] else [(Name.subject, Value.text (headerText draft.subject))]).map Prod.fst).Sublist
      [Name.subject] := by
    split
    next => exact List.nil_sublist _
    next => exact List.Sublist.refl _
  have named (addresses : List EmailAddress) (name : Name) :
      (((recipientList addresses).toList.map (fun list => (name, list))).map Prod.fst).Sublist [name] := by
    unfold recipientList
    split
    next => exact List.nil_sublist _
    next => exact List.Sublist.refl _
  have recipients : ((recipientsHeader draft bcc).map Prod.fst).Sublist [Name.recipients] := by
    unfold recipientsHeader
    split
    next => exact List.Sublist.refl _
    next =>
      split
      next => exact List.Sublist.refl _
      next => exact List.nil_sublist _
  have hidden : ((if bcc = .included then (recipientList draft.bcc).toList.map (fun list => (Name.bcc, list)) else []).map
      Prod.fst).Sublist [Name.bcc] := by
    split
    next => exact named draft.bcc .bcc
    next => exact List.nil_sublist _
  have sub : ((header token draft identity parent bcc).map Prod.fst).Sublist headerNames := by
    simp only [header, List.map_append]
    exact ((((List.Sublist.refl [Name.messageId, .date, .sender, .replyTo]).append threading).append subject).append
      recipients).append (named draft.cc .cc) |>.append hidden
  exact sub.nodup (by decide)

/-- What is written of an attachment. -/
def Attachment.Clean : Prop :=
  folds attachment.mimeType = true ∧
    match attachment.disposition, attachment.contentId with
    | .inline, some contentId => folds contentId = true
    | _, _ => folds attachment.displayName = true

/-- The values that reach the builder as they are have no line break but in a fold. -/
structure Clean (draft : Draft) (identity : Identity) (attachments : List Attachment) (bcc : Bcc) : Prop where
  sender : ∀ piece ∈ mbAddress identity.address ++ mbAddress identity.effectiveReplyTo, folds piece = true
  reserved : ∀ id ∈ draft.rfcMessageId, folds id.withoutBrackets = true
  recipients : ∀ address ∈ draft.recipients ++ draft.cc ++ (if bcc = .included then draft.bcc else []),
    ∀ piece ∈ mbAddress address, folds piece = true
  attachments : ∀ attachment ∈ attachments, attachment.Clean

def AllFold (fields : List Field) : Prop := ∀ field ∈ fields, ∀ piece ∈ field.2.pieces, folds piece = true

theorem allFold_append (front back : List Field) : AllFold (front ++ back) <-> AllFold front ∧ AllFold back :=
  List.forall_mem_append

theorem named_folds (addresses : List EmailAddress) (name : Name) :
    AllFold ((recipientList addresses).toList.map (fun list => (name, list))) <->
      ∀ address ∈ addresses, ∀ piece ∈ mbAddress address, folds piece = true := by
  unfold AllFold recipientList
  split
  next none => simp [none]
  next =>
    simp only [Option.toList_some, List.map_cons, List.map_nil, List.forall_mem_singleton, Value.pieces, List.mem_flatMap]
    exact ⟨fun all address inside piece among => all piece ⟨address, inside, among⟩,
      fun all piece ⟨address, inside, among⟩ => all address inside piece among⟩

theorem recipientsHeader_folds (bcc : Bcc) : AllFold (recipientsHeader draft bcc) <->
    ∀ address ∈ draft.recipients, ∀ piece ∈ mbAddress address, folds piece = true := by
  have named := named_folds draft.recipients .recipients
  unfold recipientsHeader
  cases list : recipientList draft.recipients with
  | some list' =>
    rw [list] at named
    exact named
  | none =>
    rw [list] at named
    refine iff_of_true ?_ (named.mp (by simp [AllFold]))
    have constant : folds undisclosedRecipients = true := by decide
    dsimp only
    split
    next => simpa [AllFold, Value.pieces] using constant
    next => simp [AllFold]

/-- A reserved id is written as it is, and an id that is made for the message takes the domain of the sender's address. -/
theorem messageId_folds (plain : '\n' ∉ token) (draft : Draft) (identity : Identity)
    (sender : folds identity.address.address = true) : folds (messageId token draft identity).withoutBrackets = true <->
      ∀ id ∈ draft.rfcMessageId, folds id.withoutBrackets = true := by
  unfold messageId
  cases draft.rfcMessageId with
  | none => exact iff_of_true (generated_folds token plain identity.address sender) (fun _ none => by cases none)
  | some id => simp

theorem header_folds (plain : '\n' ∉ token) (draft : Draft) (identity : Identity) (parent : Option Message)
    (bcc : Bcc) : AllFold (header token draft identity parent bcc) <->
      (∀ piece ∈ mbAddress identity.address ++ mbAddress identity.effectiveReplyTo, folds piece = true) ∧
      (∀ id ∈ draft.rfcMessageId, folds id.withoutBrackets = true) ∧
      ∀ address ∈ draft.recipients ++ draft.cc ++ (if bcc = .included then draft.bcc else []),
        ∀ piece ∈ mbAddress address, folds piece = true := by
  have threading : AllFold ((parent.map threadingHeaders).getD []) := by
    cases parent with
    | none => simp [AllFold]
    | some parent => exact threading_folds parent
  have subject : AllFold (if draft.subject = [] then [] else [(.subject, .text (headerText draft.subject))]) := by
    split
    next => simp [AllFold]
    next => simpa [AllFold, Value.pieces] using Fields.folds_plain _ (headerText_plain draft.subject)
  have hidden : AllFold (if bcc = .included then (recipientList draft.bcc).toList.map (fun list => (Name.bcc, list)) else []) <->
      ∀ address ∈ (if bcc = .included then draft.bcc else []), ∀ piece ∈ mbAddress address, folds piece = true := by
    split
    next => exact named_folds draft.bcc .bcc
    next => simp [AllFold]
  have opening : AllFold [(.messageId, .messageIds [(messageId token draft identity).withoutBrackets]), (.date, .now),
      (.sender, .address identity.address), (.replyTo, .address identity.effectiveReplyTo)] <->
        folds (messageId token draft identity).withoutBrackets = true ∧
        ∀ piece ∈ mbAddress identity.address ++ mbAddress identity.effectiveReplyTo, folds piece = true := by
    simp only [AllFold, List.forall_mem_cons, Value.pieces, List.forall_mem_append, List.not_mem_nil, false_implies,
      implies_true, and_true, true_and]
  simp only [header, allFold_append, opening, threading, subject, recipientsHeader_folds, named_folds, hidden, and_true,
    List.forall_mem_append]
  have sender : (∀ piece ∈ mbAddress identity.address, folds piece = true) -> folds identity.address.address = true :=
    fun all => all _ (by simp [mbAddress])
  constructor
  next =>
    rintro ⟨⟨⟨⟨id, own, reply⟩, listed⟩, copied⟩, blind⟩
    exact ⟨⟨own, reply⟩, (messageId_folds token plain draft identity (sender own)).mp id, ⟨listed, copied⟩, blind⟩
  next =>
    rintro ⟨⟨own, reply⟩, id, ⟨listed, copied⟩, blind⟩
    exact ⟨⟨⟨⟨(messageId_folds token plain draft identity (sender own)).mpr id, own, reply⟩, listed⟩, copied⟩, blind⟩

theorem attachmentPart_folds : AllFold (attachmentPart attachment) <-> attachment.Clean := by
  have inline : folds "inline".toList = true := by decide
  have attached : folds "attachment".toList = true := by decide
  obtain ⟨filename, mimeType, contentId, disposition⟩ := attachment
  cases disposition <;> cases contentId <;>
    simp only [attachmentPart, Attachment.Clean, AllFold, List.forall_mem_cons, Value.pieces, List.map_cons, List.map_nil,
      List.not_mem_nil, false_implies, implies_true, and_true, true_and, inline, attached]

theorem attachmentPart_nodup : ((attachmentPart attachment).map Prod.fst).Nodup := by
  unfold attachmentPart
  split
  next => exact (by decide : [Name.contentType, .contentDisposition, .contentId].Nodup)
  next => exact (by decide : [Name.contentType, .contentDisposition].Nodup)

/-- What is written of the parts that no value of the draft reaches. -/
theorem constant_folds (calendar : Bool) :
    ∀ part ∈ textPart draft ++ htmlPart draft ++ calendarPart calendar, AllFold part ∧ (part.map Prod.fst).Nodup := by
  have single (type : Text) (attributes : List (Attribute × Text)) (folded : folds type = true)
      (all : ∀ named ∈ attributes, folds named.2 = true) :
      AllFold [(.contentType, .contentType type attributes)] ∧ ([(Name.contentType, Value.contentType type attributes)].map
        Prod.fst).Nodup := by
    refine ⟨?_, List.nodup_singleton _⟩
    simp only [AllFold, List.forall_mem_singleton, Value.pieces, List.forall_mem_cons, List.forall_mem_map]
    exact ⟨folded, all⟩
  intro part inside
  rcases List.mem_append.mp inside with body | answer
  next =>
    rcases List.mem_append.mp body with text | html
    next =>
      obtain ⟨_, -, rfl⟩ := Option.map_eq_some_iff.mp (Option.mem_toList.mp text)
      refine single _ _ (by decide) ?_
      split
      next => simp only [List.forall_mem_singleton]; decide
      next => simp only [List.forall_mem_cons, List.not_mem_nil, false_implies, implies_true, and_true]; decide
    next =>
      obtain ⟨_, -, rfl⟩ := Option.map_eq_some_iff.mp (Option.mem_toList.mp html)
      refine single _ _ (by decide) ?_
      simp only [List.forall_mem_singleton]
      decide
  next =>
    unfold calendarPart at answer
    split at answer
    next =>
      obtain rfl := List.mem_singleton.mp answer
      refine single _ _ (by decide) ?_
      simp only [List.forall_mem_cons, List.not_mem_nil, false_implies, implies_true, and_true]
      decide
    next => cases answer

def opening : Text := if address.name.isSome then ['"'] else ['<']

def closing (tail : Text) : List Text :=
  (address.name.map (fun _ => "\" <".toList)).toList ++ ['>' :: tail]

def closings : List EmailAddress -> List Text
  | [] => []
  | [address] => closing address []
  | address :: next :: rest => closing address (", ".toList ++ opening next) ++ closings (next :: rest)

def idMarks : List Text -> List Text
  | [] => []
  | [_] => [['>']]
  | _ :: next :: rest => "> <".toList :: idMarks (next :: rest)

def attributeMarks (front : Text) : List (Attribute × Text) -> List Text
  | [] => [front]
  | named :: rest => (front ++ "; ".toList ++ named.1.text ++ "=\"".toList) :: attributeMarks ['"'] rest

/-- The builder, on plain ASCII strings. -/
def asciiBuilder : Builder where
  lead field :=
    match field.2 with
    | .now => "Thu, 1 Jan 1970 00:00:00 +0000".toList
    | .address address => opening address
    | .addresses (address :: _) => opening address
    | .messageIds _ => ['<']
    | _ => []
  after field :=
    match field.2 with
    | .now => []
    | .text _ => [[]]
    | .address address => closing address []
    | .addresses list => closings list
    | .messageIds ids => idMarks ids
    | .contentType _ attributes => attributeMarks [] attributes
  own _ := ["MIME-Version: 1.0".toList]
  body _ := []

def Mark : Prop := text ≠ [] ∧ folds text = true ∧ text.head?.any isBlank = false

theorem closing_marks (tail : Text) (plain : folds tail = true) :
    (closing address tail).length = (mbAddress address).length ∧ ∀ mark ∈ closing address tail, Mark mark := by
  have shut : Mark ('>' :: tail) := ⟨by simp, by rw [folds, plain]; rfl, rfl⟩
  have between : Mark "\" <".toList := ⟨by decide, by decide, by decide⟩
  cases named : address.name with
  | none => simpa [closing, mbAddress, named] using shut
  | some name => exact ⟨by simp [closing, mbAddress, named], by simp only [closing, named, Option.map_some, Option.toList_some,
      List.singleton_append, List.forall_mem_cons, List.not_mem_nil, false_implies, implies_true, and_true]; exact ⟨between, shut⟩⟩

theorem closings_marks (list : List EmailAddress) :
    (closings list).length = (list.flatMap mbAddress).length ∧ ∀ mark ∈ closings list, Mark mark := by
  fun_induction closings list with
  | case1 => simp
  | case2 address =>
    obtain ⟨length, marks⟩ := closing_marks address [] rfl
    exact ⟨by simpa using length, marks⟩
  | case3 address next rest ih =>
    have plain : folds (", ".toList ++ opening next) = true := by
      unfold opening
      split
      next => decide
      next => decide
    obtain ⟨length, marks⟩ := closing_marks address _ plain
    refine ⟨?_, List.forall_mem_append.mpr ⟨marks, ih.2⟩⟩
    rw [List.length_append, length, ih.1, ← List.length_append]
    rfl

theorem idMarks_marks (ids : List Text) : (idMarks ids).length = ids.length ∧ ∀ mark ∈ idMarks ids, Mark mark := by
  have shut : Mark ['>'] := ⟨by decide, by decide, by decide⟩
  have between : Mark "> <".toList := ⟨by decide, by decide, by decide⟩
  fun_induction idMarks ids with
  | case1 => simp
  | case2 => simpa using shut
  | case3 first next rest ih => exact ⟨congrArg (· + 1) ih.1, List.forall_mem_cons.mpr ⟨between, ih.2⟩⟩

theorem attributeMarks_marks (front : Text) (attributes : List (Attribute × Text)) (opens : front = [] ∨ front = ['"']) :
    (attributeMarks front attributes).length = attributes.length + 1 ∧
      (∀ mark ∈ attributeMarks front attributes, folds mark = true ∧ mark.head?.any isBlank = false) ∧
      ∀ mark ∈ (attributeMarks front attributes).dropLast, mark ≠ [] := by
  induction attributes generalizing front with
  | nil => rcases opens with rfl | rfl <;> simp [attributeMarks] <;> decide
  | cons named attributes ih =>
    obtain ⟨length, marks, apart⟩ := ih ['"'] (.inr rfl)
    refine ⟨congrArg (· + 1) length, List.forall_mem_cons.mpr ⟨?_, marks⟩, ?_⟩
    next =>
      have sound (name : Attribute) : folds (front ++ "; ".toList ++ name.text ++ "=\"".toList) = true ∧
          (front ++ "; ".toList ++ name.text ++ "=\"".toList).head?.any isBlank = false := by
        rcases opens with rfl | rfl <;> cases name <;> exact ⟨by decide, by decide⟩
      exact sound named.1
    next =>
      have more : attributeMarks ['"'] attributes ≠ [] := List.ne_nil_of_length_pos (by omega)
      rw [attributeMarks, List.dropLast_cons_of_ne_nil more, List.forall_mem_cons]
      exact ⟨by simp, apart⟩

theorem asciiBuilder_given : asciiBuilder.AsGiven where
  all field := by
    obtain ⟨name, value⟩ := field
    cases value with
    | now | text _ => rfl
    | address address => exact (closing_marks address [] rfl).1
    | addresses list => exact (closings_marks list).1
    | messageIds ids => exact (idMarks_marks ids).1
    | contentType type attributes =>
      rw [Value.pieces, List.length_cons, List.length_map]
      exact (attributeMarks_marks [] attributes (.inl rfl)).1
  lead field := by
    have opened (address : EmailAddress) : folds (opening address) = true := by
      unfold opening
      split
      next => decide
      next => decide
    obtain ⟨name, value⟩ := field
    cases value with
    | now => exact Fields.folds_plain "Thu, 1 Jan 1970 00:00:00 +0000".toList (by decide)
    | text _ | contentType _ _ => rfl
    | address address => exact opened address
    | addresses list =>
      cases list with
      | nil => rfl
      | cons address list => exact opened address
    | messageIds ids => exact (by decide : folds ['<'] = true)
  after field := by
    obtain ⟨name, value⟩ := field
    cases value with
    | now => exact fun _ inside => by cases inside
    | text _ => exact List.forall_mem_singleton.mpr ⟨rfl, rfl⟩
    | address address => exact fun mark inside => ((closing_marks address [] rfl).2 mark inside).2
    | addresses list => exact fun mark inside => ((closings_marks list).2 mark inside).2
    | messageIds ids => exact fun mark inside => ((idMarks_marks ids).2 mark inside).2
    | contentType type attributes => exact (attributeMarks_marks [] attributes (.inl rfl)).2.1
  apart field := by
    obtain ⟨name, value⟩ := field
    cases value with
    | now | text _ => exact fun _ inside => by cases inside
    | address address => exact fun mark inside => ((closing_marks address [] rfl).2 mark (List.mem_of_mem_dropLast inside)).1
    | addresses list => exact fun mark inside => ((closings_marks list).2 mark (List.mem_of_mem_dropLast inside)).1
    | messageIds ids => exact fun mark inside => ((idMarks_marks ids).2 mark (List.mem_of_mem_dropLast inside)).1
    | contentType type attributes => exact (attributeMarks_marks [] attributes (.inl rfl)).2.2
  own _ := List.forall_mem_singleton.mpr ⟨⟨_, _, rfl, by decide, by decide, by decide⟩, by decide⟩

/-! ### Two drafts -/

def ada : EmailAddress := { name := some "Ada".toList, address := "ada@example.com".toList }

def lunch (recipient : EmailAddress) : Draft :=
  { rfcMessageId := none, subject := "Lunch".toList, recipients := [recipient], cc := [], bcc := []
    text := some "At noon?".toList, markdown := false, html := none }

end Postio.Outgoing

import Postio.Lib.Run
import Postio.Pull.FlagIntents
import Postio.Pull.SharedContent

set_option autoImplicit false

namespace Postio.Pull

/-! ### Writes that change nothing -/

namespace SharedStore

variable (shared : SharedStore) (batch : List Arrival) (next : SharedStore) (id : MessageId) (after : SharedStore)
    (arrival : Arrival) (change : Body -> Body) (row : Mail) (content : SharedBody)

theorem setRows_same (chosen : Mail -> Bool) (change : Body -> Body)
    (same : ∀ row ∈ shared.store.messages.rows, chosen row = true -> change row.body = row.body) :
    shared.setRows chosen change = shared := by
  have table : shared.store.messages.update
      (fun row => if chosen row then { row with body := change row.body } else row) (fun row => by split <;> rfl) =
        shared.store.messages := by
    apply Table.update_self
    intro row there
    split
    next marked => rw [same row there marked]
    next => rfl
  unfold setRows Store.updateWhere
  rw [table]

theorem setBody_same (same : ∀ row, shared.get id = some row -> change row.body = row.body) : shared.setBody id change = shared := by
  apply setRows_same
  intro row there named
  exact same row ((shared.store.messages.get_eq_some id.get row).mpr
    ⟨there, congrArg MessageId.get (of_decide_eq_true named)⟩)

theorem setBody_setBody (first second : Body -> Body) :
    (shared.setBody id first).setBody id second = shared.setBody id (fun body => second (first body)) := by
  unfold setBody setRows Store.updateWhere
  dsimp only
  rw [Table.update_update]
  congr 3
  funext row
  by_cases named : row.id = id
  next => simp [named]
  next => simp [named]

theorem setContent_same (id : ContentId) (change : Body -> Body)
    (same : ∀ content, shared.content id = some content -> change content.body = content.body) :
    shared.setContent id change = shared := by
  unfold setContent Table.updateAt
  have table : ∀ kept, shared.contents.update (fun content =>
      if content.id.get = id.get then { content with body := change content.body } else content) kept =
        shared.contents := by
    intro kept
    apply Table.update_self
    intro content there
    split
    next named => rw [same content ((shared.contents.get_eq_some id.get content).mpr ⟨there, named⟩)]
    next => rfl
  rw [table]

theorem get_setBody :
    (shared.setBody id change).get id = (shared.get id).map (fun row => { row with body := change row.body }) := by
  unfold setBody setRows SharedStore.get Store.get Store.updateWhere
  dsimp only
  rw [Table.get_update]
  cases held : shared.store.messages.get id.get with
  | none => rfl
  | some row =>
    have named : row.id = id := MessageId.get_injective ((shared.store.messages.get_eq_some id.get row).mp held).2
    simp [named]

theorem attachmentsOf_set (attachments : List Attachment) (held : (shared.get id).isSome) :
    (shared.setBody id (withAttachments (fun _ => attachments))).attachmentsOf id = attachments := by
  obtain ⟨row, there⟩ := Option.isSome_iff_exists.mp held
  unfold attachmentsOf
  rw [get_setBody, there]
  rfl

/-! ### A row without an identity -/

theorem insertAll_plain (plain : shared.identityOf id = none) (before rest : List Attachment) :
    rest.foldl (insertAttachment id) (shared.setBody id (withAttachments (fun _ => before))) =
      shared.setBody id (withAttachments (fun _ => before ++ rest)) := by
  induction rest generalizing before with
  | nil => rw [List.append_nil, List.foldl_nil]
  | cons attached rest ih =>
    have next : insertAttachment id (shared.setBody id (withAttachments (fun _ => before))) attached =
        shared.setBody id (withAttachments (fun _ => before ++ [attached])) := by
      unfold insertAttachment
      have none : (shared.setBody id (withAttachments (fun _ => before))).identityOf id = none := plain
      dsimp only
      rw [none, setBody_setBody]
      rfl
    rw [List.foldl_cons, next, ih (before ++ [attached]), List.append_assoc, List.singleton_append]

theorem write_plain (before : List Attachment) (written : Store)
    (plain : shared.identityOf id = none) : shared.write id before written none = { shared with store := written } := by
  unfold write
  cases held : written.get id with
  | none => rfl
  | some row =>
    dsimp only
    have kept : (({ shared with store := written } : SharedStore).setBody id (withAttachments (fun _ => before))).identify
        id row none = ({ shared with store := written } : SharedStore).setBody id (withAttachments (fun _ => before)) :=
      if_pos plain
    have back : ({ shared with store := written } : SharedStore).setBody id
        (withAttachments (fun _ => row.body.attachments)) = { shared with store := written } := by
      apply setBody_same
      intro other same
      cases held.symm.trans same
      rfl
    rw [kept]
    unfold writeChildren
    rw [setBody_setBody]
    have filled := insertAll_plain { shared with store := written } id plain [] row.body.attachments
    rw [List.nil_append, back] at filled
    refine (congrArg (fun shared => project shared id) filled).trans ?_
    unfold project
    dsimp only
    rw [plain]

/-! ### A row that shows what its content has -/

/-- The content is here, and has what the row shows. -/
structure Shown (content body : Body) : Prop where
  here : isLocal content.state = true
  parts : content.attachments = body.attachments
  paths : ∀ part ∈ content.attachments, ∀ other ∈ content.attachments, sqlEqual part.partId other.partId = true ->
    part.blob = other.blob
  fits : restated content body = body

/-- A row with an identity, of a content that has what it shows. -/
structure Settled (shared : SharedStore) (id : MessageId) (row : Mail) (content : SharedBody) : Prop where
  held : shared.get id = some row
  named : (shared.identityOf id).isSome = true
  placed : shared.contentOf id = some content.id
  found : shared.content content.id = some content
  shown : Shown content.body row.body

theorem upsertPart_same (content : ContentId) (position : Nat) (attached : Attachment)
    (there : (shared.partsOf content)[position]? = some attached) :
    shared.upsertPart content position attached = shared := by
  have described : describedBy attached attached = attached := by
    unfold describedBy
    rw [Option.or_self]
  have kept : shared.setContent content (withAttachments (fun parts => parts.set position attached)) = shared := by
    apply setContent_same
    intro held found
    unfold partsOf at there
    rw [found] at there
    obtain ⟨bound, same⟩ := List.getElem?_eq_some_iff.mp there
    unfold withAttachments
    dsimp only [Option.elim_some] at bound same ⊢
    rw [← same, List.set_getElem_self]
  unfold upsertPart
  rw [there]
  dsimp only
  rw [described, kept, if_neg (fun apart => apart rfl)]

theorem partsOf_settled (settled : Settled shared id row content) : shared.partsOf content.id = row.body.attachments := by
  unfold partsOf
  rw [settled.found]
  exact settled.shown.parts

theorem attachmentsOf_settled (settled : Settled shared id row content) : shared.attachmentsOf id = row.body.attachments := by
  unfold attachmentsOf
  rw [settled.held]
  rfl

theorem insertAll_settled (settled : Settled shared id row content) (before rest : List Attachment)
    (whole : before ++ rest = row.body.attachments) :
    rest.foldl (insertAttachment id) (shared.setBody id (withAttachments (fun _ => before))) = shared := by
  induction rest generalizing before with
  | nil =>
    rw [List.foldl_nil]
    apply setBody_same
    intro other held
    cases settled.held.symm.trans held
    unfold withAttachments
    rw [← List.append_nil before, whole]
  | cons attached rest ih =>
    have next : insertAttachment id (shared.setBody id (withAttachments (fun _ => before))) attached =
        shared.setBody id (withAttachments (fun _ => before ++ [attached])) := by
      have position := attachmentsOf_set shared id before (by rw [settled.held]; rfl)
      obtain ⟨identity, named⟩ := Option.isSome_iff_exists.mp settled.named
      unfold insertAttachment
      dsimp only
      rw [position, setBody_setBody]
      have known : (shared.setBody id (withAttachments (fun _ => before))).identityOf id = some identity := named
      have placed : (shared.setBody id (withAttachments (fun _ => before))).contentOf id = some content.id :=
        settled.placed
      rw [known, placed]
      apply upsertPart_same
      change (shared.partsOf content.id)[before.length]? = some attached
      rw [partsOf_settled shared id row content settled, ← whole]
      simp
    rw [List.foldl_cons, next]
    apply ih
    rw [List.append_assoc, List.singleton_append, whole]

theorem setAttachedBlob_settled (settled : Settled shared id row content) (position : Nat) :
    setAttachedBlob id content.id shared position = shared := by
  have parts := partsOf_settled shared id row content settled
  have attachments := attachmentsOf_settled shared id row content settled
  unfold setAttachedBlob
  rw [attachments, parts]
  cases there : row.body.attachments[position]? with
  | none => rfl
  | some attached =>
    have same : ({ attached with blob := (some attached).bind (fun part => part.blob) } : Attachment) = attached := rfl
    dsimp only
    rw [same]
    have kept : shared.setBody id (withAttachments (fun attachments => attachments.set position attached)) = shared := by
      apply setBody_same
      intro other held
      cases settled.held.symm.trans held
      obtain ⟨bound, at_⟩ := List.getElem?_eq_some_iff.mp there
      unfold withAttachments
      dsimp only
      rw [← at_, List.set_getElem_self]
    rw [kept]
    unfold attachmentBlobUpdated
    rw [settled.placed]
    cases payload : attached.blob with
    | none => rfl
    | some blob =>
      dsimp only
      rw [if_neg]
      rw [Bool.not_eq_true, List.any_eq_false]
      intro part member both
      rw [Bool.and_eq_true, decide_eq_true_eq] at both
      rw [parts, ← settled.shown.parts] at member
      have own : attached ∈ content.body.attachments := by
        rw [settled.shown.parts]
        exact List.mem_of_getElem? there
      exact both.2 ((settled.shown.paths part member attached own both.1).trans payload)

theorem refresh_settled (settled : Settled shared id row content) : shared.refresh content.id id = shared := by
  have parts := partsOf_settled shared id row content settled
  have attachments := attachmentsOf_settled shared id row content settled
  have trimmed : shared.setBody id (withAttachments (fun attachments =>
      attachments.take (shared.partsOf content.id).length)) = shared := by
    apply setBody_same
    intro other held
    cases settled.held.symm.trans held
    unfold withAttachments
    dsimp only
    rw [parts, List.take_length]
  unfold refresh
  dsimp only
  rw [trimmed, attachments, parts, List.drop_length, List.foldl_nil]
  exact List.foldl_fixed' (setAttachedBlob_settled shared id row content settled) _

theorem project_settled (settled : Settled shared id row content) : shared.project id = shared := by
  obtain ⟨identity, named⟩ := Option.isSome_iff_exists.mp settled.named
  have restates : shared.setBody id (restated content.body) = shared := by
    apply setBody_same
    intro other held
    cases settled.held.symm.trans held
    exact settled.shown.fits
  unfold project
  rw [named, settled.placed, Option.bind_some, settled.found]
  dsimp only
  rw [refresh_settled shared id row content settled, ite_self]
  exact restates

theorem write_settled (written : Store) (row : Mail) (content : SharedBody)
    (settled : Settled { shared with store := written } id row content) :
    shared.write id row.body.attachments written (shared.identityOf id) = { shared with store := written } := by
  have columns : ({ shared with store := written } : SharedStore).setBody id
      (withAttachments (fun _ => row.body.attachments)) = { shared with store := written } := by
    apply setBody_same
    intro other held
    cases settled.held.symm.trans held
    rfl
  have held : written.get id = some row := settled.held
  unfold write
  rw [held]
  dsimp only
  rw [columns]
  have kept : ({ shared with store := written } : SharedStore).identify id row (shared.identityOf id) =
      { shared with store := written } := if_pos rfl
  rw [kept]
  unfold writeChildren
  rw [insertAll_settled { shared with store := written } id row content settled [] row.body.attachments rfl]
  exact project_settled { shared with store := written } id row content settled

/-! ### What is written of bodies is written of bodies alone -/

def Framed (before after : SharedStore) : Prop :=
  ∀ id row, before.get id = some row -> ∃ body, after.get id = some { row with body }

theorem framed_store (before after : SharedStore) (same : after.store = before.store) : Framed before after := by
  intro id row held
  refine ⟨row.body, ?_⟩
  unfold SharedStore.get
  rw [same]
  exact held

theorem framed_trans (before middle after : SharedStore) (first : Framed before middle) (second : Framed middle after) :
    Framed before after := by
  intro id row held
  obtain ⟨body, there⟩ := first id row held
  exact second id { row with body } there

theorem framed_setRows (chosen : Mail -> Bool) (change : Body -> Body) :
    Framed shared (shared.setRows chosen change) := by
  intro id row held
  have now := shared.store.messages.get_update
    (fun row => if chosen row then { row with body := change row.body } else row) (fun row => by split <;> rfl) id.get
  refine ⟨if chosen row then change row.body else row.body, now.trans ?_⟩
  rw [show shared.store.messages.get id.get = some row from held]
  dsimp only [Option.map_some]
  split
  next => rfl
  next => rfl

theorem framed_setBody :
    Framed shared (shared.setBody id change) := framed_setRows shared _ change

theorem framed_foldl {Item : Type} (step : SharedStore -> Item -> SharedStore)
    (framed : ∀ shared item, Framed shared (step shared item)) (items : List Item) (shared : SharedStore) :
    Framed shared (items.foldl step shared) := by
  induction items generalizing shared with
  | nil => exact framed_store shared shared rfl
  | cons item rest ih => exact framed_trans _ _ _ (framed shared item) (ih (step shared item))

theorem framed_partBlobUpdated (content : ContentId) (part : Attachment) :
    Framed shared (shared.partBlobUpdated content part) := by
  unfold partBlobUpdated
  dsimp only
  split
  next => exact framed_trans _ _ _ (framed_setRows shared _ _) (framed_store _ _ rfl)
  next => exact framed_setRows shared _ _

theorem framed_attachmentBlobUpdated (attached : Attachment) :
    Framed shared (shared.attachmentBlobUpdated id attached) := by
  unfold attachmentBlobUpdated
  split
  next content blob _ _ =>
    split
    next =>
      exact framed_trans shared (shared.keepBlob content attached.partId (some blob)) _ (framed_store _ _ rfl)
        (framed_setRows _ _ _)
    next => exact framed_store _ _ rfl
  next => exact framed_store _ _ rfl

theorem framed_upsertPart (content : ContentId) (position : Nat) (attached : Attachment) :
    Framed shared (shared.upsertPart content position attached) := by
  unfold upsertPart
  split
  next old _ =>
    dsimp only
    split
    next =>
      exact framed_trans shared
        (shared.setContent content (withAttachments (fun parts => parts.set position (describedBy attached old)))) _
        (framed_store _ _ rfl) (framed_partBlobUpdated _ _ _)
    next => exact framed_store _ _ rfl
  next => exact framed_store _ _ rfl

theorem framed_insertAttachment (shared : SharedStore) (attached : Attachment) :
    Framed shared (insertAttachment id shared attached) := by
  unfold insertAttachment
  dsimp only
  split
  next => exact framed_trans _ _ _ (framed_setBody shared id _) (framed_upsertPart _ _ _ _)
  next => exact framed_setBody shared id _

theorem framed_setAttachedBlob (content : ContentId) (shared : SharedStore) (position : Nat) :
    Framed shared (setAttachedBlob id content shared position) := by
  unfold setAttachedBlob
  split
  next => exact framed_store _ _ rfl
  next => exact framed_trans _ _ _ (framed_setBody shared id _) (framed_attachmentBlobUpdated _ _ _)

theorem framed_refresh (content : ContentId) (id : MessageId) :
    Framed shared (shared.refresh content id) := by
  unfold refresh
  extract_lets trimmed missing filled
  have first : Framed shared trimmed := framed_setBody shared id _
  have second : Framed trimmed filled := framed_foldl (insertAttachment id) (framed_insertAttachment id) missing trimmed
  exact framed_trans _ _ _ (framed_trans _ _ _ first second)
    (framed_foldl (setAttachedBlob id content) (framed_setAttachedBlob id content) _ filled)

theorem framed_project : Framed shared (shared.project id) := by
  unfold project
  split
  next content _ _ =>
    dsimp only
    split
    next => exact framed_trans _ _ _ (framed_refresh shared content.id id) (framed_setBody _ id _)
    next => exact framed_setBody shared id _
  next => exact framed_store _ _ rfl

theorem framed_acquire (identity : Option ContentIdentity) :
    Framed shared (shared.acquire id row identity) := by
  have dropped : ∀ (joined : SharedStore) old, Framed joined (joined.dropUnused old) := by
    intro joined old
    unfold dropUnused
    split
    next => exact framed_store _ _ rfl
    next => exact framed_store _ _ rfl
  have joined : ∀ kept : SharedStore, kept.store = shared.store -> ∀ content,
      Framed shared ((shared.contentOf id).elim ((kept.join id content).project id)
        ((kept.join id content).project id).dropUnused) := by
    intro kept same content
    have projected : Framed shared ((kept.join id content).project id) :=
      framed_trans shared (kept.join id content) _ (framed_store _ _ same) (framed_project _ id)
    cases shared.contentOf id with
    | none => exact projected
    | some old => exact framed_trans _ _ _ projected (dropped _ old)
  unfold acquire
  extract_lets named
  cases identity.bind (shared.findContent row.accountId) with
  | none => exact joined (named.newContent row.accountId identity row.body).1 rfl ⟨shared.contents.nextId⟩
  | some content => exact joined named rfl content

theorem framed_write (before : List Attachment) (written : Store)
    (identity : Option ContentIdentity) : Framed { shared with store := written } (shared.write id before written identity) := by
  unfold write
  split
  next => exact framed_store _ _ rfl
  next row _ =>
    dsimp only
    refine framed_trans _ _ _ (framed_setBody _ id (withAttachments (fun _ => before))) ?_
    have identified : ∀ columns : SharedStore, Framed columns (columns.identify id row identity) := by
      intro columns
      unfold identify
      split
      next => exact framed_store _ _ rfl
      next => exact framed_acquire columns id row identity
    refine framed_trans _ _ _ (identified _) ?_
    unfold writeChildren
    refine framed_trans _ _ _ (framed_setBody _ id (withAttachments (fun _ => []))) ?_
    exact framed_trans _ _ _ (framed_foldl (insertAttachment id) (framed_insertAttachment id) _ _) (framed_project _ id)

/-! ### What a pull leaves of a row -/

/-- What only this client knows of a message is as it was, and so is a body once it was fetched. -/
structure Kept (before after : Mail) : Prop where
  pending : after.sync.hasPendingOperations = before.sync.hasPendingOperations
  deleted : after.sync.deletedLocally = before.sync.deletedLocally
  snoozed : after.snoozedUntil = before.snoozedUntil
  labels : after.labels = before.labels
  body : isLocal before.body.state = true -> after.body = before.body

def Keeps : Prop :=
  ∀ next id row, shared.upsert arrival = some next -> shared.store.existing arrival.mail = some id ->
    shared.get id = some row -> ∃ later, next.get id = some later ∧ Kept row later

def Backed : Prop :=
  ∃ content, shared.contentOf id = some content.id ∧ shared.content content.id = some content ∧
    Shown content.body row.body

/-- The row is neither marked nor hidden, and if its body was fetched, the message brings headers and the row's own
identity. -/
def Harmless : Prop :=
  ∀ id row, shared.store.existing arrival.mail = some id -> shared.get id = some row ->
    row.sync.hasPendingOperations = false ∧ row.sync.deletedLocally = false ∧
      (isLocal row.body.state = true -> arrival.mail.body.state = .headersOnly ∧
        arrival.identity = shared.identityOf id ∧ (arrival.identity.isSome = true -> shared.Backed id row))

def Fetched : Prop :=
  ∃ (fetched : FetchedMessage) (accountId : AccountId) (mailboxId : MailboxId),
    arrival.mail = fetched.intoMessage accountId mailboxId

theorem upsert_cases (id : MessageId)
    (done : shared.upsert arrival = some next) (found : shared.store.existing arrival.mail = some id) :
    ∃ (after : Store) (row : Mail), Store.Written shared.store arrival.mail id row after ∧
      next = shared.write id (shared.attachmentsOf id) after arrival.identity := by
  unfold upsert at done
  rw [found] at done
  obtain ⟨after, wrote, same⟩ := Option.map_eq_some_iff.mp done
  obtain ⟨row, written⟩ := Store.writeUpdate_written shared.store arrival.mail id after found wrote
  exact ⟨after, row, written, same.symm⟩

theorem kept_written (store : Store) (id : MessageId) (row mail : Mail) (held : store.get id = some row)
    (unlabelled : mail.labels = ∅) (unmarked : mail.sync.hasPendingOperations = false)
    (visible : mail.sync.deletedLocally = false)
    (sparse : isLocal mail.body.state = false) :
    Kept row (Store.written (store.reconciled id mail) row) <->
      row.sync.hasPendingOperations = false ∧ row.sync.deletedLocally = false ∧
        (isLocal row.body.state = true -> mail.body.state = .headersOnly) := by
  have labels : (store.reconciled id mail).labels = row.labels := by
    unfold Store.reconciled
    dsimp only
    rw [if_pos unlabelled, held]
    rfl
  have same : (Store.written (store.reconciled id mail) row).labels = row.labels := by
    unfold Store.written Store.rowValues Store.keepFetchedContent
    split
    next =>
      split
      next => exact labels
      next => exact labels
    next => exact labels
  have sync : (Store.written (store.reconciled id mail) row).sync = mail.sync := by
    unfold Store.written Store.rowValues Store.keepFetchedContent
    split
    next =>
      split
      next => rfl
      next => rfl
    next => rfl
  constructor
  next =>
    intro kept
    refine ⟨?_, ?_, ?_⟩
    next => rw [← kept.pending, sync, unmarked]
    next => rw [← kept.deleted, sync, visible]
    next =>
      intro fetched
      by_contra headers
      have body : (Store.written (store.reconciled id mail) row).body = mail.body := by
        unfold Store.written Store.rowValues Store.keepFetchedContent
        rw [if_neg (show ¬ (store.reconciled id mail).body.state = .headersOnly from headers)]
        rfl
      rw [← kept.body fetched, body, sparse] at fetched
      cases fetched
  next =>
    rintro ⟨pending, deleted, headers⟩
    refine ⟨?_, ?_, rfl, same, ?_⟩
    next => rw [sync, unmarked, pending]
    next => rw [sync, visible, deleted]
    next =>
      intro fetched
      have stored : row.body.state ≠ .headersOnly := by
        intro none
        rw [none] at fetched
        cases fetched
      unfold Store.written Store.rowValues Store.keepFetchedContent
      rw [if_pos (show (store.reconciled id mail).body.state = .headersOnly from headers fetched), if_neg stored]

theorem kept_fetched (fetched : Fetched arrival) (id : MessageId) (row : Mail)
    (held : shared.get id = some row) :
    Kept row (Store.written (shared.store.reconciled id arrival.mail) row) <->
      row.sync.hasPendingOperations = false ∧ row.sync.deletedLocally = false ∧
        (isLocal row.body.state = true -> arrival.mail.body.state = .headersOnly) := by
  obtain ⟨message, accountId, mailboxId, same⟩ := fetched
  rw [same]
  apply kept_written shared.store id row _ held rfl rfl rfl
  unfold FetchedMessage.intoMessage FetchedMessage.body
  dsimp only
  split
  next => rfl
  next => rfl

/-! ### One message, and a batch -/

theorem keeps_of_harmless (fetched : Fetched arrival) (harmless : shared.Harmless arrival) : shared.Keeps arrival:= by
  intro next id row done found held
  obtain ⟨pending, deleted, whole⟩ := harmless id row found held
  obtain ⟨after, old, written, same⟩ := shared.upsert_cases next arrival id done found
  cases held.symm.trans written.held
  have kept := (shared.kept_fetched arrival fetched id row held).mpr
    ⟨pending, deleted, fun fetchedBody => (whole fetchedBody).1⟩
  rw [same]
  by_cases here : isLocal row.body.state = true
  next =>
    obtain ⟨-, own, backed⟩ := whole here
    have body := kept.body here
    refine ⟨_, ?_, kept⟩
    cases named : arrival.identity with
    | none =>
      rw [named] at own
      rw [write_plain shared id _ after own.symm]
      exact written.here
    | some identity =>
      obtain ⟨content, placed, there, shown⟩ := backed (by rw [named]; rfl)
      have settled : Settled { shared with store := after } id
          (Store.written (shared.store.reconciled id arrival.mail) row) content := by
        refine ⟨written.here, ?_, placed, there, ?_⟩
        next =>
          change (shared.identityOf id).isSome = true
          rw [← own, named]
          rfl
        next =>
          rw [body]
          exact shown
      have before : shared.attachmentsOf id =
          (Store.written (shared.store.reconciled id arrival.mail) row).body.attachments := by
        unfold attachmentsOf
        rw [held, body]
        rfl
      rw [before, ← named, own, write_settled shared id after _ content settled]
      exact written.here
  next =>
    -- What the projection makes of a body that was not fetched is nobody's loss.
    obtain ⟨body, there⟩ := framed_write shared id (shared.attachmentsOf id) after arrival.identity id _ written.here
    exact ⟨_, there, kept.pending, kept.deleted, kept.snoozed, kept.labels, fun fetchedBody => absurd fetchedBody here⟩

theorem keeps_iff (fetched : Fetched arrival)
    (done : shared.upsert arrival = some next) (unnamed : arrival.identity = none)
    (plain : ∀ id, shared.identityOf id = none) : shared.Keeps arrival <-> shared.Harmless arrival := by
  constructor
  next =>
    intro keeps id row found held
    obtain ⟨later, there, kept⟩ := keeps next id row done found held
    obtain ⟨after, old, written, same⟩ := shared.upsert_cases next arrival id done found
    cases held.symm.trans written.held
    rw [same, unnamed, write_plain shared id _ after (plain id)] at there
    cases (written.here).symm.trans there
    obtain ⟨pending, deleted, headers⟩ := (shared.kept_fetched arrival fetched id row held).mp kept
    refine ⟨pending, deleted, fun fetchedBody => ⟨headers fetchedBody, ?_, ?_⟩⟩
    next => rw [unnamed, plain]
    next =>
      intro named
      rw [unnamed] at named
      cases named
  next => exact shared.keeps_of_harmless arrival fetched

/-! ### A batch where no identities are given -/

/-- What a pull takes from a row it does not give back. -/
structure Fades (before after : Mail) : Prop where
  pending : after.sync.hasPendingOperations = true -> before.sync.hasPendingOperations = true
  deleted : after.sync.deletedLocally = true -> before.sync.deletedLocally = true
  snoozed : after.snoozedUntil = before.snoozedUntil
  labels : after.labels = before.labels
  body : isLocal after.body.state = true -> after.body = before.body

def FadesAll : Prop :=
  ∀ id row, shared.get id = some row -> ∃ later, after.get id = some later ∧ Fades row later

def KeptAll : Prop :=
  ∀ id row, shared.get id = some row -> ∃ later, after.get id = some later ∧ Kept row later

theorem fades_refl : Fades row row := ⟨fun held => held, fun held => held, rfl, rfl, fun _ => rfl⟩

theorem fades_trans (before middle after : Mail) (first : Fades before middle) (second : Fades middle after) :
    Fades before after where
  pending := fun held => first.pending (second.pending held)
  deleted := fun held => first.deleted (second.deleted held)
  snoozed := second.snoozed.trans first.snoozed
  labels := second.labels.trans first.labels
  body := by
    intro fetched
    have same := second.body fetched
    rw [same] at fetched
    exact same.trans (first.body fetched)

theorem kept_trans (before middle after : Mail) (first : Kept before middle) (second : Kept middle after) :
    Kept before after where
  pending := second.pending.trans first.pending
  deleted := second.deleted.trans first.deleted
  snoozed := second.snoozed.trans first.snoozed
  labels := second.labels.trans first.labels
  body := by
    intro fetched
    have same := first.body fetched
    rw [← same] at fetched
    exact (second.body fetched).trans same

theorem kept_between (before middle after : Mail) (first : Fades before middle) (second : Fades middle after)
    (kept : Kept before after) : Kept before middle := by
  have back : ∀ early mid late : Bool, (mid = true -> early = true) -> (late = true -> mid = true) -> late = early ->
      mid = early := by decide
  refine ⟨back _ _ _ first.pending second.pending kept.pending, back _ _ _ first.deleted second.deleted kept.deleted,
    first.snoozed, first.labels, ?_⟩
  intro fetched
  have same := kept.body fetched
  rw [← same] at fetched
  exact (second.body fetched).symm.trans same

theorem kept_later (before middle after : Mail) (first : Kept before middle) (second : Fades middle after)
    (kept : Kept before after) (faded : Fades before middle) : Kept middle after := by
  refine ⟨kept.pending.trans first.pending.symm, kept.deleted.trans first.deleted.symm, second.snoozed, second.labels, ?_⟩
  intro fetched
  have same := faded.body fetched
  rw [same] at fetched
  exact (kept.body fetched).trans same.symm

theorem fades_written (store : Store) (id : MessageId) (row : Mail) (arrival : Arrival) (fetched : Fetched arrival)
    (held : store.get id = some row) : Fades row (Store.written (store.reconciled id arrival.mail) row) := by
  obtain ⟨message, accountId, mailboxId, same⟩ := fetched
  rw [same]
  have sparse : isLocal (message.intoMessage accountId mailboxId).body.state = false := by
    unfold FetchedMessage.intoMessage FetchedMessage.body
    dsimp only
    split
    next => rfl
    next => rfl
  have labels : (store.reconciled id (message.intoMessage accountId mailboxId)).labels = row.labels := by
    unfold Store.reconciled
    dsimp only
    rw [if_pos (show (message.intoMessage accountId mailboxId).labels = ∅ from rfl), held]
    rfl
  have body : (store.reconciled id (message.intoMessage accountId mailboxId)).body =
      (message.intoMessage accountId mailboxId).body := rfl
  unfold Store.written Store.rowValues Store.keepFetchedContent
  split
  next =>
    split
    next =>
      refine ⟨fun held => (nomatch held), fun held => (nomatch held), rfl, labels, fun there => ?_⟩
      rw [body, sparse] at there
      cases there
    next => exact ⟨fun held => (nomatch held), fun held => (nomatch held), rfl, labels, fun _ => rfl⟩
  next =>
    refine ⟨fun held => (nomatch held), fun held => (nomatch held), rfl, labels, fun there => ?_⟩
    rw [body, sparse] at there
    cases there

theorem upsert_plain (unnamed : arrival.identity = none)
    (plain : ∀ id, shared.identityOf id = none) (done : shared.upsert arrival = some next) :
    shared.store.upsert arrival.mail = some next.store ∧ ∀ id, next.identityOf id = none := by
  unfold upsert at done
  unfold Store.upsert
  cases found : shared.store.existing arrival.mail with
  | some id =>
    rw [found] at done
    obtain ⟨after, wrote, same⟩ := Option.map_eq_some_iff.mp done
    rw [unnamed, write_plain shared id _ after (plain id)] at same
    subst same
    exact ⟨wrote, plain⟩
  | none =>
    rw [found] at done
    obtain ⟨after, wrote, same⟩ := Option.map_eq_some_iff.mp done
    have forgotten : ∀ id, (shared.forget ⟨shared.store.messages.nextId⟩).identityOf id = none := by
      intro id
      unfold forget
      dsimp only
      rw [plain id, ite_self]
    rw [unnamed, write_plain _ _ [] after (forgotten _)] at same
    subst same
    exact ⟨wrote, forgotten⟩

theorem fades_upsert (fetched : Fetched arrival)
    (done : shared.store.upsert arrival.mail = some next.store) : FadesAll shared next := by
  intro id row held
  rcases Store.upsert_cases shared.store arrival.mail next.store done with ⟨landed, old, written⟩ | fresh
  next =>
    by_cases here : id = landed
    next =>
      subst here
      cases held.symm.trans written.held
      exact ⟨_, written.here, fades_written shared.store id row arrival fetched held⟩
    next => exact ⟨row, (written.others id here).trans held, fades_refl row⟩
  next =>
    refine ⟨row, (fresh.others id ?_).trans held, fades_refl row⟩
    rintro rfl
    have none := shared.store.get_next
    rw [show shared.store.get _ = some row from held] at none
    cases none

theorem fades_upsertAll (shared after : SharedStore)
    (fetched : ∀ arrival ∈ batch, Fetched arrival) (unnamed : ∀ arrival ∈ batch, arrival.identity = none)
    (plain : ∀ id, shared.identityOf id = none) (done : shared.upsertAll batch = some after) : FadesAll shared after := by
  induction batch generalizing shared with
  | nil =>
    cases done
    exact fun id row held => ⟨row, held, fades_refl row⟩
  | cons arrival rest ih =>
    obtain ⟨next, first, last⟩ := Option.bind_eq_some_iff.mp done
    obtain ⟨stored, plainly⟩ := shared.upsert_plain next arrival (unnamed arrival (List.mem_cons_self ..)) plain first
    have later := ih next (fun other there => fetched other (List.mem_cons_of_mem arrival there))
      (fun other there => unnamed other (List.mem_cons_of_mem arrival there)) plainly last
    intro id row held
    obtain ⟨middle, there, faded⟩ := fades_upsert shared next arrival (fetched arrival (List.mem_cons_self ..)) stored id
      row held
    obtain ⟨final, ends, further⟩ := later id middle there
    exact ⟨final, ends, fades_trans row middle final faded further⟩

theorem kept_fresh (fetched : Fetched arrival)
    (done : shared.store.upsert arrival.mail = some next.store) (id : MessageId) (row later : Mail)
    (new : shared.get id = none) (there : next.get id = some row) (faded : Fades row later) : Kept row later := by
  have bare : row.sync.hasPendingOperations = false ∧ row.sync.deletedLocally = false ∧ isLocal row.body.state = false := by
    rcases Store.upsert_cases shared.store arrival.mail next.store done with ⟨landed, old, written⟩ | fresh
    next =>
      by_cases here : id = landed
      next =>
        subst here
        rw [show shared.get id = some old from written.held] at new
        cases new
      next =>
        have same := (written.others id here).symm.trans there
        rw [show shared.store.get id = none from new] at same
        cases same
    next =>
      by_cases here : id = ⟨shared.store.messages.nextId⟩
      next =>
        subst here
        cases fresh.here.symm.trans there
        obtain ⟨message, accountId, mailboxId, same⟩ := fetched
        rw [same]
        refine ⟨rfl, rfl, ?_⟩
        unfold Store.inserted Store.rowValues FetchedMessage.intoMessage FetchedMessage.body
        dsimp only
        split
        next => rfl
        next => rfl
      next =>
        have same := (fresh.others id here).symm.trans there
        rw [show shared.store.get id = none from new] at same
        cases same
  refine ⟨?_, ?_, faded.snoozed, faded.labels, ?_⟩
  next =>
    rw [bare.1, Bool.eq_false_iff]
    intro held
    rw [faded.pending held] at bare
    cases bare.1
  next =>
    rw [bare.2.1, Bool.eq_false_iff]
    intro held
    rw [faded.deleted held] at bare
    cases bare.2.1
  next =>
    intro fetchedBody
    rw [bare.2.2] at fetchedBody
    cases fetchedBody

theorem keptAll_upsert (fetched : Fetched arrival)
    (unnamed : arrival.identity = none) (plain : ∀ id, shared.identityOf id = none)
    (done : shared.upsert arrival = some next) : KeptAll shared next <-> shared.Harmless arrival := by
  rw [← shared.keeps_iff next arrival fetched done unnamed plain]
  obtain ⟨stored, -⟩ := shared.upsert_plain next arrival unnamed plain done
  constructor
  next =>
    intro kept other id row again found held
    cases done.symm.trans again
    exact kept id row held
  next =>
    intro keeps id row held
    rcases Store.upsert_cases shared.store arrival.mail next.store stored with ⟨landed, old, written⟩ | fresh
    next =>
      by_cases here : id = landed
      next =>
        subst here
        exact keeps next id row done written.found held
      next => exact ⟨row, (written.others id here).trans held, rfl, rfl, rfl, rfl, fun _ => rfl⟩
    next =>
      refine ⟨row, (fresh.others id ?_).trans held, rfl, rfl, rfl, rfl, fun _ => rfl⟩
      rintro rfl
      have none := shared.store.get_next
      rw [show shared.store.get _ = some row from held] at none
      cases none

def step : SharedStore := (shared.upsert arrival).getD shared

theorem keptAll_iff (shared after : SharedStore)
    (fetched : ∀ arrival ∈ batch, Fetched arrival) (unnamed : ∀ arrival ∈ batch, arrival.identity = none)
    (plain : ∀ id, shared.identityOf id = none) (done : shared.upsertAll batch = some after) :
    KeptAll shared after <-> Run.Along step Harmless shared batch := by
  induction batch generalizing shared with
  | nil =>
    cases done
    exact ⟨fun _ => trivial, fun _ id row held => ⟨row, held, rfl, rfl, rfl, rfl, fun _ => rfl⟩⟩
  | cons arrival rest ih =>
    obtain ⟨next, first, last⟩ := Option.bind_eq_some_iff.mp done
    have here := fetched arrival (List.mem_cons_self ..)
    have bare := unnamed arrival (List.mem_cons_self ..)
    have behind := fun other there => fetched other (List.mem_cons_of_mem arrival there)
    have nameless := fun other there => unnamed other (List.mem_cons_of_mem arrival there)
    obtain ⟨stored, plainly⟩ := shared.upsert_plain next arrival bare plain first
    have stepped : step shared arrival = next := by
      unfold step
      rw [first]
      rfl
    have early := fades_upsert shared next arrival here stored
    have late := fades_upsertAll rest next after behind nameless plainly last
    change _ <-> shared.Harmless arrival ∧ Run.Along step Harmless (step shared arrival) rest
    rw [stepped, ← ih next behind nameless plainly last, ← keptAll_upsert shared next arrival here bare plain first]
    constructor
    next =>
      intro kept
      constructor
      next =>
        intro id row held
        obtain ⟨middle, there, faded⟩ := early id row held
        obtain ⟨final, ends, further⟩ := late id middle there
        obtain ⟨same, there', whole⟩ := kept id row held
        cases ends.symm.trans there'
        exact ⟨middle, there, kept_between row middle final faded further whole⟩
      next =>
        intro id middle there
        obtain ⟨final, ends, further⟩ := late id middle there
        refine ⟨final, ends, ?_⟩
        cases held : shared.get id with
        | none => exact kept_fresh shared next arrival here stored id middle final held there further
        | some row =>
          obtain ⟨same, there', faded⟩ := early id row held
          cases there.symm.trans there'
          obtain ⟨final', ends', whole⟩ := kept id row held
          cases ends.symm.trans ends'
          exact kept_later row middle final (kept_between row middle final faded further whole) further whole faded
    next =>
      rintro ⟨kept, later⟩ id row held
      obtain ⟨middle, there, first⟩ := kept id row held
      obtain ⟨final, ends, second⟩ := later id middle there
      exact ⟨final, ends, kept_trans row middle final first second⟩

theorem along_keeps (shared : SharedStore) (fetched : ∀ arrival ∈ batch, Fetched arrival)
    (harmless : Run.Along step Harmless shared batch) : Run.Along step Keeps shared batch := by
  induction batch generalizing shared with
  | nil => trivial
  | cons arrival rest ih =>
    obtain ⟨here, later⟩ := harmless
    exact ⟨shared.keeps_of_harmless arrival (fetched arrival (List.mem_cons_self ..)) here,
      ih _ (fun other there => fetched other (List.mem_cons_of_mem arrival there)) later⟩

def taken : List Arrival :=
  batch.filter (fun arrival => shared.store.retained arrival.mail)

def whole : Body :=
  { state := .full, rawBlob := some ⟨9⟩, preview := some ['h'], contentType := none, textPart := none, htmlPart := none
    attachments := [{ partId := some ['2'], blob := some ⟨4⟩ }] }

/-- One row, of a content that has what it shows. -/
def showing (sync : LocalSyncState) (identity : Option ContentIdentity) : SharedStore :=
  { store :=
      { Store.nothing with
        messages := (Table.empty _).insert
          (fun id => { (Store.listing 1 1 ∅).intoMessage ⟨1⟩ ⟨1⟩ with id := ⟨id⟩, sync, body := whole }) (fun _ => rfl) }
    contents := (Table.empty _).insert (fun id => { id := ⟨id⟩, accountId := ⟨1⟩, identity, body := whole }) (fun _ => rfl)
    identityOf := fun _ => identity
    contentOf := fun _ => identity.map (fun _ => ⟨1⟩) }

def again (identity : Option ContentIdentity) : Arrival :=
  { mail := { Store.listing 1 1 ∅ with
      envelope := some { messageId := none, headers := FetchedMessage.noHeaders } : FetchedMessage }.intoMessage ⟨1⟩ ⟨1⟩
    identity }

def native : ContentIdentity := { space := ['j'], key := ['1'] }

end SharedStore

end Postio.Pull

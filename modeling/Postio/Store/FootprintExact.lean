import Postio.Store.Footprint

set_option autoImplicit false

namespace Postio

namespace MailWeights

structure Exact (store : MailWeights) : Prop where
  footprints : ∀ account column, store.footprints account column = aggregate store.messages account column
  bytes : ∀ mail ∈ store.messages.rows, 0 ≤ mail.attachmentBytes

variable (store : MailWeights) (id : MessageId) (entry : MailWrite) (old : WeighedMail)

def lowered : Option WeighedMail :=
  -- The row whose weight a write takes out of its account's footprint.
  match entry with
  | .insert _ => none
  | .update id _ | .takeOut id _ | .putIn id _ =>
    (store.messages.get id.get).filter (fun old => differs old (entry.change old) && !old.deletedLocally)
  | .delete id => (store.messages.get id.get).filter (fun old => !old.deletedLocally)

def Balanced : Prop :=
  -- An account never owes local bytes: neither while one message is weighed anew nor after.
  (∀ old, store.lowered entry = some old ->
      0 ≤ aggregate (store.messages.removeAt old.id.get) old.accountId .localBytes) ∧
    ∀ account, 0 ≤ aggregate (store.write entry).messages account .localBytes

def NeverNegative : Prop :=
  (∀ old, store.lowered entry = some old -> store.footprints.Unclamped every old.accountId old.weighs) ∧
    ∀ account column, 0 ≤ (store.write entry).footprints account column

theorem share_nonneg (mail : WeighedMail) (column : FootprintColumn) (bytes : 0 ≤ mail.attachmentBytes)
    (weighed : column ≠ .localBytes) : 0 ≤ mail.share column := by
  unfold WeighedMail.share
  split
  · exact Int.le_refl 0
  · cases column with
    | localBytes => exact absurd rfl weighed
    | messages => exact Int.zero_le_ofNat 1
    | totalBytes => exact Int.natCast_nonneg mail.size
    | attachmentBytes => exact bytes
    | readReceipts =>
      simp only [WeighedMail.weighs]
      split
      · exact Int.zero_le_ofNat 1
      · exact Int.le_refl 0

theorem aggregate_nonneg (messages : Table WeighedMail (fun mail => mail.id.get))
    (bytes : ∀ mail ∈ messages.rows, 0 ≤ mail.attachmentBytes) (account : AccountId)
    (balanced : 0 ≤ aggregate messages account .localBytes) (column : FootprintColumn) :
    0 ≤ aggregate messages account column := by
  -- Only local bytes can come to less than nothing.
  by_cases weighed : column = .localBytes
  · rw [weighed]
    exact balanced
  · exact messages.tally_nonneg _ _ column (fun mail member => share_nonneg mail column (bytes mail member) weighed) account

theorem share_kept (mail : WeighedMail) (kept : mail.deletedLocally = false) : mail.share = mail.weighs := by
  funext column
  simp [WeighedMail.share, kept]

theorem lower_exact (rest : Figures AccountId FootprintColumn)
    (split : ∀ account column, store.footprints account column =
      rest account column + Figures.shareOf old.accountId old.share account column)
    (balanced : old.deletedLocally = false -> ∀ column, 0 ≤ rest old.accountId column) (account : AccountId)
    (column : FootprintColumn) : store.lower old account column = rest account column := by
  have whole := split account column
  cases deleted : old.deletedLocally with
  | true =>
    have none : Figures.shareOf old.accountId old.share account column = 0 := by
      simp [Figures.shareOf, WeighedMail.share, deleted]
    simp only [lower, deleted, if_true]
    omega
  | false =>
    have own := split old.accountId column
    have room := balanced deleted column
    simp only [Figures.shareOf, if_true] at own
    rw [share_kept old deleted] at own whole
    simp only [lower, deleted, Bool.false_eq_true, if_false]
    rw [Figures.lower_touched _ _ _ _ _ _ rfl (by omega)]
    omega

theorem raise_exact (new : WeighedMail) (account : AccountId) (column : FootprintColumn) :
    store.raise new account column =
      store.footprints account column + Figures.shareOf new.accountId new.share account column := by
  cases deleted : new.deletedLocally with
  | true => simp [raise, deleted, Figures.shareOf, WeighedMail.share]
  | false =>
    simp only [raise, deleted, Bool.false_eq_true, if_false]
    rw [Figures.raise_touched _ _ _ _ _ _ rfl, share_kept new deleted]

theorem aggregate_split (found : store.messages.get id.get = some old)
    (exact : store.Exact) (account : AccountId) (column : FootprintColumn) :
    store.footprints account column = aggregate (store.messages.removeAt id.get) account column +
      Figures.shareOf old.accountId old.share account column := by
  -- A row found is its account's share and what the others come to.
  rw [exact.footprints]
  exact store.messages.tally_split _ _ id.get old found account column

theorem bytes_removeAt (exact : store.Exact) (id : Nat) :
    ∀ mail ∈ (store.messages.removeAt id).rows, 0 ≤ mail.attachmentBytes :=
  fun mail member => exact.bytes mail (List.mem_of_mem_filter member)

theorem same_of_differs (new : WeighedMail) (named : new.id = old.id) (same : differs old new = false) :
    new = old := by
  simp only [differs, Bool.or_eq_false_iff, decide_eq_false_iff_not, not_not] at same
  obtain ⟨⟨⟨⟨⟨⟨account, deleted⟩, size⟩, body⟩, receipt⟩, bytes⟩, unfetched⟩ := same
  cases old
  cases new
  simp_all

theorem named_of_get (found : store.messages.get id.get = some old) : old.id = id :=
  MessageId.get_injective ((store.messages.get_eq_some id.get old).mp found).2

theorem update_exact (exact : store.Exact) (balanced : ∀ old, (store.messages.get id.get).filter
        (fun old => differs old (entry.change old) && !old.deletedLocally) = some old ->
      0 ≤ aggregate (store.messages.removeAt old.id.get) old.accountId .localBytes)
    (account : AccountId) (column : FootprintColumn) :
    (store.update id entry).footprints account column = aggregate (store.update id entry).messages account column := by
  cases found : store.messages.get id.get with
  | none =>
    simp only [update, found]
    exact exact.footprints account column
  | some old =>
    have named := store.named_of_get id old found
    have split := store.aggregate_split id old found exact
    have after : aggregate (store.update id entry).messages account column =
        aggregate (store.messages.removeAt id.get) account column +
          Figures.shareOf (entry.change old).accountId (entry.change old).share account column := by
      simp only [update, found]
      exact store.messages.tally_updateAt _ _ id.get entry.change _ old found account column
    rw [after]
    cases differ : differs old (entry.change old) with
    | true =>
      simp only [update, found, differ, if_true]
      rw [raise_exact]
      congr 1
      apply lower_exact store old _ split
      intro kept other
      apply aggregate_nonneg _ (store.bytes_removeAt exact id.get)
      rw [← named]
      apply balanced
      simp [found, differ, kept]
    | false =>
      have same := same_of_differs old (entry.change old) (entry.change_id old) differ
      simp only [update, found, differ, Bool.false_eq_true, if_false]
      rw [same]
      exact split account column

theorem delete_exact (exact : store.Exact) (balanced : ∀ old, store.lowered (.delete id) = some old ->
      0 ≤ aggregate (store.messages.removeAt old.id.get) old.accountId .localBytes)
    (account : AccountId) (column : FootprintColumn) :
    (store.delete id).footprints account column = aggregate (store.delete id).messages account column := by
  cases found : store.messages.get id.get with
  | none =>
    simp only [delete, found]
    exact exact.footprints account column
  | some old =>
    have named := store.named_of_get id old found
    simp only [delete, found]
    apply lower_exact store old _ (store.aggregate_split id old found exact)
    intro kept other
    apply aggregate_nonneg _ (store.bytes_removeAt exact id.get)
    rw [← named]
    apply balanced
    simp [lowered, found, kept]

theorem bytes_change (mail : WeighedMail) (bytes : 0 ≤ mail.attachmentBytes) :
    0 ≤ (entry.change mail).attachmentBytes := by
  cases entry with
  | takeOut id attachment => exact Int.le_max_right _ 0
  | putIn id attachment => exact Int.add_nonneg bytes (Int.natCast_nonneg attachment.size)
  | _ => exact bytes

theorem bytes_update (bytes : ∀ mail ∈ store.messages.rows, 0 ≤ mail.attachmentBytes) :
    ∀ mail ∈ (store.update id entry).messages.rows, 0 ≤ mail.attachmentBytes := by
  intro mail member
  simp only [update] at member
  split at member
  · exact bytes mail member
  · obtain ⟨row, there, rfl⟩ := List.mem_map.mp member
    split
    · exact bytes_change entry row (bytes row there)
    · exact bytes row there

theorem write_exact (exact : store.Exact) (balanced : ∀ old, store.lowered entry = some old ->
      0 ≤ aggregate (store.messages.removeAt old.id.get) old.accountId .localBytes) : (store.write entry).Exact := by
  -- A balanced write leaves the footprints what the messages come to.
  cases entry with
  | insert mail =>
    constructor
    · intro account column
      simp only [write, insert, raise_exact, exact.footprints]
      have inserted := store.messages.tally_insert WeighedMail.accountId WeighedMail.share
        (fun id => { mail with id := ⟨id⟩, attachmentBytes := 0, attachmentBytesUnfetched := 0 }) (fun _ => rfl) account
        column
      exact inserted.symm
    · intro row member
      rcases List.mem_append.mp member with before | new
      · exact exact.bytes row before
      · rw [List.mem_singleton.mp new]
  | delete id =>
    refine ⟨store.delete_exact id exact balanced, ?_⟩
    intro mail member
    simp only [write, delete] at member
    split at member
    · exact exact.bytes mail member
    · exact store.bytes_removeAt exact id.get mail member
  | update id columns =>
    exact ⟨store.update_exact id _ exact balanced, store.bytes_update id _ exact.bytes⟩
  | takeOut id attachment =>
    exact ⟨store.update_exact id _ exact balanced, store.bytes_update id _ exact.bytes⟩
  | putIn id attachment =>
    exact ⟨store.update_exact id _ exact balanced, store.bytes_update id _ exact.bytes⟩

theorem lowered_get (lowered : store.lowered entry = some old) :
    store.messages.get old.id.get = some old ∧ old.deletedLocally = false := by
  have written : ∀ (id : MessageId) (fires : WeighedMail -> Bool),
      (store.messages.get id.get).filter (fun old => fires old && !old.deletedLocally) = some old ->
      store.messages.get old.id.get = some old ∧ old.deletedLocally = false := by
    intro id fires found
    obtain ⟨there, passed⟩ := Option.filter_eq_some_iff.mp found
    simp only [Bool.and_eq_true, Bool.not_eq_true'] at passed
    rw [store.named_of_get id old there]
    exact ⟨there, passed.2⟩
  cases entry with
  | insert => cases lowered
  | delete id => exact written id (fun _ => true) (by simpa only [MailWeights.lowered, Bool.true_and] using lowered)
  | update id columns => exact written id _ lowered
  | takeOut id attachment => exact written id _ lowered
  | putIn id attachment => exact written id _ lowered

theorem unclamped_iff (exact : store.Exact) (old : WeighedMail) (lowered : store.lowered entry = some old) :
    store.footprints.Unclamped every old.accountId old.weighs <->
      0 ≤ aggregate (store.messages.removeAt old.id.get) old.accountId .localBytes := by
  -- What the others of its account come to is what is left once a message's weight is taken out.
  obtain ⟨found, kept⟩ := store.lowered_get entry old lowered
  have split := store.aggregate_split old.id old found exact old.accountId
  simp only [Figures.shareOf, if_true, share_kept old kept] at split
  constructor
  · intro unclamped
    have room := unclamped .localBytes rfl
    rw [split] at room
    omega
  · intro balanced column _
    have room := aggregate_nonneg _ (store.bytes_removeAt exact old.id.get) old.accountId balanced column
    rw [split]
    omega

theorem balanced_iff (exact : store.Exact) :
    store.NeverNegative entry <-> store.Balanced entry := by
  constructor
  · rintro ⟨unclamped, nonneg⟩
    have taken : ∀ old, store.lowered entry = some old ->
        0 ≤ aggregate (store.messages.removeAt old.id.get) old.accountId .localBytes :=
      fun old lowered => (store.unclamped_iff entry exact old lowered).mp (unclamped old lowered)
    refine ⟨taken, fun account => ?_⟩
    rw [← (store.write_exact entry exact taken).footprints]
    exact nonneg account .localBytes
  · rintro ⟨taken, left⟩
    have after := store.write_exact entry exact taken
    refine ⟨fun old lowered => (store.unclamped_iff entry exact old lowered).mpr (taken old lowered), ?_⟩
    intro account column
    rw [after.footprints]
    exact aggregate_nonneg _ after.bytes account (left account) column

end MailWeights

def WeighedMail.sums (mail : WeighedMail) : AttachmentColumn -> Int
  | .bytes => mail.attachmentBytes
  | .unfetched => mail.attachmentBytesUnfetched

theorem AttachmentRow.weighs_nonneg (attachment : AttachmentRow) (column : AttachmentColumn) :
    0 ≤ attachment.weighs column := by
  cases column with
  | bytes => exact Int.natCast_nonneg attachment.size
  | unfetched =>
    simp only [weighs]
    split
    · exact Int.natCast_nonneg attachment.size
    · exact Int.le_refl 0

namespace FootprintStore

def sumsOf (attachments : Table AttachmentRow AttachmentRow.id) : Figures (Option MessageId) AttachmentColumn :=
  attachments.tally AttachmentRow.messageId AttachmentRow.weighs

variable (store : FootprintStore) (event : Event) (mail : WeighedMail)

def SumsExact : Prop :=
  ∀ mail ∈ store.messages.rows, ∀ column, mail.sums column = sumsOf store.attachments (some mail.id) column

structure Exact (store : FootprintStore) : Prop where
  weighed : store.toMailWeights.Exact
  sums : store.SumsExact
  linked : ∀ attachment ∈ store.attachments.rows, store.hasMessage attachment.messageId

def Balanced (store : FootprintStore) (event : Event) : Prop :=
  Run.Along MailWeights.write MailWeights.Balanced store.toMailWeights (store.writes event)

def takenOut : Event -> Option AttachmentRow
  | .updateAttachment id _ | .deleteAttachment id => store.attachments.get id
  | _ => none

/-- What is kept is what a recount would come to, and nothing went below zero on the way. -/
structure Right (store : FootprintStore) (event : Event) : Prop where
  sums : (store.step event).SumsExact
  footprints : ∀ account column, (store.step event).footprints account column =
    MailWeights.aggregate (store.step event).messages account column
  unclamped : ∀ attachment, store.takenOut event = some attachment -> ∀ mail ∈ store.messages.rows,
    attachment.messageId = some mail.id -> ∀ column, 0 ≤ mail.sums column - attachment.weighs column
  negative : Run.Along MailWeights.write MailWeights.NeverNegative store.toMailWeights (store.writes event)

/-! ### The sums over attachments -/

theorem sums_takeOut (attachment : AttachmentRow)
    (unclamped : ∀ column, 0 ≤ mail.sums column - attachment.weighs column) (column : AttachmentColumn) :
    (WeighedMail.takeOut attachment mail).sums column = mail.sums column - attachment.weighs column := by
  have room := unclamped column
  cases column with
  | bytes => exact Int.max_eq_left room
  | unfetched => exact Int.max_eq_left room

theorem sums_putIn (attachment : AttachmentRow) (column : AttachmentColumn) :
    (WeighedMail.putIn attachment mail).sums column = mail.sums column + attachment.weighs column := by
  cases column with
  | _ => rfl

theorem row_update (store : MailWeights) (id : MessageId) (entry : MailWrite) (mail : WeighedMail)
    (member : mail ∈ (store.update id entry).messages.rows) :
    ∃ old ∈ store.messages.rows, mail = (if old.id = id then entry.change old else old) ∧ mail.id = old.id := by
  -- A row after an update is a row before it, changed when it is the one named.
  simp only [MailWeights.update] at member
  cases found : store.messages.get id.get with
  | none =>
    rw [found] at member
    refine ⟨mail, member, ?_, rfl⟩
    rw [if_neg]
    intro same
    exact (store.messages.get_eq_none id.get).mp found mail member (congrArg MessageId.get same)
  | some target =>
    rw [found] at member
    obtain ⟨old, there, rfl⟩ := List.mem_map.mp member
    refine ⟨old, there, ?_, ?_⟩
    · by_cases named : old.id = id
      · simp [named]
      · have other : old.id.get ≠ id.get := fun same => named (MessageId.get_injective same)
        simp [named, other]
    · split
      · exact entry.change_id old
      · rfl

theorem isSome_write (store : MailWeights) (entry : MailWrite) (kept : ∀ id, entry ≠ .delete id) (id : Nat)
    (there : (store.messages.get id).isSome) : ((store.write entry).messages.get id).isSome := by
  have update : ∀ (target : MessageId) (entry : MailWrite), ((store.update target entry).messages.get id).isSome := by
    intro target entry
    simp only [MailWeights.update]
    split
    · exact there
    · rw [Table.get_updateAt]
      split
      · simpa using there
      · exact there
  cases entry with
  | insert mail =>
    simp only [MailWeights.write, MailWeights.insert, Table.get_insert]
    split
    · rfl
    · exact there
  | delete target => exact absurd rfl (kept target)
  | update target columns => exact update target _
  | takeOut target attachment => exact update target _
  | putIn target attachment => exact update target _

theorem shareOf_some (attachment : AttachmentRow) (id : MessageId) (message : MessageId) (column : AttachmentColumn)
    (linked : attachment.messageId = some message) :
    Figures.shareOf attachment.messageId attachment.weighs (some id) column =
      if id = message then attachment.weighs column else 0 := by
  simp [Figures.shareOf, linked]

theorem sums_takenOut (store : MailWeights) (attachment : AttachmentRow)
    (unclamped : ∀ mail ∈ store.messages.rows, attachment.messageId = some mail.id ->
      ∀ column, 0 ≤ mail.sums column - attachment.weighs column) :
    ∀ mail ∈ (Run.run MailWeights.write store (attachment.messageId.toList.map (.takeOut · attachment))).messages.rows,
      ∃ old ∈ store.messages.rows, mail.id = old.id ∧ ∀ column, mail.sums column =
        old.sums column - Figures.shareOf attachment.messageId attachment.weighs (some old.id) column := by
  -- Taking an attachment out takes its weight out of the one message it is in.
  intro mail member
  cases linked : attachment.messageId with
  | none =>
    rw [linked] at member
    refine ⟨mail, member, rfl, fun column => ?_⟩
    simp [Figures.shareOf]
  | some message =>
    rw [linked] at member
    obtain ⟨old, there, changed, named⟩ := row_update store message _ mail member
    refine ⟨old, there, named, fun column => ?_⟩
    rw [← linked, shareOf_some attachment old.id message column linked, changed]
    by_cases own : old.id = message
    · simp only [own, if_true]
      exact sums_takeOut old attachment (unclamped old there (by rw [linked, own])) column
    · simp only [own, if_false]
      omega

theorem sums_puttingIn (store : MailWeights) (target : Option MessageId) (attachment : AttachmentRow)
    (linked : attachment.messageId = target) :
    ∀ mail ∈ (Run.run MailWeights.write store (target.toList.map (.putIn · attachment))).messages.rows,
      ∃ old ∈ store.messages.rows, mail.id = old.id ∧ ∀ column, mail.sums column =
        old.sums column + Figures.shareOf attachment.messageId attachment.weighs (some old.id) column := by
  intro mail member
  cases target with
  | none =>
    refine ⟨mail, member, rfl, fun column => ?_⟩
    simp [Figures.shareOf, linked]
  | some message =>
    obtain ⟨old, there, changed, named⟩ := row_update store message _ mail member
    refine ⟨old, there, named, fun column => ?_⟩
    rw [shareOf_some attachment old.id message column linked, changed]
    by_cases own : old.id = message
    · simp only [own, if_true]
      exact sums_putIn old attachment column
    · simp only [own, if_false]
      omega

theorem sumsOf_nonneg (attachments : Table AttachmentRow AttachmentRow.id) (group : Option MessageId)
    (column : AttachmentColumn) : 0 ≤ sumsOf attachments group column :=
  attachments.tally_nonneg _ _ column (fun attachment _ => attachment.weighs_nonneg column) group

theorem sums_room (exact : store.Exact) (id : Nat) (attachment : AttachmentRow)
    (found : store.attachments.get id = some attachment) (mail : WeighedMail) (member : mail ∈ store.messages.rows)
    (linked : attachment.messageId = some mail.id) (column : AttachmentColumn) :
    0 ≤ mail.sums column - attachment.weighs column := by
  -- A message's sums hold each of its attachments.
  have others := sumsOf_nonneg (store.attachments.removeAt id) (some mail.id) column
  have split := store.attachments.tally_split AttachmentRow.messageId AttachmentRow.weighs id attachment found
    (some mail.id) column
  have exactly := exact.sums mail member column
  simp only [Figures.shareOf, linked, if_true] at split
  simp only [sumsOf] at others exactly
  omega

theorem unclamped_exact (exact : store.Exact) (event : Event) (attachment : AttachmentRow)
    (taken : store.takenOut event = some attachment) : ∀ mail ∈ store.messages.rows,
    attachment.messageId = some mail.id -> ∀ column, 0 ≤ mail.sums column - attachment.weighs column := by
  have found : ∃ id, store.attachments.get id = some attachment := by
    cases event with
    | updateAttachment id columns => exact ⟨id, taken⟩
    | deleteAttachment id => exact ⟨id, taken⟩
    | _ => cases taken
  obtain ⟨id, there⟩ := found
  intro mail member linked column
  exact store.sums_room exact id attachment there mail member linked column

/-! ### Statement by statement -/

theorem sums_insertAttachment (attachment : AttachmentRow) (exact : store.Exact) :
    (store.step (.insertAttachment attachment)).SumsExact := by
  intro mail member column
  simp only [step, writes, attached] at member ⊢
  cases linked : store.hasMessage attachment.messageId with
  | false =>
    simp only [linked, Bool.false_eq_true, if_false] at member ⊢
    exact exact.sums mail member column
  | true =>
    simp only [linked, if_true] at member ⊢
    obtain ⟨old, there, named, sums⟩ := sums_puttingIn store.toMailWeights _ attachment rfl mail member
    rw [sums column, named, exact.sums old there column]
    have inserted := store.attachments.tally_insert AttachmentRow.messageId AttachmentRow.weighs
      (fun id => { attachment with id }) (fun _ => rfl) (some old.id) column
    exact inserted.symm

theorem sums_deleteAttachment (id : Nat) (exact : store.Exact) : (store.step (.deleteAttachment id)).SumsExact:= by
  intro mail member column
  simp only [step, writes, attached] at member ⊢
  cases found : store.attachments.get id with
  | none =>
    simp only [found] at member
    rw [exact.sums mail member column]
    symm
    apply store.attachments.tally_remove_other
    intro attachment there gone
    exact absurd (by simpa using gone) ((store.attachments.get_eq_none id).mp found attachment there)
  | some attachment =>
    simp only [found] at member
    obtain ⟨old, there, named, sums⟩ := sums_takenOut store.toMailWeights attachment
      (store.unclamped_exact exact (.deleteAttachment id) attachment found) mail member
    have split := store.attachments.tally_split AttachmentRow.messageId AttachmentRow.weighs id attachment found
      (some old.id) column
    have exactly := exact.sums old there column
    rw [sums column, named, exactly]
    simp only [sumsOf] at *
    omega

theorem shareOf_still (old new : AttachmentRow) (still : differs old new = false) (id : MessageId)
    (column : AttachmentColumn) :
    Figures.shareOf new.messageId new.weighs (some id) column =
      Figures.shareOf old.messageId old.weighs (some id) column := by
  -- What the update trigger does not compare adds nothing to a message's sums.
  simp only [differs, Bool.or_eq_false_iff, decide_eq_false_iff_not, not_not] at still
  obtain ⟨⟨message, size⟩, blob⟩ := still
  cases column with
  | bytes => simp only [Figures.shareOf, AttachmentRow.weighs, message, size]
  | unfetched => simp only [Figures.shareOf, AttachmentRow.weighs, message, size, blob]

theorem sums_updateAttachment (id : Nat) (columns : AttachmentColumns) (exact : store.Exact) :
    (store.step (.updateAttachment id columns)).SumsExact := by
  intro mail member column
  simp only [step, writes, attached] at member ⊢
  cases found : store.attachments.get id with
  | none =>
    simp only [found] at member
    exact exact.sums mail member column
  | some attachment =>
    simp only [found] at member ⊢
    have updated := fun message => store.attachments.tally_updateAt AttachmentRow.messageId AttachmentRow.weighs id
      columns.applied (fun _ => rfl) attachment found (some message) column
    have split := fun message => store.attachments.tally_split AttachmentRow.messageId AttachmentRow.weighs id attachment
      found (some message) column
    cases linked : store.hasMessage (columns.applied attachment).messageId with
    | false =>
      simp only [linked, Bool.false_and, Bool.false_eq_true, if_false] at member ⊢
      exact exact.sums mail member column
    | true =>
      simp only [linked, Bool.true_and, if_true] at member ⊢
      cases differ : differs attachment (columns.applied attachment) with
      | false =>
        simp only [differ, Bool.false_eq_true, if_false] at member
        have still := shareOf_still attachment (columns.applied attachment) differ mail.id column
        have exactly := exact.sums mail member column
        have after := updated mail.id
        have before := split mail.id
        simp only [sumsOf] at *
        omega
      | true =>
        simp only [differ, if_true] at member
        rw [Run.run_append] at member
        obtain ⟨between, there, named, put⟩ := sums_puttingIn _ _ (columns.applied attachment) rfl mail member
        obtain ⟨old, first, oldNamed, taken⟩ := sums_takenOut store.toMailWeights attachment
          (store.unclamped_exact exact (.updateAttachment id columns) attachment found) between there
        have exactly := exact.sums old first column
        have after := updated old.id
        have before := split old.id
        rw [put column, taken column, named, oldNamed, exactly]
        simp only [sumsOf] at *
        omega

theorem sums_kept (exact : store.Exact) (mail old : WeighedMail)
    (there : old ∈ store.messages.rows) (named : mail.id = old.id) (same : mail.sums = old.sums)
    (column : AttachmentColumn) : mail.sums column = sumsOf store.attachments (some mail.id) column := by
  -- A message written otherwise keeps its sums.
  rw [same, named]
  exact exact.sums old there column

theorem sums_insertMessage (exact : store.Exact) : (store.step (.insertMessage mail)).SumsExact:= by
  intro row member column
  simp only [step, writes, attached] at member ⊢
  cases account : store.hasAccount mail.accountId with
  | false =>
    simp only [account, Bool.false_eq_true, if_false] at member
    exact exact.sums row member column
  | true =>
    simp only [account, if_true] at member
    rcases List.mem_append.mp member with before | new
    · exact exact.sums row before column
    · rw [List.mem_singleton.mp new]
      -- No attachment can name a message before it is there.
      have none : sumsOf store.attachments (some ⟨store.messages.nextId⟩) column = 0 := by
        apply store.attachments.tally_empty
        intro attachment there linked
        have present := exact.linked attachment there
        simp only [hasMessage, linked, Option.all_some] at present
        obtain ⟨found, get⟩ := Option.isSome_iff_exists.mp present
        obtain ⟨inside, key⟩ := (store.messages.get_eq_some _ _).mp get
        have issued := store.messages.issued found inside
        omega
      rw [none]
      cases column with
      | _ => rfl

theorem sums_updateMessage (id : MessageId) (columns : MailColumns) (exact : store.Exact) :
    (store.step (.updateMessage id columns)).SumsExact := by
  intro mail member column
  simp only [step, writes, attached] at member ⊢
  cases account : columns.accountId.all store.hasAccount with
  | false =>
    simp only [account, Bool.false_eq_true, if_false] at member
    exact exact.sums mail member column
  | true =>
    simp only [account, if_true] at member
    obtain ⟨old, there, changed, named⟩ := row_update store.toMailWeights id _ mail member
    apply store.sums_kept exact mail old there named
    rw [changed]
    funext column
    split
    · cases column with
      | _ => rfl
    · rfl

theorem sums_deleteMessage (id : MessageId) (exact : store.Exact) : (store.step (.deleteMessage id)).SumsExact:= by
  intro mail member column
  simp only [step, writes, attached] at member ⊢
  have inside : mail ∈ store.messages.rows ∧ mail.id ≠ id := by
    simp only [Run.run_cons, Run.run_nil, MailWeights.write, MailWeights.delete] at member
    cases found : store.messages.get id.get with
    | none =>
      rw [found] at member
      exact ⟨member, fun same => (store.messages.get_eq_none id.get).mp found mail member (congrArg MessageId.get same)⟩
    | some old =>
      rw [found] at member
      obtain ⟨there, other⟩ := List.mem_filter.mp member
      refine ⟨there, fun same => ?_⟩
      simp [same] at other
  rw [exact.sums mail inside.1 column]
  symm
  apply store.attachments.tally_remove_other
  intro attachment _ gone linked
  have named : attachment.messageId = some id := by simpa using gone
  rw [linked] at named
  exact inside.2 (Option.some.inj named)

theorem sums_deleteAccount (account : AccountId) (exact : store.Exact) :
    (store.step (.deleteAccount account)).SumsExact := by
  intro mail member column
  obtain ⟨there, other⟩ := List.mem_filter.mp member
  simp only [step, attached]
  rw [exact.sums mail there column]
  symm
  apply store.attachments.tally_remove_other
  intro attachment _ gone linked
  have found : store.messages.get mail.id.get = some mail := (store.messages.get_eq_some _ _).mpr ⟨there, rfl⟩
  simp [linked, found] at gone
  simp [gone] at other

theorem sums_step (exact : store.Exact) : (store.step event).SumsExact := by
  cases event with
  | insertAccount => exact exact.sums
  | deleteAccount account => exact store.sums_deleteAccount account exact
  | insertMessage mail => exact store.sums_insertMessage mail exact
  | updateMessage id columns => exact store.sums_updateMessage id columns exact
  | deleteMessage id => exact store.sums_deleteMessage id exact
  | insertAttachment attachment => exact store.sums_insertAttachment attachment exact
  | updateAttachment id columns => exact store.sums_updateAttachment id columns exact
  | deleteAttachment id => exact store.sums_deleteAttachment id exact

theorem isSome_run (store : MailWeights) (entries : List MailWrite) (kept : ∀ entry ∈ entries, ∀ id, entry ≠ .delete id)
    (id : Nat) (there : (store.messages.get id).isSome) :
    ((Run.run MailWeights.write store entries).messages.get id).isSome := by
  induction entries generalizing store with
  | nil => exact there
  | cons entry rest ih =>
    apply ih
    · exact fun other member => kept other (List.mem_cons_of_mem _ member)
    · exact isSome_write store entry (kept entry List.mem_cons_self) id there

theorem writes_kept (deletes : ∀ id, event ≠ .deleteMessage id) :
    ∀ entry ∈ store.writes event, ∀ id, entry ≠ .delete id := by
  -- Only a message's own deletion is among the writes of one.
  intro entry member id same
  subst same
  cases event with
  | deleteMessage id => exact deletes id rfl
  | insertAccount => cases member
  | deleteAccount => cases member
  | insertMessage mail =>
    simp only [writes] at member
    split at member
    · simp at member
    · cases member
  | updateMessage id columns =>
    simp only [writes] at member
    split at member
    · simp at member
    · cases member
  | insertAttachment attachment =>
    simp only [writes] at member
    split at member
    · simp at member
    · cases member
  | updateAttachment id columns =>
    simp only [writes] at member
    split at member
    · cases member
    · split at member
      · simp at member
      · cases member
  | deleteAttachment id =>
    simp only [writes] at member
    split at member
    · cases member
    · simp at member

theorem hasMessage_iff (message : Option MessageId) :
    store.hasMessage message = true <-> ∀ id, message = some id -> (store.messages.get id.get).isSome := by
  cases message with
  | none => simp [hasMessage]
  | some id => simp [hasMessage]

theorem linked_step (exact : store.Exact) :
    ∀ attachment ∈ (store.step event).attachments.rows, (store.step event).hasMessage attachment.messageId := by
  have linked := fun attachment member => (store.hasMessage_iff _).mp (exact.linked attachment member)
  intro attachment member
  rw [hasMessage_iff]
  intro id named
  have keeps : (∀ id, event ≠ .deleteMessage id) -> (store.messages.get id.get).isSome ->
      ((Run.run MailWeights.write store.toMailWeights (store.writes event)).messages.get id.get).isSome := by
    intro deletes there
    exact isSome_run store.toMailWeights _ (store.writes_kept event deletes) id.get there
  cases event with
  | insertAccount => exact linked attachment member id named
  | deleteAccount account =>
    obtain ⟨there, kept⟩ := List.mem_filter.mp member
    obtain ⟨mail, found⟩ := Option.isSome_iff_exists.mp (linked attachment there id named)
    have other : mail.accountId ≠ account := by simpa [named, found] using kept
    simp only [step, Table.get_remove, found]
    simp [Option.filter_some, other]
  | deleteMessage deleted =>
    obtain ⟨there, kept⟩ := List.mem_filter.mp member
    have present := linked attachment there id named
    have other : id ≠ deleted := by simpa [named] using kept
    simp only [step, writes, Run.run_cons, Run.run_nil, MailWeights.write, MailWeights.delete]
    split
    · exact present
    · obtain ⟨mail, found⟩ := Option.isSome_iff_exists.mp present
      have own := store.toMailWeights.named_of_get id mail found
      have apart : mail.id.get ≠ deleted.get := fun same => other (own ▸ MessageId.get_injective same)
      rw [Table.removeAt, Table.get_remove, found]
      simp [Option.filter_some, apart]
  | insertMessage mail => exact keeps (by simp) (linked attachment member id named)
  | updateMessage target columns => exact keeps (by simp) (linked attachment member id named)
  | insertAttachment new =>
    apply keeps (by simp)
    simp only [step, attached] at member
    split at member
    next there =>
      rcases List.mem_append.mp member with before | last
      · exact linked attachment before id named
      · rw [List.mem_singleton.mp last] at named
        exact (store.hasMessage_iff _).mp there id named
    next => exact linked attachment member id named
  | updateAttachment target columns =>
    apply keeps (by simp)
    simp only [step, attached] at member
    cases found : store.attachments.get target with
    | none =>
      simp only [found] at member
      exact linked attachment member id named
    | some old =>
      simp only [found] at member
      split at member
      next there =>
        obtain ⟨row, inside, rfl⟩ := List.mem_map.mp member
        by_cases own : row.id = target
        · have one : row = old := Option.some.inj
            (((store.attachments.get_eq_some target row).mpr ⟨inside, own⟩).symm.trans found)
          rw [if_pos own, one] at named
          exact (store.hasMessage_iff _).mp there id named
        · rw [if_neg own] at named
          exact linked row inside id named
      next => exact linked attachment member id named
  | deleteAttachment target =>
    exact keeps (by simp) (linked attachment (List.mem_of_mem_filter member) id named)

theorem weighed_step (exact : store.Exact) (balanced : store.Balanced event) :
    (store.step event).toMailWeights.Exact := by
  -- What the triggers leave when every write of a statement was balanced.
  have written := Run.run_invariant MailWeights.write MailWeights.Exact MailWeights.Balanced
    (fun weighed entry exact balanced => weighed.write_exact entry exact balanced.1) _ _ exact.weighed balanced
  cases event with
  | deleteAccount account =>
    constructor
    · intro other column
      simp only [step]
      by_cases same : other = account
      · subst same
        simp only [if_true]
        symm
        apply Table.tally_empty
        intro mail member elsewhere
        have gone := (List.mem_filter.mp member).2
        simp [elsewhere] at gone
      · simp only [same, if_false, exact.weighed.footprints]
        symm
        apply Table.tally_remove_other
        intro mail _ gone elsewhere
        exact same (elsewhere.symm.trans (by simpa using gone))
    · intro mail member
      exact exact.weighed.bytes mail (List.mem_of_mem_filter member)
  | _ => exact written

theorem step_exact (exact : store.Exact) (balanced : store.Balanced event) :
    (store.step event).Exact :=
  ⟨store.weighed_step event exact balanced, store.sums_step event exact, store.linked_step event exact⟩

theorem right_iff (exact : store.Exact) :
    store.Right event <-> store.Balanced event := by
  -- From exact figures a statement keeps them right exactly when it is balanced.
  have writes := Run.along_iff MailWeights.write MailWeights.Exact MailWeights.NeverNegative MailWeights.Balanced
    (fun weighed entry exact balanced => weighed.write_exact entry exact balanced.1)
    (fun weighed entry exact => weighed.balanced_iff entry exact) store.toMailWeights (store.writes event) exact.weighed
  constructor
  · intro right
    exact writes.mp right.negative
  · intro balanced
    have after := store.step_exact event exact balanced
    exact ⟨after.sums, after.weighed.footprints,
      fun attachment taken => store.unclamped_exact exact event attachment taken, writes.mpr balanced⟩

theorem opened_exact : opened.Exact where
  weighed := ⟨fun _ _ => rfl, fun _ member => (by cases member)⟩
  sums := fun _ member => (by cases member)
  linked := fun _ member => (by cases member)

/-- A run keeps every figure right if and only if it never leaves an account owing local bytes. -/
theorem footprint_exact_iff (events : List Event) :
    Run.Along step Right opened events <-> Run.Along step Balanced opened events :=
  Run.along_iff step Exact Right Balanced step_exact right_iff opened events opened_exact

/-! ### An attachment larger than its message -/

def letter : WeighedMail where
  id := ⟨0⟩
  accountId := ⟨1⟩
  deletedLocally := false
  size := 100
  bodyState := .headersOnly
  readReceiptRequested := false
  attachmentBytes := 0
  attachmentBytesUnfetched := 0

def outweighed : List Event :=
  -- A message of 100 bytes whose one attachment says it has 150, and whose text is then fetched.
  [.insertAccount, .insertMessage letter,
    .insertAttachment { id := 0, messageId := some ⟨1⟩, size := 150, blobId := none },
    .updateMessage ⟨1⟩ { bodyState := some .partly }]

theorem outweighed_not_right : ¬ Run.Along step Right opened outweighed := by
  intro right
  obtain ⟨-, -, -, last, -⟩ := right
  have negative := last.negative
  obtain ⟨⟨-, nonneg⟩, -⟩ := negative
  have account := nonneg ⟨1⟩ .localBytes
  revert account
  decide

end FootprintStore

end Postio

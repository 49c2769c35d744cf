import Mathlib.Algebra.Group.Nat.Defs
import Mathlib.Data.List.Flatten
import Postio.Lists.ViewRows

set_option autoImplicit false

namespace Postio

namespace MailStore

section groups

variable (store : MailStore) (now : Instant) (membership : Membership)

variable (raw : AccountId × Message) (group : ThreadGroup) (limit : UInt32) (thread : ThreadId) (offset : UInt32)

def leads : Bool :=
  -- Whether a conversation in view has no newer copy there.
  (store.keyInView now membership store.unifiedInboxes thread).any (fun own =>
    (store.copies now thread).all (fun copy =>
      (store.keyInView now membership store.unifiedInboxes copy).all (fun key => !decide (own < key))))

def groups : List ThreadGroup :=
  (store.viewRows now membership).filterMap (store.groupOf now membership store.unifiedInboxes)

def pageAt (cursor : Option ThreadCursor) : List ThreadGroup :=
  match membership with
  | .folder => store.unifiedPageAt now limit offset cursor
  | .focus => store.focusPageAt now store.unifiedInboxes limit offset cursor

def count : Nat :=
  match membership with
  | .folder => store.unifiedCount now
  | .focus => store.focusCount now store.unifiedInboxes

def readOn (limit offset : UInt32) : List ThreadGroup :=
  Windows.readOn (fun group => rank group.row) (store.pageAt now membership limit offset none)
    (store.pageAt now membership limit 0) (store.messages.rows.length + 1)

/-- The list is a partition of what is in view, however it is read. -/
structure Whole (limit offset : UInt32) : Prop where
  conversations : ∀ thread ∈ store.conversationsInView now membership,
    (store.groups now membership).countP (fun group => group.members.any (fun member => member.2 = thread)) = 1
  lone : ∀ row, store.Shown now membership row -> row.threadId = none ->
    (store.groups now membership).countP (fun group => group.row = row) = 1
  placed : ∀ group ∈ store.groups now membership, ∀ row, store.Shown now membership row ->
    row = group.row ∨ (∃ member ∈ group.members, row.threadId = some member.2) -> rank row ≤ rank group.row
  ordered : Windows.Descending (fun group : ThreadGroup => rank group.row) (store.groups now membership)
  paged : store.readOn now membership limit offset = (store.groups now membership).drop offset.toNat
  counted : store.count now membership = (store.groups now membership).length

def DrawnOnce : Prop :=
  -- Each conversation in view is, or is a copy of, exactly one of those there without newer copies.
  ∀ thread ∈ store.conversationsInView now membership,
    ((store.conversationsInView now membership).filter (fun leader =>
      store.leads now membership leader && (leader = thread || (store.copies now leader).contains thread))).length = 1

def Fits : Prop :=
  -- The pages asked for have rows, and no number that is computed of them leaves `u32`.
  (store.groups now membership).length < 2 ^ 32 ∧
    ((store.groups now membership).length ≤ offset.toNat ∨
      match membership with
      | .folder =>
        (limit ≠ 0 ∨ offset = 0) ∧ saturatingAdd limit offset ≠ 2 ^ 31 ∧
          (limit.toNat = 2 ^ 31 -> (store.groups now membership).length ≤ saturatingAdd limit offset)
      | .focus =>
        limit ≠ 0 ∧
          (store.unifiedInboxes.length < 2 ∨
            saturatingAdd limit offset ≠ 2 ^ 31 ∧
              (limit.toNat = 2 ^ 31 -> (store.groups now membership).length ≤ saturatingAdd limit offset)))

/-! ### The groups -/

theorem mem_partnersInView (partner : Partner)
    (there : partner ∈ store.partnersInView now membership store.unifiedInboxes (some thread)) :
    partner.thread.id ∈ store.copies now thread ∧
      store.keyInView now membership store.unifiedInboxes partner.thread.id = some partner.drawnAt := by
  obtain ⟨copy, found, keyed⟩ := List.mem_filterMap.mp there
  obtain ⟨key, drawn, rfl⟩ := Option.map_eq_some_iff.mp keyed
  exact ⟨List.mem_map_of_mem found, drawn⟩

theorem partner_of_copy (copy : ThreadId) (copied : copy ∈ store.copies now thread) (key : ThreadCursor)
    (drawn : store.keyInView now membership store.unifiedInboxes copy = some key) :
    ∃ partner ∈ store.partnersInView now membership store.unifiedInboxes (some thread),
      partner.thread.id = copy ∧ partner.drawnAt = key := by
  obtain ⟨found, held, rfl⟩ := List.mem_map.mp copied
  refine ⟨{ thread := found, drawnAt := key }, List.mem_filterMap.mpr ⟨found, held, ?_⟩, rfl, rfl⟩
  rw [drawn]
  rfl

theorem groupOf_lone (alone : raw.2.threadId = none) :
    store.groupOf now membership store.unifiedInboxes raw = some { row := raw.2, members := [] } := by
  unfold groupOf partnersInView
  rw [alone]
  rfl

theorem groupOf_row (grouped : store.groupOf now membership store.unifiedInboxes raw = some group) : group.row = raw.2 := by
  unfold groupOf at grouped
  dsimp only at grouped
  split at grouped
  next => cases grouped
  next =>
    cases grouped
    rfl

theorem groupOf_isSome (perAccount : store.PerAccount) (raw : AccountId × Message)
    (member : raw ∈ store.viewRows now membership) (thread : ThreadId) (held : raw.2.threadId = some thread) :
    (store.groupOf now membership store.unifiedInboxes raw).isSome = store.leads now membership thread := by
  have own := store.row_key now membership perAccount raw member thread held
  unfold groupOf leads
  rw [held, own]
  dsimp only
  rw [Bool.eq_iff_iff, Option.any_some, List.all_eq_true]
  split
  next newer =>
    rw [Option.isSome_none]
    refine iff_of_false Bool.false_ne_true fun none_newer => ?_
    obtain ⟨partner, there, less⟩ := List.any_eq_true.mp newer
    obtain ⟨copied, drawn⟩ := store.mem_partnersInView now membership thread partner there
    have older := none_newer _ copied
    rw [drawn, Option.all_some, Bool.not_eq_true'] at older
    exact of_decide_eq_false older (of_decide_eq_true less)
  next none_newer =>
    rw [Option.isSome_some]
    refine iff_of_true rfl fun copy copied => ?_
    rw [Option.all_eq_true]
    intro key drawn
    obtain ⟨partner, there, -, rfl⟩ := store.partner_of_copy now membership thread copy copied key drawn
    rw [Bool.not_eq_true']
    exact decide_eq_false fun less => none_newer (List.any_eq_true.mpr ⟨partner, there, decide_eq_true less⟩)

theorem groupOf_members (own : ThreadId)
    (held : raw.2.threadId = some own) (grouped : store.groupOf now membership store.unifiedInboxes raw = some group)
    (thread : ThreadId) :
    (∃ member ∈ group.members, member.2 = thread) <->
      thread = own ∨ thread ∈ store.copies now own ∧ thread ∈ store.conversationsInView now membership := by
  unfold groupOf at grouped
  rw [held] at grouped
  dsimp only at grouped
  split at grouped
  next => cases grouped
  next =>
    cases grouped
    simp only [Option.map_some, Option.toList_some, List.singleton_append, List.mem_cons, List.mem_map, exists_eq_or_imp]
    apply or_congr
    · exact eq_comm
    · constructor
      · rintro ⟨member, ⟨partner, there, rfl⟩, rfl⟩
        obtain ⟨copied, drawn⟩ := store.mem_partnersInView now membership own partner there
        exact ⟨copied, (store.keyInView_isSome now membership _).mp ⟨_, drawn⟩⟩
      · rintro ⟨copied, there⟩
        obtain ⟨key, drawn⟩ := (store.keyInView_isSome now membership thread).mpr there
        obtain ⟨partner, found, named, -⟩ := store.partner_of_copy now membership own thread copied key drawn
        exact ⟨_, ⟨partner, found, rfl⟩, named⟩

theorem mem_groups :
    group ∈ store.groups now membership <->
      ∃ raw ∈ store.viewRows now membership, store.groupOf now membership store.unifiedInboxes raw = some group :=
  List.mem_filterMap

theorem groups_descending (perAccount : store.PerAccount) :
    Windows.Descending (fun group : ThreadGroup => rank group.row) (store.groups now membership) :=
  Windows.filterMap_descending (fun raw : AccountId × Message => rank raw.2) (fun group : ThreadGroup => rank group.row) _
    (fun raw group grouped => congrArg rank (store.groupOf_row now membership raw group grouped)) _
    (store.viewRows_descending now membership perAccount)

theorem groups_placed (perAccount : store.PerAccount) (group : ThreadGroup) (among : group ∈ store.groups now membership)
    (row : Message) (shown : store.Shown now membership row)
    (inside : row = group.row ∨ ∃ member ∈ group.members, row.threadId = some member.2) : rank row ≤ rank group.row := by
  -- A group stands at its newest member.
  obtain ⟨raw, listed, grouped⟩ := (store.mem_groups now membership group).mp among
  have same := store.groupOf_row now membership raw group grouped
  rcases inside with rfl | ⟨member, held, named⟩
  · exact le_refl _
  · rw [same]
    cases conversation : raw.2.threadId with
    | none =>
      rw [store.groupOf_lone now membership raw conversation] at grouped
      cases grouped
      cases held
    | some own =>
      have drawn := store.row_key now membership perAccount raw listed own conversation
      rcases (store.groupOf_members now membership raw group own conversation grouped member.2).mp ⟨member, held, rfl⟩ with
        itself | ⟨copied, there⟩
      · rw [itself] at named
        exact ((store.keyInView_eq_some now membership own _).mp drawn).2 row shown named
      · obtain ⟨key, found⟩ := (store.keyInView_isSome now membership member.2).mpr there
        have leading := store.groupOf_isSome now membership perAccount raw listed own conversation
        rw [grouped, Option.isSome_some] at leading
        have older := leading.symm
        unfold leads at older
        rw [drawn, Option.any_some, List.all_eq_true] at older
        have older := older _ copied
        rw [found, Option.all_some, Bool.not_eq_true'] at older
        exact le_trans (((store.keyInView_eq_some now membership member.2 key).mp found).2 row shown named)
          (not_lt.mp (of_decide_eq_false older))

/-! ### How many groups -/

theorem row_threads (perAccount : store.PerAccount) :
    ((store.viewRows now membership).filterMap (fun raw => raw.2.threadId)).Perm (store.conversationsInView now membership) := by
  -- The conversations of the rows are those in view, each once.
  have rows := Windows.descending_nodup _ _ (store.viewRows_descending now membership perAccount)
  refine (List.perm_ext_iff_of_nodup ?_ (List.nodup_dedup _)).mpr fun thread => ?_
  · refine List.pairwise_filterMap.mpr (List.Pairwise.imp_of_mem ?_ rows)
    intro first second one two different thread held other held' same
    subst same
    exact different (store.row_of_thread now membership perAccount first second one two thread held held')
  · rw [List.mem_filterMap]
    constructor
    · rintro ⟨raw, member, held⟩
      exact (store.mem_conversationsInView now membership thread).mpr
        ⟨raw.2, store.viewRows_shown now membership raw member, held⟩
    · exact store.row_of_conversation now membership perAccount thread

theorem groups_of_conversation (perAccount : store.PerAccount) (thread : ThreadId)
    (there : thread ∈ store.conversationsInView now membership) :
    (store.groups now membership).countP (fun group => group.members.any (fun member => member.2 = thread)) =
      ((store.conversationsInView now membership).filter (fun leader =>
        store.leads now membership leader && (leader = thread || (store.copies now leader).contains thread))).length := by
  rw [← List.countP_eq_length_filter, ← (store.row_threads now membership perAccount).countP_eq]
  unfold groups
  rw [List.countP_filterMap, List.countP_filterMap]
  apply List.countP_congr
  intro raw member
  cases conversation : raw.2.threadId with
  | none =>
    rw [store.groupOf_lone now membership raw conversation]
    simp
  | some own =>
    have leading := store.groupOf_isSome now membership perAccount raw member own conversation
    cases grouped : store.groupOf now membership store.unifiedInboxes raw with
    | none =>
      rw [grouped, Option.isSome_none] at leading
      simp [← leading]
    | some group =>
      rw [grouped, Option.isSome_some] at leading
      have members := store.groupOf_members now membership raw group own conversation grouped thread
      simp only [Option.map_some, Option.getD_some, ← leading, Bool.true_and, List.any_eq_true, decide_eq_true_eq, members,
        Bool.or_eq_true, List.contains_iff_mem, and_iff_left there]
      exact or_congr_left eq_comm

theorem groups_of_lone (perAccount : store.PerAccount) (row : Message) (shown : store.Shown now membership row)
    (alone : row.threadId = none) : (store.groups now membership).countP (fun group => group.row = row) = 1 := by
  have rows := Windows.descending_nodup _ _ (store.viewRows_descending now membership perAccount)
  have listed := store.row_of_lone now membership perAccount row shown alone
  have own : (store.viewRows now membership).count (row.accountId, row) = 1 := List.count_eq_one_of_mem rows listed
  rw [← own, List.count_eq_countP]
  unfold groups
  rw [List.countP_filterMap]
  apply List.countP_congr
  intro raw member
  rw [beq_iff_eq]
  cases grouped : store.groupOf now membership store.unifiedInboxes raw with
  | none =>
    refine iff_of_false Bool.false_ne_true ?_
    rintro rfl
    rw [store.groupOf_lone now membership _ alone] at grouped
    cases grouped
  | some group =>
    rw [Option.map_some, Option.getD_some, decide_eq_true_eq, store.groupOf_row now membership raw group grouped]
    exact ⟨fun same => store.row_eq now membership raw _ member listed same, fun same => congrArg Prod.snd same⟩

theorem folderCount_eq (perAccount : store.PerAccount) (inboxes : List (AccountId × MailboxId))
    (listed : inboxes.Sublist store.unifiedInboxes) :
    store.folderCount now membership (inboxes.map Prod.snd) =
      (inboxes.flatMap (fun inbox => store.folderRows now membership inbox.2)).length := by
  -- A folder's count is the number of its rows, and so is a count of several folders that share no conversation.
  have of_view (row : Message) (held : row ∈ inboxes.flatMap (fun inbox => store.folderRows now membership inbox.2)) :
      ∃ inbox ∈ inboxes, (inbox.1, row) ∈ store.viewRows now membership ∧ row ∈ store.folderRows now membership inbox.2 := by
    obtain ⟨inbox, there, own⟩ := List.mem_flatMap.mp held
    exact ⟨inbox, there, (store.mem_viewRows now membership _).mpr ⟨inbox, listed.subset there, rfl, own⟩, own⟩
  have sublist : (inboxes.flatMap (fun inbox => store.folderRows now membership inbox.2)).Sublist
      (store.unifiedInboxes.flatMap (fun inbox => store.folderRows now membership inbox.2)) := listed.flatMap _
  have distinct := (store.folders_nodup now membership perAccount).sublist sublist
  have apart : ((inboxes.flatMap (fun inbox => store.folderRows now membership inbox.2)).map conversationOf).Nodup := by
    refine List.Nodup.map_on ?_ distinct
    intro first one second two same
    obtain ⟨inbox, -, row, -⟩ := of_view first one
    obtain ⟨inbox', -, row', -⟩ := of_view second two
    unfold conversationOf at same
    cases conversation : first.threadId with
    | none =>
      cases conversation' : second.threadId with
      | none =>
        rw [conversation, conversation'] at same
        exact store.messages.ids_injective first second (store.viewRows_shown now membership _ row).1
          (store.viewRows_shown now membership _ row').1 (Sum.inr.inj same)
      | some other =>
        rw [conversation, conversation'] at same
        cases same
    | some own =>
      cases conversation' : second.threadId with
      | none =>
        rw [conversation, conversation'] at same
        cases same
      | some other =>
        rw [conversation, conversation'] at same
        cases same
        exact congrArg Prod.snd
          (store.row_of_thread now membership perAccount _ _ row row' own conversation conversation')
  unfold folderCount
  rw [← List.length_map (f := conversationOf)]
  apply List.Perm.length_eq
  refine (List.perm_ext_iff_of_nodup (List.nodup_dedup _) apart).mpr fun conversation => ?_
  rw [List.mem_dedup, List.mem_map, List.mem_map]
  constructor
  · rintro ⟨row, held, rfl⟩
    obtain ⟨there, inside⟩ := List.mem_filter.mp held
    unfold inView at inside
    rw [Bool.and_eq_true, List.contains_iff_mem] at inside
    obtain ⟨inbox, among, same⟩ := List.mem_map.mp inside.1
    obtain ⟨rep, drawn, stands, conversation⟩ :=
      store.exists_representative now membership row.mailboxId row there rfl inside.2
    refine ⟨rep, List.mem_flatMap.mpr ⟨inbox, among, same ▸ drawn⟩, ?_⟩
    unfold conversationOf
    rw [conversation]
    cases own : row.threadId with
    | some thread => rfl
    | none =>
      rcases Bool.or_eq_true_iff.mp stands with equal | sliced
      · rw [of_decide_eq_true equal]
      · simp [slice, own] at sliced
  · rintro ⟨rep, held, rfl⟩
    obtain ⟨inbox, there, row, own⟩ := of_view rep held
    obtain ⟨present, inside, shown, -⟩ := (store.mem_folderRows now membership inbox.2 rep).mp own
    refine ⟨rep, List.mem_filter.mpr ⟨present, ?_⟩, rfl⟩
    unfold inView
    rw [Bool.and_eq_true, List.contains_iff_mem, inside]
    exact ⟨List.mem_map_of_mem there, shown⟩

theorem viewRows_length :
    (store.viewRows now membership).length =
      (store.unifiedInboxes.flatMap (fun inbox => store.folderRows now membership inbox.2)).length := by
  rw [← store.rawRows_snd, List.length_map]
  exact List.length_insertionSort _ _

theorem mem_conversationKeys (entry : ThreadId × ThreadCursor) :
    entry ∈ store.conversationKeys now membership store.unifiedInboxes <->
      ∃ row, store.Shown now membership row ∧ row.threadId = some entry.1 ∧ rank row = entry.2 := by
  unfold conversationKeys
  rw [List.mem_flatMap]
  constructor
  · rintro ⟨inbox, listed, held⟩
    obtain ⟨row, own, keyed⟩ := List.mem_filterMap.mp held
    obtain ⟨thread, conversation, rfl⟩ := Option.map_eq_some_iff.mp keyed
    obtain ⟨there, seen⟩ := List.mem_filter.mp ((Windows.mem_sorted rank _ row).mp own)
    rw [Bool.and_eq_true, decide_eq_true_eq] at seen
    exact ⟨row, (store.shown_iff now membership row).mpr ⟨there, seen.1 ▸ List.mem_map_of_mem listed, seen.2⟩, conversation, rfl⟩
  · rintro ⟨row, shown, conversation, same⟩
    obtain ⟨there, inside, seen⟩ := (store.shown_iff now membership row).mp shown
    obtain ⟨inbox, listed, mailbox⟩ := List.mem_map.mp inside
    refine ⟨inbox, listed, List.mem_filterMap.mpr ⟨row, (Windows.mem_sorted rank _ row).mpr (List.mem_filter.mpr ⟨there, ?_⟩), ?_⟩⟩
    · rw [Bool.and_eq_true, decide_eq_true_eq]
      exact ⟨mailbox.symm, seen⟩
    · rw [conversation, same]
      rfl

theorem conversationKeys_ordered (perAccount : store.PerAccount) :
    (store.conversationKeys now membership store.unifiedInboxes).Pairwise
      (fun first second => first.1 = second.1 -> second.2 < first.2) := by
  -- Of a conversation's entries the newest comes first, since they are all of one inbox.
  have inboxes := List.pairwise_map.mp (store.inboxes_distinct perAccount)
  refine List.pairwise_flatMap.mpr ⟨fun inbox listed => ?_, ?_⟩
  · refine List.pairwise_filterMap.mpr ?_
    have distinct : ((store.messages.rows.filter (fun row =>
        row.mailboxId = inbox.2 && store.test now membership row)).map rank).Nodup := by
      refine List.Nodup.map_on ?_ (store.rows_nodup.filter _)
      exact fun first one second two same =>
        store.rank_injective first second (List.mem_of_mem_filter one) (List.mem_of_mem_filter two) same
    refine (Windows.sorted_descending rank _ distinct).imp fun {first second} less => ?_
    intro one keyed two keyed' _
    obtain ⟨_, -, rfl⟩ := Option.map_eq_some_iff.mp keyed
    obtain ⟨_, -, rfl⟩ := Option.map_eq_some_iff.mp keyed'
    exact less
  · refine List.Pairwise.imp_of_mem ?_ inboxes
    intro first second listed listed' different one held two held' same
    exfalso
    have shown (inbox : AccountId × MailboxId) (among : inbox ∈ store.unifiedInboxes) (entry : ThreadId × ThreadCursor)
        (inside : entry ∈ (Windows.sorted rank (store.messages.rows.filter (fun row =>
          row.mailboxId = inbox.2 && store.test now membership row))).filterMap (fun row =>
            row.threadId.map (fun thread => (thread, rank row)))) :
        ∃ row, store.Shown now membership row ∧ row.threadId = some entry.1 ∧ row.mailboxId = inbox.2 := by
      obtain ⟨row, own, keyed⟩ := List.mem_filterMap.mp inside
      obtain ⟨thread, conversation, rfl⟩ := Option.map_eq_some_iff.mp keyed
      obtain ⟨there, seen⟩ := List.mem_filter.mp ((Windows.mem_sorted rank _ row).mp own)
      rw [Bool.and_eq_true, decide_eq_true_eq] at seen
      exact ⟨row, (store.shown_iff now membership row).mpr ⟨there, seen.1 ▸ List.mem_map_of_mem among, seen.2⟩, conversation,
        seen.1⟩
    obtain ⟨row, there, conversation, here⟩ := shown first listed one held
    obtain ⟨other, there', conversation', here'⟩ := shown second listed' two held'
    rw [← same] at conversation'
    have together := store.shown_together now membership perAccount row other there there' one.1 conversation conversation'
    exact different (here.symm.trans (together.trans here'))

theorem conversationKey_eq (perAccount : store.PerAccount) (thread : ThreadId) :
    store.conversationKey now membership store.unifiedInboxes thread =
      store.keyInView now membership store.unifiedInboxes thread := by
  unfold conversationKey
  cases found : (store.conversationKeys now membership store.unifiedInboxes).find? (fun entry => entry.1 = thread) with
  | none =>
    rw [Option.map_none]
    symm
    rw [Option.eq_none_iff_forall_ne_some]
    intro key drawn
    obtain ⟨⟨row, shown, held, same⟩, -⟩ := (store.keyInView_eq_some now membership thread key).mp drawn
    have entry := (store.mem_conversationKeys now membership (thread, key)).mpr ⟨row, shown, held, same⟩
    exact absurd (decide_eq_true rfl) (List.find?_eq_none.mp found _ entry)
  | some entry =>
    rw [Option.map_some]
    symm
    obtain ⟨named, before, later, split, earlier⟩ := List.find?_eq_some_iff_append.mp found
    have named : entry.1 = thread := of_decide_eq_true named
    obtain ⟨row, shown, conversation, same⟩ :=
      (store.mem_conversationKeys now membership entry).mp (List.mem_of_find?_eq_some found)
    refine (store.keyInView_eq_some now membership thread _).mpr ⟨⟨row, shown, named ▸ conversation, same⟩, fun other shown' held => ?_⟩
    have entry' := (store.mem_conversationKeys now membership (thread, rank other)).mpr ⟨other, shown', held, rfl⟩
    have ordered := store.conversationKeys_ordered now membership perAccount
    rw [split] at entry' ordered
    rcases List.mem_append.mp entry' with first | rest
    · have unlike := earlier _ first
      rw [decide_eq_true rfl] at unlike
      cases unlike
    · rcases List.mem_cons.mp rest with itself | late
      · rw [← itself]
      · obtain ⟨-, tail, -⟩ := List.pairwise_append.mp ordered
        exact le_of_lt ((List.pairwise_cons.mp tail).1 _ late named)

theorem absorbedCount_eq (perAccount : store.PerAccount) :
    store.absorbedCount now membership store.unifiedInboxes =
      ((store.conversationsInView now membership).filter (fun thread => !store.leads now membership thread)).length := by
  unfold absorbedCount
  rw [List.filter_filter, ← List.length_map (f := Thread.id)]
  apply List.Perm.length_eq
  have distinct := perAccount.threads.sublist ((List.filter_sublist (p := fun thread : Thread =>
    (store.groupPartners now thread).any (fun partner =>
      (store.conversationKey now membership store.unifiedInboxes partner.id).any (fun key =>
        (store.conversationKey now membership store.unifiedInboxes thread.id).any (fun own => own < key))) &&
      ((store.conversationKeys now membership store.unifiedInboxes).map Prod.fst).contains thread.id)).map Thread.id)
  refine (List.perm_ext_iff_of_nodup distinct ((List.nodup_dedup _).filter _)).mpr fun id => ?_
  have known (held : Thread) (there : held ∈ store.threads) : store.thread held.id = some held := by
    unfold thread
    cases found : store.threads.find? (fun row => row.id = held.id) with
    | none => exact absurd (decide_eq_true rfl) (List.find?_eq_none.mp found held there)
    | some other =>
      have same : other.id = held.id := by simpa using List.find?_some found
      rw [List.inj_on_of_nodup_map perAccount.threads (List.mem_of_find?_eq_some found) there same]
  have inside (id : ThreadId) : ((store.conversationKeys now membership store.unifiedInboxes).map Prod.fst).contains id = true <->
      id ∈ store.conversationsInView now membership := by
    rw [List.contains_iff_mem, List.mem_map, mem_conversationsInView]
    simp only [mem_conversationKeys]
    constructor
    · rintro ⟨entry, ⟨row, shown, conversation, -⟩, rfl⟩
      exact ⟨row, shown, conversation⟩
    · rintro ⟨row, shown, conversation⟩
      exact ⟨(id, rank row), ⟨row, shown, conversation, rfl⟩, rfl⟩
  have folded (held : Thread) (there : held ∈ store.threads) (viewed : held.id ∈ store.conversationsInView now membership) :
      (store.groupPartners now held).any (fun partner =>
        (store.conversationKey now membership store.unifiedInboxes partner.id).any (fun key =>
          (store.conversationKey now membership store.unifiedInboxes held.id).any (fun own => own < key))) =
        !store.leads now membership held.id := by
    obtain ⟨own, drawn⟩ := (store.keyInView_isSome now membership held.id).mpr viewed
    unfold leads copies
    rw [known held there, drawn, Bool.eq_iff_iff, Bool.not_eq_true', ← Bool.not_eq_true, Option.any_some]
    simp only [store.conversationKey_eq now membership perAccount, drawn, Option.toList_some, List.flatMap_singleton,
      List.any_eq_true, List.all_eq_true, List.forall_mem_map, Option.any_eq_true, Option.all_eq_true, Bool.not_eq_true',
      decide_eq_true_eq, decide_eq_false_iff_not, Option.any_some]
    push Not
    rfl
  rw [List.mem_map, List.mem_filter]
  simp only [List.mem_filter, Bool.and_eq_true, inside]
  constructor
  · rintro ⟨held, ⟨there, newer, viewed⟩, rfl⟩
    rw [folded held there viewed] at newer
    exact ⟨viewed, newer⟩
  · rintro ⟨viewed, unled⟩
    obtain ⟨row, shown, conversation⟩ := (store.mem_conversationsInView now membership id).mp viewed
    obtain ⟨held, there, rfl, -⟩ := perAccount.threaded row shown.1 id conversation
    rw [← folded held there viewed] at unled
    exact ⟨held, ⟨there, unled, viewed⟩, rfl⟩

theorem groups_length (perAccount : store.PerAccount) :
    (store.groups now membership).length =
      (store.viewRows now membership).length - store.absorbedCount now membership store.unifiedInboxes := by
  rw [absorbedCount_eq store now membership perAccount, ← List.countP_eq_length_filter,
    ← (store.row_threads now membership perAccount).countP_eq, List.countP_filterMap,
    List.length_eq_countP_add_countP (fun raw => (store.groupOf now membership store.unifiedInboxes raw).isSome)]
  unfold groups
  rw [List.length_filterMap_eq_countP]
  have folded : (store.viewRows now membership).countP (fun raw =>
        decide ¬(store.groupOf now membership store.unifiedInboxes raw).isSome = true) =
      (store.viewRows now membership).countP (fun raw =>
        (raw.2.threadId.map (fun thread => !store.leads now membership thread)).getD false) := by
    apply List.countP_congr
    intro raw member
    cases conversation : raw.2.threadId with
    | none => simp [store.groupOf_lone now membership raw conversation]
    | some own => simp [store.groupOf_isSome now membership perAccount raw member own conversation]
  rw [folded]
  omega

theorem single_inbox (perAccount : store.PerAccount) (single : store.unifiedInboxes.length < 2) (thread copy : ThreadId)
    (viewed : thread ∈ store.conversationsInView now membership) (copied : copy ∈ store.copies now thread) :
    copy ∉ store.conversationsInView now membership := by
  -- With one inbox no conversation has a copy in view.
  intro viewed'
  obtain ⟨row, shown, conversation⟩ := (store.mem_conversationsInView now membership thread).mp viewed
  obtain ⟨other, shown', conversation'⟩ := (store.mem_conversationsInView now membership copy).mp viewed'
  obtain ⟨own, there, named, owner⟩ := perAccount.threaded row shown.1 thread conversation
  obtain ⟨own', there', named', owner'⟩ := perAccount.threaded other shown'.1 copy conversation'
  have same_inbox : (row.accountId, row.mailboxId) = (other.accountId, other.mailboxId) := by
    have one := store.shown_account now membership perAccount row shown
    have two := store.shown_account now membership perAccount other shown'
    obtain ⟨only, equal⟩ : ∃ only, store.unifiedInboxes = [only] := by
      apply List.length_eq_one_iff.mp
      have some_inbox := List.length_pos_of_mem one
      omega
    rw [equal] at one two
    exact (List.mem_singleton.mp one).trans (List.mem_singleton.mp two).symm
  obtain ⟨found, held, same⟩ := List.mem_map.mp copied
  obtain ⟨source, among, partner⟩ := List.mem_flatMap.mp held
  obtain ⟨member, other_account⟩ := List.mem_filter.mp partner
  simp only [Bool.and_eq_true, decide_eq_true_eq] at other_account
  have source_own : source = own := by
    have first := Option.mem_toList.mp among
    have kept := List.mem_of_find?_eq_some first
    have id : source.id = thread := by simpa using List.find?_some first
    exact List.inj_on_of_nodup_map perAccount.threads kept there (id.trans named.symm)
  have found_own : found = own' := List.inj_on_of_nodup_map perAccount.threads member there' (same.trans named'.symm)
  refine other_account.1.1.1 ?_
  rw [source_own, found_own, owner, owner']
  exact (congrArg Prod.fst same_inbox).symm

theorem single_leads (perAccount : store.PerAccount) (single : store.unifiedInboxes.length < 2) (thread : ThreadId)
    (viewed : thread ∈ store.conversationsInView now membership) : store.leads now membership thread = true := by
  obtain ⟨own, drawn⟩ := (store.keyInView_isSome now membership thread).mpr viewed
  unfold leads
  rw [drawn, Option.any_some, List.all_eq_true]
  intro copy copied
  cases found : store.keyInView now membership store.unifiedInboxes copy with
  | none => rfl
  | some key =>
    exact absurd ((store.keyInView_isSome now membership copy).mp ⟨key, found⟩)
      (store.single_inbox now membership perAccount single thread copy viewed copied)

theorem single_absorbed (perAccount : store.PerAccount) (single : store.unifiedInboxes.length < 2) :
    store.absorbedCount now membership store.unifiedInboxes = 0 := by
  rw [absorbedCount_eq store now membership perAccount, List.length_eq_zero_iff, List.filter_eq_nil_iff]
  intro thread viewed
  rw [store.single_leads now membership perAccount single thread viewed]
  exact Bool.false_ne_true

theorem count_eq (perAccount : store.PerAccount) :
    store.count now membership = (store.groups now membership).length % 2 ^ 32 := by
  have whole := store.groups_length now membership perAccount
  rw [viewRows_length, ← store.folderCount_eq now membership perAccount _ (List.Sublist.refl _)] at whole
  have sum : (store.unifiedInboxes.map (fun inbox => store.folderCount now membership [inbox.2])).sum =
      store.folderCount now membership store.inboxIds := by
    rw [store.folderCount_eq now membership perAccount _ (List.Sublist.refl _), List.length_flatMap]
    congr 1
    apply List.map_congr_left
    intro inbox listed
    have one := store.folderCount_eq now membership perAccount [inbox] (List.singleton_sublist.mpr listed)
    rw [List.flatMap_singleton] at one
    exact one
  by_cases single : store.unifiedInboxes.length < 2
  · rw [store.single_absorbed now membership perAccount single, Nat.sub_zero] at whole
    cases membership with
    | folder =>
      unfold count unifiedCount
      dsimp only
      rw [if_pos single, sum, whole]
    | focus =>
      unfold count focusCount
      dsimp only
      split
      next none_listed =>
        rw [List.isEmpty_iff] at none_listed
        rw [whole, none_listed]
        unfold folderCount inView
        simp
      next => rw [whole]
  · cases membership with
    | folder =>
      unfold count unifiedCount
      dsimp only
      rw [if_neg single, sum, whole]
    | focus =>
      unfold count focusCount
      dsimp only
      rw [if_neg, if_neg single, whole]
      rw [List.isEmpty_iff]
      intro none_listed
      rw [none_listed] at single
      exact single (by decide)

/-! ### The pages -/

theorem batchOf_zero_iff (limit : Nat) (fits : limit < 2 ^ 32) : batchOf limit = 0 <-> limit = 2 ^ 31 := by
  unfold batchOf
  omega

theorem viewRows_short (perAccount : store.PerAccount) :
    (store.viewRows now membership).length ≤ store.messages.rows.length := by
  rw [viewRows_length]
  apply List.Subperm.length_le
  apply List.subperm_of_subset (store.folders_nodup now membership perAccount)
  intro row held
  obtain ⟨inbox, -, own⟩ := List.mem_flatMap.mp held
  exact List.mem_of_mem_filter own

theorem groups_short (perAccount : store.PerAccount) :
    (store.groups now membership).length ≤ store.messages.rows.length :=
  le_trans (List.length_filterMap_le _ _) (store.viewRows_short now membership perAccount)

abbrev place (group : ThreadGroup) : ThreadCursor := rank group.row

theorem foldedPage_eq (perAccount : store.PerAccount) (limit : Nat) (fits : limit < 2 ^ 32) (read : limit ≠ 2 ^ 31)
    (cursor : Option ThreadCursor) :
    store.foldedPage now membership store.unifiedInboxes limit cursor =
      Windows.window place (store.groups now membership) (max limit 1) cursor := by
  have some_rows : 0 < batchOf limit := Nat.pos_of_ne_zero fun zero => read ((batchOf_zero_iff limit fits).mp zero)
  unfold foldedPage
  rw [Windows.fill_eq (fun raw => rank raw.2) (store.groupOf now membership store.unifiedInboxes)
    (store.viewRows now membership) (store.viewRows_descending now membership perAccount) (batchOf limit) limit some_rows _
    (store.rawPage_eq now membership perAccount (batchOf limit))]
  · unfold Windows.window groups
    rw [Windows.after_filterMap (fun raw : AccountId × Message => rank raw.2) place _
      (fun raw group grouped => congrArg rank (store.groupOf_row now membership raw group grouped))]
    rfl
  · have short := store.viewRows_short now membership perAccount
    have part : (Windows.after (fun raw => rank raw.2) cursor (store.viewRows now membership)).length ≤
        (store.viewRows now membership).length := List.length_filter_le _ _
    omega
  · rw [List.length_nil]
    omega

theorem foldedPage_stopped (cursor : Option ThreadCursor) :
    store.foldedPage now membership store.unifiedInboxes (2 ^ 31) cursor = [] := by
  have zero : batchOf (2 ^ 31) = 0 := by decide
  unfold foldedPage
  rw [zero]
  unfold Windows.fill rawPage
  rw [List.take_zero]
  rfl

theorem readOn_nothing (nothing : store.pageAt now membership limit offset none = []) :
    store.readOn now membership limit offset = (store.groups now membership).drop offset.toNat <->
      (store.groups now membership).length ≤ offset.toNat := by
  -- Reading nothing on the first page reads the list whole where nothing is left of it there.
  unfold readOn
  rw [nothing]
  unfold Windows.readOn
  rw [List.getLast?_nil, eq_comm]
  exact List.drop_eq_nil_iff

theorem walked_iff (perAccount : store.PerAccount) (few : (store.groups now membership).length < 2 ^ 32)
    (limit offset : UInt32) (some_rows : limit ≠ 0 ∨ offset = 0)
    (first : store.pageAt now membership limit offset none =
      (store.foldedPage now membership store.unifiedInboxes (saturatingAdd limit offset) none).drop offset.toNat)
    (next : ∀ cursor, store.pageAt now membership limit 0 cursor =
      store.foldedPage now membership store.unifiedInboxes limit.toNat cursor) :
    store.readOn now membership limit offset = (store.groups now membership).drop offset.toNat <->
      (store.groups now membership).length ≤ offset.toNat ∨
        saturatingAdd limit offset ≠ 2 ^ 31 ∧
          (limit.toNat = 2 ^ 31 -> (store.groups now membership).length ≤ saturatingAdd limit offset) := by
  -- Where pages are walked to, they make the list unless the windows of one that is needed have no rows.
  have limit_fits := limit.toNat_lt
  have offset_fits := offset.toNat_lt
  have sum : saturatingAdd limit offset = min (limit.toNat + offset.toNat) (2 ^ 32 - 1) := rfl
  have some_rows' : 0 < limit.toNat ∨ offset.toNat = 0 := by
    rcases some_rows with positive | zero
    · left
      exact Nat.pos_of_ne_zero fun zero => positive (UInt32.toNat_inj.mp zero)
    · right
      rw [zero]
      rfl
  by_cases stopped : saturatingAdd limit offset = 2 ^ 31
  · rw [stopped, foldedPage_stopped, List.drop_nil] at first
    rw [store.readOn_nothing now membership limit offset first, stopped]
    simp
  · rw [store.foldedPage_eq now membership perAccount _ (by omega) stopped] at first
    unfold Windows.window at first
    rw [Windows.after_none] at first
    by_cases passed : (store.groups now membership).length ≤ offset.toNat
    · have nothing : store.pageAt now membership limit offset none = [] := by
        rw [first, List.drop_eq_nil_iff, List.length_take]
        omega
      rw [store.readOn_nothing now membership limit offset nothing]
      exact iff_of_true passed (.inl passed)
    · have begun : offset.toNat < max (saturatingAdd limit offset) 1 := by omega
      unfold readOn
      rw [first]
      by_cases ending : limit.toNat = 2 ^ 31
      · have later : ∀ cursor, store.pageAt now membership limit 0 cursor = [] := by
          intro cursor
          rw [next, ending, foldedPage_stopped]
        rw [Windows.readOn_stopped _ _ _ later]
        have taken : max (saturatingAdd limit offset) 1 = saturatingAdd limit offset := by omega
        rw [taken]
        constructor
        · intro same
          refine .inr ⟨stopped, fun _ => ?_⟩
          have lengths := congrArg List.length same
          rw [List.length_drop, List.length_drop, List.length_take] at lengths
          omega
        · rintro (short | ⟨-, short⟩)
          · exact absurd short passed
          · rw [List.take_of_length_le (short ending)]
      · have later : ∀ cursor, store.pageAt now membership limit 0 cursor =
            Windows.window place (store.groups now membership) (max limit.toNat 1) cursor := by
          intro cursor
          rw [next, store.foldedPage_eq now membership perAccount _ limit_fits ending]
        have short := store.groups_short now membership perAccount
        rw [Windows.readOn_eq place _ (store.groups_descending now membership perAccount) _ _ (max limit.toNat 1) (by omega) _
          later _ (by omega) begun (by omega)]
        exact iff_of_true rfl (.inr ⟨stopped, fun same => absurd same ending⟩)

theorem folder_paged_iff (perAccount : store.PerAccount) (few : (store.groups now .folder).length < 2 ^ 32)
    (limit offset : UInt32) :
    store.readOn now .folder limit offset = (store.groups now .folder).drop offset.toNat <->
      (store.groups now .folder).length ≤ offset.toNat ∨
        (limit ≠ 0 ∨ offset = 0) ∧ saturatingAdd limit offset ≠ 2 ^ 31 ∧
          (limit.toNat = 2 ^ 31 -> (store.groups now .folder).length ≤ saturatingAdd limit offset) := by
  have offset_fits := offset.toNat_lt
  have limit_fits := limit.toNat_lt
  have next (cursor : Option ThreadCursor) : store.pageAt now .folder limit 0 cursor =
      store.foldedPage now .folder store.unifiedInboxes limit.toNat cursor := by
    unfold pageAt unifiedPageAt
    exact if_pos rfl
  have first : store.pageAt now .folder limit offset none =
      (store.foldedPage now .folder store.unifiedInboxes (saturatingAdd limit offset) none).drop offset.toNat := by
    by_cases zero : offset = 0
    · subst zero
      have same : saturatingAdd limit 0 = limit.toNat := by
        unfold saturatingAdd
        have none_added : (0 : UInt32).toNat = 0 := rfl
        omega
      rw [next, same]
      rfl
    · unfold pageAt unifiedPageAt
      exact if_neg zero
  by_cases some_rows : limit ≠ 0 ∨ offset = 0
  · rw [store.walked_iff now .folder perAccount few limit offset some_rows first next, and_iff_right some_rows]
  · -- No rows are asked for past the offset.
    obtain ⟨zero, positive⟩ := not_or.mp some_rows
    have zero := not_not.mp zero
    subst zero
    have sum : saturatingAdd 0 offset = offset.toNat := by
      unfold saturatingAdd
      have none_added : (0 : UInt32).toNat = 0 := rfl
      omega
    have nothing : store.pageAt now .folder 0 offset none = [] := by
      rw [first, sum, List.drop_eq_nil_iff]
      by_cases stopped : offset.toNat = 2 ^ 31
      · rw [stopped, foldedPage_stopped]
        exact Nat.zero_le _
      · rw [store.foldedPage_eq now .folder perAccount _ offset_fits stopped]
        unfold Windows.window
        rw [List.length_take]
        have some_offset : 0 < offset.toNat := Nat.pos_of_ne_zero fun none_passed => positive (UInt32.toNat_inj.mp none_passed)
        omega
    rw [store.readOn_nothing now .folder 0 offset nothing]
    exact ⟨fun passed => .inl passed, fun either => either.resolve_right fun read => some_rows read.1⟩

theorem single_groups (perAccount : store.PerAccount) (single : store.unifiedInboxes.length < 2) :
    store.groups now membership = (store.viewRows now membership).map (fun raw =>
      { row := raw.2, members := (raw.2.threadId.map (fun thread => (raw.1, thread))).toList }) := by
  -- With one inbox a row is drawn as it is read.
  unfold groups
  rw [← List.filterMap_eq_map]
  apply List.filterMap_congr
  intro raw member
  have alone : store.partnersInView now membership store.unifiedInboxes raw.2.threadId = [] := by
    cases conversation : raw.2.threadId with
    | none => rfl
    | some own =>
      rw [List.eq_nil_iff_forall_not_mem]
      intro partner there
      obtain ⟨copied, drawn⟩ := store.mem_partnersInView now membership own partner there
      have viewed := (store.mem_conversationsInView now membership own).mpr
        ⟨raw.2, store.viewRows_shown now membership raw member, conversation⟩
      exact store.single_inbox now membership perAccount single own _ viewed copied
        ((store.keyInView_isSome now membership _).mp ⟨_, drawn⟩)
  unfold groupOf
  dsimp only
  rw [alone, List.map_nil, List.append_nil]
  rfl

theorem single_pageAt (perAccount : store.PerAccount) (single : store.unifiedInboxes.length < 2) (limit : UInt32)
    (asked : limit ≠ 0) (offset : UInt32) (cursor : Option ThreadCursor) :
    store.pageAt now .focus limit offset cursor =
      ((Windows.after place cursor (store.groups now .focus)).drop offset.toNat).take limit.toNat := by
  -- A page of Focus's inbox over one inbox.
  have rows : Windows.after place cursor (store.groups now .focus) =
      (Windows.after (fun raw => rank raw.2) cursor (store.viewRows now .focus)).map (fun raw =>
        { row := raw.2, members := (raw.2.threadId.map (fun thread => (raw.1, thread))).toList }) := by
    rw [store.single_groups now .focus perAccount single, ← List.filterMap_eq_map]
    refine Windows.after_filterMap (fun raw : AccountId × Message => rank raw.2) place _ ?_ cursor _
    intro raw group same
    cases same
    rfl
  rw [rows, ← List.map_drop, ← List.map_take]
  unfold pageAt focusPageAt
  dsimp only
  by_cases empty : store.unifiedInboxes.isEmpty = true
  · have none_listed := List.isEmpty_iff.mp empty
    have none_there : store.viewRows now .focus = [] := by
      unfold viewRows rawRows
      rw [none_listed]
      rfl
    rw [if_pos (by rw [empty]; rfl), none_there]
    unfold Windows.after
    rw [List.filter_nil, List.drop_nil, List.take_nil, List.map_nil]
  · rw [if_neg (by rw [Bool.or_eq_true, decide_eq_true_eq]; exact not_or.mpr ⟨empty, asked⟩), if_pos single]
    rfl

theorem several_pageAt (several : ¬ store.unifiedInboxes.length < 2) (limit : UInt32) (asked : limit ≠ 0) (offset : UInt32)
    (cursor : Option ThreadCursor) :
    store.pageAt now .focus limit offset cursor =
      (store.foldedPage now .focus store.unifiedInboxes (saturatingAdd limit offset) cursor).drop offset.toNat := by
  have listed : store.unifiedInboxes.isEmpty = false := by
    rw [← Bool.not_eq_true, List.isEmpty_iff]
    intro none_listed
    rw [none_listed] at several
    exact several (by decide)
  unfold pageAt focusPageAt
  dsimp only
  rw [if_neg (by rw [listed, Bool.false_or, decide_eq_true_eq]; exact asked), if_neg several]

theorem focus_paged_iff (perAccount : store.PerAccount) (few : (store.groups now .focus).length < 2 ^ 32)
    (limit offset : UInt32) :
    store.readOn now .focus limit offset = (store.groups now .focus).drop offset.toNat <->
      (store.groups now .focus).length ≤ offset.toNat ∨
        limit ≠ 0 ∧ (store.unifiedInboxes.length < 2 ∨ saturatingAdd limit offset ≠ 2 ^ 31 ∧
          (limit.toNat = 2 ^ 31 -> (store.groups now .focus).length ≤ saturatingAdd limit offset)) := by
  by_cases zero : limit = 0
  · have nothing : store.pageAt now .focus limit offset none = [] := by
      unfold pageAt focusPageAt
      dsimp only
      rw [if_pos]
      rw [zero]
      exact Bool.or_true _
    rw [store.readOn_nothing now .focus limit offset nothing]
    exact ⟨fun passed => .inl passed, fun either => either.resolve_right fun read => read.1 zero⟩
  · by_cases single : store.unifiedInboxes.length < 2
    · have page := store.single_pageAt now perAccount single limit zero
      have positive : 0 < limit.toNat := Nat.pos_of_ne_zero fun none_asked => zero (UInt32.toNat_inj.mp none_asked)
      by_cases passed : (store.groups now .focus).length ≤ offset.toNat
      · have nothing : store.pageAt now .focus limit offset none = [] := by
          rw [page, Windows.after_none, List.drop_of_length_le passed, List.take_nil]
        rw [store.readOn_nothing now .focus limit offset nothing]
        exact iff_of_true passed (.inl passed)
      · have later (cursor : Option ThreadCursor) : store.pageAt now .focus limit 0 cursor =
            Windows.window place (store.groups now .focus) limit.toNat cursor := page 0 cursor
        have short := store.groups_short now .focus perAccount
        unfold readOn
        rw [page, Windows.after_none, List.take_drop]
        rw [Windows.readOn_eq place _ (store.groups_descending now .focus perAccount) _ _ limit.toNat positive _ later _
          (by omega) (by omega) (by omega)]
        exact iff_of_true rfl (.inr ⟨zero, .inl single⟩)
    · have page := store.several_pageAt now single limit zero
      have next (cursor : Option ThreadCursor) : store.pageAt now .focus limit 0 cursor =
          store.foldedPage now .focus store.unifiedInboxes limit.toNat cursor := by
        have same : saturatingAdd limit 0 = limit.toNat := by
          unfold saturatingAdd
          have none_added : (0 : UInt32).toNat = 0 := rfl
          have limit_fits := limit.toNat_lt
          omega
        rw [page, same]
        rfl
      rw [store.walked_iff now .focus perAccount few limit offset (.inl zero) (page offset none) next, and_iff_right zero,
        or_iff_right single]

/-- The list is a partition of what is in view exactly where every conversation there is drawn once, for the pages that
have rows. -/
theorem whole_iff (perAccount : store.PerAccount) (limit offset : UInt32) :
    store.Whole now membership limit offset <-> store.DrawnOnce now membership ∧ store.Fits now membership limit offset := by
  have counted : store.count now membership = (store.groups now membership).length <->
      (store.groups now membership).length < 2 ^ 32 := by
    rw [store.count_eq now membership perAccount]
    constructor
    · intro same
      rw [← same]
      exact Nat.mod_lt _ (by decide)
    · exact Nat.mod_eq_of_lt
  have paged (few : (store.groups now membership).length < 2 ^ 32) :
      store.readOn now membership limit offset = (store.groups now membership).drop offset.toNat <->
        store.Fits now membership limit offset := by
    cases membership with
    | folder => exact (store.folder_paged_iff now perAccount few limit offset).trans (and_iff_right few).symm
    | focus => exact (store.focus_paged_iff now perAccount few limit offset).trans (and_iff_right few).symm
  constructor
  · intro whole
    refine ⟨fun thread there => ?_, (paged (counted.mp whole.counted)).mp whole.paged⟩
    rw [← store.groups_of_conversation now membership perAccount thread there]
    exact whole.conversations thread there
  · rintro ⟨once, fits⟩
    exact
      { conversations := by
          intro thread there
          rw [store.groups_of_conversation now membership perAccount thread there]
          exact once thread there
        lone := store.groups_of_lone now membership perAccount
        placed := store.groups_placed now membership perAccount
        ordered := store.groups_descending now membership perAccount
        paged := (paged fits.1).mpr fits
        counted := counted.mpr fits.1 }

end groups

end MailStore

/-! ### A digest that reaches three addresses -/

def digest (number : Nat) (day : Int) : Message where
  id := ⟨number⟩
  accountId := ⟨number⟩
  mailboxId := ⟨number⟩
  threadId := some ⟨number⟩
  rfcMessageId := none
  source := []
  flags := ∅
  labels := ∅
  receivedAt := day * 86400000
  sortAt := day * 86400000
  deletedLocally := false
  snoozedUntil := none
  sendState := none
  remoteId := none

def digestThread (number : Nat) (day : Int) : Thread where
  id := ⟨number⟩
  accountId := ⟨number⟩
  subject := some ['n', 'e', 'w', 's']
  messageCount := 1
  lastAt := day * 86400000

/-- One digest in each of three accounts' inboxes, six days apart. -/
def weeklyDigests : MailStore where
  messages :=
    { rows := [digest 1 1, digest 2 7, digest 3 13]
      nextId := 4
      ordered := by decide
      issued := by decide }
  mailboxes :=
    [{ id := ⟨1⟩, accountId := ⟨1⟩, role := .inbox, path := ['a'], selectable := true },
      { id := ⟨2⟩, accountId := ⟨2⟩, role := .inbox, path := ['a'], selectable := true },
      { id := ⟨3⟩, accountId := ⟨3⟩, role := .inbox, path := ['a'], selectable := true }]
  accounts :=
    [{ id := ⟨1⟩, enabled := true, pendingDeletion := false },
      { id := ⟨2⟩, enabled := true, pendingDeletion := false },
      { id := ⟨3⟩, enabled := true, pendingDeletion := false }]
  threads := [digestThread 1 1, digestThread 2 7, digestThread 3 13]
  labels := []
  sagas := []
  nextSaga := 1
  decisions := []
  holds := []
  deliveries := []
  reminders := []
  arrivals := []
  never := []
  queue := .empty
  mailboxesDistinct := by decide

theorem weeklyDigests_perAccount : weeklyDigests.PerAccount where
  accounts := by decide
  threads := by decide
  filed := by
    have kept : ∀ row ∈ weeklyDigests.messages.rows,
        (weeklyDigests.mailbox row.mailboxId).map Mailbox.accountId = some row.accountId := by decide
    exact kept
  threaded := by
    intro row there thread held
    have kept : ∀ row ∈ weeklyDigests.messages.rows, ∀ thread ∈ row.threadId,
        ∃ held ∈ weeklyDigests.threads, held.id = thread ∧ held.accountId = row.accountId := by decide
    exact kept row there thread held

theorem weeklyDigests_whole_iff :
    weeklyDigests.Whole 0 .folder 50 0 <-> weeklyDigests.DrawnOnce 0 .folder ∧ weeklyDigests.Fits 0 .folder 50 0 :=
  weeklyDigests.whole_iff 0 .folder weeklyDigests_perAccount 50 0

/-- The first is the second's row, and the second is the third's, which the first is no copy of: it is in no row. -/
theorem oldest_digest_unlisted : ¬ weeklyDigests.Whole 0 .folder 50 0 := by
  intro whole
  have drawn := whole.conversations ⟨1⟩ (by decide)
  revert drawn
  decide

end Postio

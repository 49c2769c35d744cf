import Mathlib.Data.List.MinMax
import Postio.Session.Listed
import Postio.Store.Owned

set_option autoImplicit false

namespace Postio

namespace MailStore

/-- What the schema keeps: one row for each id, each message in a folder and a conversation of its own account. -/
structure PerAccount (store : MailStore) : Prop where
  accounts : (store.accounts.map Account.id).Nodup
  threads : (store.threads.map Thread.id).Nodup
  filed : ∀ row ∈ store.messages.rows, store.Owns row.accountId row.mailboxId
  threaded : ∀ row ∈ store.messages.rows, ∀ thread, row.threadId = some thread ->
    ∃ held ∈ store.threads, held.id = thread ∧ held.accountId = row.accountId

/-! ### The inboxes -/

variable (store : MailStore)

theorem mem_unifiedInboxes (inbox : AccountId × MailboxId) (listed : inbox ∈ store.unifiedInboxes) :
    ∃ folder ∈ store.mailboxes, folder.id = inbox.2 ∧ folder.accountId = inbox.1 ∧
      store.byRole inbox.1 .inbox = some folder := by
  obtain ⟨account, -, found⟩ := List.mem_filterMap.mp listed
  obtain ⟨folder, first, rfl⟩ := Option.map_eq_some_iff.mp found
  obtain ⟨there, owner, -, -⟩ := store.byRole_spec account.id .inbox folder first
  exact ⟨folder, there, rfl, owner, first⟩

theorem inbox_of_account (first second : AccountId × MailboxId) (one : first ∈ store.unifiedInboxes)
    (two : second ∈ store.unifiedInboxes) (same : first.1 = second.1) : first = second := by
  obtain ⟨folder, -, named, -, found⟩ := store.mem_unifiedInboxes first one
  obtain ⟨other, -, named', -, found'⟩ := store.mem_unifiedInboxes second two
  rw [same, found'] at found
  cases found
  exact Prod.ext same (named.symm.trans named')

theorem inbox_of_mailbox (first second : AccountId × MailboxId) (one : first ∈ store.unifiedInboxes)
    (two : second ∈ store.unifiedInboxes) (same : first.2 = second.2) : first = second := by
  obtain ⟨folder, there, named, owner, -⟩ := store.mem_unifiedInboxes first one
  obtain ⟨other, there', named', owner', -⟩ := store.mem_unifiedInboxes second two
  have equal : folder = other :=
    List.inj_on_of_nodup_map store.mailboxesDistinct there there' (named.trans (same.trans named'.symm))
  subst equal
  exact Prod.ext (owner.symm.trans owner') same

theorem inboxes_distinct (perAccount : store.PerAccount) : (store.unifiedInboxes.map Prod.snd).Nodup:= by
  have accounts : (store.unifiedInboxes.map Prod.fst).Nodup := by
    have sublist : (store.unifiedInboxes.map Prod.fst).Sublist (store.accounts.map Account.id) := by
      unfold unifiedInboxes
      induction store.accounts with
      | nil => exact List.Sublist.refl _
      | cons account rest ih =>
        rw [List.filter_cons]
        split
        next =>
          rw [List.filterMap_cons]
          cases store.byRole account.id .inbox with
          | none => exact ih.cons _
          | some inbox => exact ih.cons_cons _
        next => exact ih.cons _
    exact perAccount.accounts.sublist sublist
  exact List.Nodup.map_on (fun first one second two same => store.inbox_of_mailbox first second one two same) accounts.of_map

section view

variable (store : MailStore) (now : Instant) (membership : Membership)

abbrev inboxIds : List MailboxId := store.unifiedInboxes.map Prod.snd

/-- A message of an inbox, in view there. -/
abbrev Shown (row : Message) : Prop :=
  row ∈ store.messages.rows ∧ store.inView now membership store.inboxIds row = true

theorem shown_iff (row : Message) :
    store.Shown now membership row <->
      row ∈ store.messages.rows ∧ row.mailboxId ∈ store.inboxIds ∧ store.test now membership row = true := by
  unfold Shown inView
  rw [Bool.and_eq_true, List.contains_iff_mem]

theorem shown_account (perAccount : store.PerAccount) (row : Message) (shown : store.Shown now membership row) :
    (row.accountId, row.mailboxId) ∈ store.unifiedInboxes := by
  obtain ⟨there, listed, -⟩ := (store.shown_iff now membership row).mp shown
  obtain ⟨inbox, member, same⟩ := List.mem_map.mp listed
  obtain ⟨folder, held, named, owner, -⟩ := store.mem_unifiedInboxes inbox member
  have owned := perAccount.filed row there
  unfold Owns at owned
  rw [← same, ← named, store.mailbox_of_mem folder held, Option.map_some, Option.some.injEq, owner] at owned
  rw [← owned, ← same]
  exact member

theorem shown_together (perAccount : store.PerAccount) (first second : Message) (one : store.Shown now membership first)
    (two : store.Shown now membership second) (thread : ThreadId) (held : first.threadId = some thread)
    (held' : second.threadId = some thread) : first.mailboxId = second.mailboxId := by
  -- A conversation is in one inbox.
  obtain ⟨own, among, named, owner⟩ := perAccount.threaded first one.1 thread held
  obtain ⟨own', among', named', owner'⟩ := perAccount.threaded second two.1 thread held'
  have equal : own = own' := List.inj_on_of_nodup_map perAccount.threads among among' (named.trans named'.symm)
  subst equal
  exact congrArg Prod.snd (store.inbox_of_account _ _ (store.shown_account now membership perAccount first one)
    (store.shown_account now membership perAccount second two) (owner.symm.trans owner'))

/-! ### The rows of the inboxes, newest first -/

theorem rank_injective (first second : Message) (one : first ∈ store.messages.rows) (two : second ∈ store.messages.rows)
    (same : rank first = rank second) : first = second := by
  unfold rank at same
  have ids : first.id.get = second.id.get := (Prod.mk.inj (toLex.injective same)).2
  apply store.messages.ids_injective first second one two
  exact MessageId.get_injective ids

theorem rows_nodup : store.messages.rows.Nodup :=
  store.messages.ordered.imp fun less => ne_of_apply_ne (fun row : Message => row.id.get) (Nat.ne_of_lt less)

abbrev rawRows : List (AccountId × Message) :=
  store.unifiedInboxes.flatMap (fun inbox => (store.folderRows now membership inbox.2).map (fun row => (inbox.1, row)))

def viewRows : List (AccountId × Message) := Windows.sorted (fun raw => rank raw.2) (store.rawRows now membership)

theorem mem_folderRows (mailbox : MailboxId) (row : Message) :
    row ∈ store.folderRows now membership mailbox <->
      row ∈ store.messages.rows ∧ row.mailboxId = mailbox ∧ store.test now membership row = true ∧
        ∀ newer ∈ store.messages.rows, newer.mailboxId = mailbox -> store.test now membership newer = true ->
          newer.threadId.isSome = true -> newer.threadId = row.threadId -> ¬ rank row < rank newer := by
  unfold folderRows representative
  rw [List.mem_filter]
  simp only [Bool.and_eq_true, decide_eq_true_eq, Bool.not_eq_true', List.any_eq_false, outranks_iff, and_assoc]
  constructor
  · rintro ⟨there, inside, shown, first⟩
    exact ⟨there, inside, shown, fun newer held here seen some_thread same less =>
      first newer held ⟨here, seen, some_thread, same, less⟩⟩
  · rintro ⟨there, inside, shown, first⟩
    refine ⟨there, inside, shown, fun newer held => ?_⟩
    rintro ⟨here, seen, some_thread, same, less⟩
    exact first newer held here seen some_thread same less

variable (raw : AccountId × Message) (thread : ThreadId)

theorem mem_viewRows :
    raw ∈ store.viewRows now membership <->
      ∃ inbox ∈ store.unifiedInboxes, raw.1 = inbox.1 ∧ raw.2 ∈ store.folderRows now membership inbox.2 := by
  unfold viewRows
  rw [Windows.mem_sorted, List.mem_flatMap]
  simp only [List.mem_map]
  constructor
  · rintro ⟨inbox, listed, row, held, rfl⟩
    exact ⟨inbox, listed, rfl, held⟩
  · rintro ⟨inbox, listed, same, held⟩
    exact ⟨inbox, listed, raw.2, held, Prod.ext same.symm rfl⟩

theorem viewRows_shown (member : raw ∈ store.viewRows now membership) :
    store.Shown now membership raw.2 := by
  obtain ⟨inbox, listed, -, held⟩ := (store.mem_viewRows now membership raw).mp member
  obtain ⟨there, inside, shown, -⟩ := (store.mem_folderRows now membership inbox.2 raw.2).mp held
  exact (store.shown_iff now membership raw.2).mpr ⟨there, inside ▸ List.mem_map_of_mem listed, shown⟩

theorem folders_nodup (perAccount : store.PerAccount) :
    (store.unifiedInboxes.flatMap (fun inbox => store.folderRows now membership inbox.2)).Nodup := by
  have apart := List.pairwise_map.mp (store.inboxes_distinct perAccount)
  refine List.nodup_flatMap.mpr ⟨fun inbox _ => store.rows_nodup.filter _, apart.imp ?_⟩
  intro first second different row one two
  have here := ((store.mem_folderRows now membership first.2 row).mp one).2.1
  have there := ((store.mem_folderRows now membership second.2 row).mp two).2.1
  exact different (here.symm.trans there)

theorem rawRows_snd : (store.rawRows now membership).map Prod.snd =
    store.unifiedInboxes.flatMap (fun inbox => store.folderRows now membership inbox.2) := by
  rw [List.map_flatMap]
  apply List.flatMap_congr
  intro inbox _
  rw [List.map_map]
  exact List.map_id _

theorem rawRows_distinct (perAccount : store.PerAccount) :
    ((store.rawRows now membership).map (fun raw => rank raw.2)).Nodup := by
  have whole : (store.rawRows now membership).map (fun raw => rank raw.2) =
      ((store.rawRows now membership).map Prod.snd).map rank := by
    rw [List.map_map]
    rfl
  rw [whole, rawRows_snd]
  refine List.Nodup.map_on ?_ (store.folders_nodup now membership perAccount)
  intro first one second two same
  obtain ⟨inbox, -, held⟩ := List.mem_flatMap.mp one
  obtain ⟨inbox', -, held'⟩ := List.mem_flatMap.mp two
  exact store.rank_injective first second (List.mem_of_mem_filter held) (List.mem_of_mem_filter held') same

theorem viewRows_descending (perAccount : store.PerAccount) :
    Windows.Descending (fun raw : AccountId × Message => rank raw.2) (store.viewRows now membership) :=
  Windows.sorted_descending _ _ (store.rawRows_distinct now membership perAccount)

theorem rawPage_eq (perAccount : store.PerAccount) (limit : Nat) (cursor : Option ThreadCursor) :
    store.rawPage now membership store.unifiedInboxes limit cursor =
      Windows.window (fun raw => rank raw.2) (store.viewRows now membership) limit cursor := by
  -- A raw window of the inboxes is the window of their rows.
  let sources : List (List (AccountId × Message)) := store.unifiedInboxes.map (fun inbox =>
    (Windows.sorted rank (store.folderRows now membership inbox.2)).map (fun row => (inbox.1, row)))
  have folder_distinct (mailbox : MailboxId) : ((store.folderRows now membership mailbox).map rank).Nodup := by
    refine List.Nodup.map_on ?_ (store.rows_nodup.filter _)
    exact fun first one second two same =>
      store.rank_injective first second (List.mem_of_mem_filter one) (List.mem_of_mem_filter two) same
  have listed : ∀ source ∈ sources, Windows.Descending (fun raw : AccountId × Message => rank raw.2) source := by
    intro source member
    obtain ⟨inbox, -, rfl⟩ := List.mem_map.mp member
    exact List.pairwise_map.mpr (Windows.sorted_descending rank _ (folder_distinct inbox.2))
  have permuted : sources.flatten.Perm (store.rawRows now membership) := by
    unfold rawRows
    rw [← List.flatMap_def]
    exact List.Perm.flatMap_left _ fun inbox _ => (List.perm_insertionSort _ _).map _
  have distinct : (sources.flatten.map (fun raw => rank raw.2)).Nodup :=
    ((permuted.map _).nodup_iff).mpr (store.rawRows_distinct now membership perAccount)
  have same : Windows.sorted (fun raw => rank raw.2) sources.flatten = store.viewRows now membership := by
    refine Windows.descending_unique (fun raw : AccountId × Message => rank raw.2) _ _
      (Windows.sorted_descending _ _ distinct) (store.viewRows_descending now membership perAccount) fun raw => ?_
    unfold viewRows
    rw [Windows.mem_sorted, Windows.mem_sorted]
    exact permuted.mem_iff
  rw [← same, ← Windows.merge_windows (fun raw => rank raw.2) sources listed distinct]
  unfold rawPage folderPage
  rw [List.flatMap_map]
  congr 3
  funext inbox
  unfold Windows.window Windows.after
  rw [List.filter_map, List.map_take]
  rfl

/-! ### The conversations in view -/

def conversationsInView : List ThreadId :=
  ((store.messages.rows.filter (store.inView now membership store.inboxIds)).filterMap Message.threadId).dedup

theorem mem_conversationsInView :
    thread ∈ store.conversationsInView now membership <->
      ∃ row, store.Shown now membership row ∧ row.threadId = some thread := by
  unfold conversationsInView
  rw [List.mem_dedup, List.mem_filterMap]
  simp only [List.mem_filter]

theorem keyInView_eq_some (key : ThreadCursor) :
    store.keyInView now membership store.unifiedInboxes thread = some key <->
      (∃ row, store.Shown now membership row ∧ row.threadId = some thread ∧ rank row = key) ∧
        ∀ row, store.Shown now membership row -> row.threadId = some thread -> rank row ≤ key := by
  unfold keyInView
  rw [List.max?_eq_some_iff]
  simp only [List.mem_map, List.mem_filter, Bool.and_eq_true, decide_eq_true_eq]
  constructor
  · rintro ⟨⟨row, ⟨there, held, shown⟩, same⟩, newest⟩
    exact ⟨⟨row, ⟨there, shown⟩, held, same⟩, fun other shown' held' => newest _ ⟨other, ⟨shown'.1, held', shown'.2⟩, rfl⟩⟩
  · rintro ⟨⟨row, shown, held, same⟩, newest⟩
    refine ⟨⟨row, ⟨shown.1, held, shown.2⟩, same⟩, ?_⟩
    rintro _ ⟨other, ⟨there, held', shown'⟩, rfl⟩
    exact newest other ⟨there, shown'⟩ held'

theorem keyInView_isSome : (∃ key, store.keyInView now membership store.unifiedInboxes thread = some key) <->
      thread ∈ store.conversationsInView now membership := by
  rw [mem_conversationsInView]
  constructor
  · rintro ⟨key, found⟩
    obtain ⟨⟨row, shown, held, -⟩, -⟩ := (store.keyInView_eq_some now membership thread key).mp found
    exact ⟨row, shown, held⟩
  · rintro ⟨row, shown, held⟩
    refine Option.isSome_iff_exists.mp ?_
    unfold keyInView
    rw [List.isSome_max?_iff]
    refine List.ne_nil_of_mem (List.mem_map_of_mem (f := rank) (List.mem_filter.mpr ⟨shown.1, ?_⟩) : rank row ∈ _)
    rw [Bool.and_eq_true, decide_eq_true_eq]
    exact ⟨held, shown.2⟩

theorem row_of_conversation (perAccount : store.PerAccount) (thread : ThreadId)
    (there : thread ∈ store.conversationsInView now membership) :
    ∃ raw ∈ store.viewRows now membership, raw.2.threadId = some thread := by
  -- A conversation in view has a row.
  obtain ⟨row, shown, held⟩ := (store.mem_conversationsInView now membership thread).mp there
  obtain ⟨present, -, seen⟩ := (store.shown_iff now membership row).mp shown
  obtain ⟨rep, listed, -, same⟩ := store.exists_representative now membership row.mailboxId row present rfl seen
  refine ⟨(row.accountId, rep), (store.mem_viewRows now membership _).mpr ?_, same.trans held⟩
  exact ⟨_, store.shown_account now membership perAccount row shown, rfl, listed⟩

theorem row_key (perAccount : store.PerAccount) (raw : AccountId × Message) (member : raw ∈ store.viewRows now membership)
    (thread : ThreadId) (held : raw.2.threadId = some thread) :
    store.keyInView now membership store.unifiedInboxes thread = some (rank raw.2) := by
  -- A row stands at its conversation's newest message in view.
  have shown := store.viewRows_shown now membership raw member
  refine (store.keyInView_eq_some now membership thread _).mpr ⟨⟨raw.2, shown, held, rfl⟩, fun other shown' held' => ?_⟩
  obtain ⟨inbox, -, -, listed⟩ := (store.mem_viewRows now membership raw).mp member
  obtain ⟨-, inside, -, newest⟩ := (store.mem_folderRows now membership inbox.2 raw.2).mp listed
  have together := store.shown_together now membership perAccount other raw.2 shown' shown thread held' held
  obtain ⟨there, -, seen⟩ := (store.shown_iff now membership other).mp shown'
  refine not_lt.mp (newest other there (together.trans inside) seen ?_ (held'.trans held.symm))
  rw [held']
  rfl

theorem row_eq (other : AccountId × Message) (one : raw ∈ store.viewRows now membership)
    (two : other ∈ store.viewRows now membership) (same : raw.2 = other.2) : raw = other := by
  obtain ⟨inbox, listed, account, held⟩ := (store.mem_viewRows now membership raw).mp one
  obtain ⟨inbox', listed', account', held'⟩ := (store.mem_viewRows now membership other).mp two
  have here := ((store.mem_folderRows now membership inbox.2 raw.2).mp held).2.1
  have there := ((store.mem_folderRows now membership inbox'.2 other.2).mp held').2.1
  have equal := store.inbox_of_mailbox inbox inbox' listed listed' (here.symm.trans (same ▸ there))
  refine Prod.ext ?_ same
  rw [account, account', equal]

theorem row_of_thread (perAccount : store.PerAccount) (raw other : AccountId × Message)
    (one : raw ∈ store.viewRows now membership) (two : other ∈ store.viewRows now membership) (thread : ThreadId)
    (held : raw.2.threadId = some thread) (held' : other.2.threadId = some thread) : raw = other := by
  have first := store.row_key now membership perAccount raw one thread held
  have second := store.row_key now membership perAccount other two thread held'
  refine store.row_eq now membership raw other one two (store.rank_injective _ _ ?_ ?_ (Option.some.inj (first.symm.trans second)))
  · exact (store.viewRows_shown now membership raw one).1
  · exact (store.viewRows_shown now membership other two).1

theorem row_of_lone (perAccount : store.PerAccount) (row : Message) (shown : store.Shown now membership row)
    (alone : row.threadId = none) : (row.accountId, row) ∈ store.viewRows now membership := by
  -- A message in no conversation is a row.
  obtain ⟨there, -, seen⟩ := (store.shown_iff now membership row).mp shown
  refine (store.mem_viewRows now membership _).mpr ⟨_, store.shown_account now membership perAccount row shown, rfl, ?_⟩
  refine (store.mem_folderRows now membership row.mailboxId row).mpr ⟨there, rfl, seen, ?_⟩
  intro newer _ _ _ some_thread same
  rw [same, alone] at some_thread
  cases some_thread

end view

end MailStore

end Postio

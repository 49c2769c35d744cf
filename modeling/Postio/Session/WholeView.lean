import Postio.Session.Undo
import Postio.Session.Listed

set_option autoImplicit false

namespace Postio

def names (store : MailStore) (now : Instant) : Except CommandError Aim -> Message -> Bool
  | .ok (.bulk units), row => units.any (fun bulk => store.predicate now bulk.set row)
  | .ok (.rows rows), row => rows.contains row
  | .error _, _ => false

namespace MailStore

variable (store : MailStore) (now : Instant) (accounts : List AccountId) (mailbox : MailboxId)
    (membership : Membership) (excepted : List MessageId) (inboxes : List MailboxId) (row : Message)

def represented :
    Bool :=
  row.threadId.all (fun own => (store.foldedRows now membership inboxes).any (fun rep =>
    rep.threadId.any (fun thread => own = thread || (store.copies now thread).contains own)))

def copied (id : MessageId) (row : Message) : Bool :=
  (store.messages.get id).any (fun other => other.threadId.any (fun thread =>
    row.threadId.any (fun own => (store.copies now thread).contains own)))

def reaches : Bool :=
  accounts.any (fun account => (store.byRole account .inbox).any (fun inbox => inbox.id = mailbox))

/-- What a view must hold for the predicates over it to name what it lists. -/
def AsListed : ViewScope -> List MessageId -> Prop
  -- Nothing asleep; in Drafts nothing on its way, and no draft in the conversation of another that was deselected.
  | .mailbox mailbox, excepted => ∀ folder ∈ store.mailbox mailbox, ∀ row ∈ store.messages.rows,
      row.mailboxId = mailbox -> row.deletedLocally = false ->
        (store.withoutConversations excepted row = true ->
          visible now row = true ∧ (folder.role = .drafts -> outgoing row = false)) ∧
        (folder.role = .drafts -> outgoing row = false -> visible now row = true -> excepted.contains row.id = false ->
          store.withoutConversations excepted row = true)
  -- Nothing asleep.
  | .flagged account, excepted => ∀ row ∈ store.messages.rows,
      row.accountId = account -> .flagged ∈ row.flags -> row.deletedLocally = false ->
        excepted.contains row.id = false -> visible now row = true
  -- Nothing asleep or in a copy of a deselected conversation, no account gone off, and no conversation without a row.
  | .unified accounts, excepted => ∀ row ∈ store.messages.rows, store.reaches accounts row.mailboxId = true ->
      row.deletedLocally = false -> store.withoutConversations excepted row = true ->
        (store.inboxesOf accounts).contains row.mailboxId = true ∧ visible now row = true ∧
          store.represented now .folder (store.inboxesOf accounts) row = true ∧
          ∀ id ∈ excepted, store.copied now id row = false
  -- No account gone off, and no conversation without a row.
  | .focus accounts, excepted => ∀ row ∈ store.messages.rows, store.reaches accounts row.mailboxId = true ->
      store.test now .focus row = true ->
        (∀ id ∈ excepted, store.deselected now (.focus accounts) id row = false) ->
        (store.inboxesOf accounts).contains row.mailboxId = true ∧
          store.represented now .focus (store.inboxesOf accounts) row = true

/-! ### What the predicates name -/

theorem withoutConversations_iff :
    store.withoutConversations excepted row = true <-> ∀ id ∈ excepted, row.id ≠ id ∧
      ¬ (row.threadId.isSome = true ∧ (store.messages.get id).any (fun other => other.threadId = row.threadId) = true) := by
  simp only [withoutConversations, Bool.and_eq_true, Bool.not_eq_true', Bool.and_eq_false_iff, List.any_eq_false,
    decide_eq_true_eq, not_and, List.contains_eq_mem, decide_eq_false_iff_not]
  constructor
  · rintro ⟨apart, conversations⟩ id member
    refine ⟨fun same => apart (same ▸ member), fun threaded same => ?_⟩
    obtain ⟨other, found, conversation⟩ := (Option.any_eq_true _ _).mp same
    obtain ⟨there, named⟩ := (store.messages.get_eq_some id other).mp found
    rcases conversations with alone | others
    · rw [alone] at threaded
      cases threaded
    · exact others other there (by rwa [named]) (of_decide_eq_true conversation)
  · intro each
    refine ⟨fun member => (each row.id member).1 rfl, ?_⟩
    by_cases threaded : row.threadId.isSome = true
    · right
      intro other there member conversation
      apply (each other.id member).2 threaded
      rw [(store.messages.get_eq_some other.id other).mpr ⟨there, rfl⟩]
      simpa using conversation
    · left
      simpa using threaded

theorem inboxUnits_any (set : MailboxId -> MessageSet) (named : MessageSet -> Bool) :
    (inboxUnits store accounts set).any (fun bulk => named bulk.set) = true <->
      ∃ account ∈ accounts, ∃ inbox, store.byRole account .inbox = some inbox ∧ named (set inbox.id) = true := by
  simp only [List.any_eq_true, inboxUnits, List.mem_filterMap, Option.map_eq_some_iff]
  constructor
  · rintro ⟨bulk, ⟨account, member, inbox, found, rfl⟩, names⟩
    exact ⟨account, member, inbox, found, names⟩
  · rintro ⟨account, member, inbox, found, names⟩
    exact ⟨_, ⟨account, member, inbox, found, rfl⟩, names⟩

theorem reaches_iff :
    store.reaches accounts mailbox = true <->
      ∃ account ∈ accounts, ∃ inbox, store.byRole account .inbox = some inbox ∧ inbox.id = mailbox := by
  simp [reaches, List.any_eq_true, Option.any_eq_true]

theorem inboxesOf_reached (shown : (store.inboxesOf accounts).contains mailbox = true) : store.reaches accounts mailbox = true := by
  rw [List.contains_iff_mem] at shown
  obtain ⟨entry, member, rfl⟩ := List.mem_map.mp shown
  obtain ⟨inside, chosen⟩ := List.mem_filter.mp member
  obtain ⟨account, -, found⟩ := List.mem_filterMap.mp inside
  obtain ⟨inbox, first, rfl⟩ := Option.map_eq_some_iff.mp found
  exact (store.reaches_iff accounts inbox.id).mpr ⟨account.id, List.contains_iff_mem.mp chosen, inbox, first, rfl⟩

/-! ### What the lists hold -/

theorem mem_foldedRows (rep : Message) : rep ∈ store.foldedRows now membership inboxes <->
      (∃ inbox ∈ inboxes, rep ∈ store.folderRows now membership inbox) ∧
        store.absorbed now membership inboxes rep = false := by
  simp [foldedRows, List.mem_filter]

theorem listed_folded (there : row ∈ store.messages.rows) :
    (store.foldedRows now membership inboxes).any (fun rep => store.folded now membership inboxes rep row) = true <->
      inboxes.contains row.mailboxId = true ∧ store.test now membership row = true ∧
        store.represented now membership inboxes row = true := by
  -- A list over several inboxes stands for what is in view, as far as some row is drawn for it.
  constructor
  · intro drawn
    obtain ⟨rep, member, stands⟩ := List.any_eq_true.mp drawn
    rcases Bool.or_eq_true_iff.mp stands with same | grouped
    · have same := of_decide_eq_true same
      subst same
      obtain ⟨⟨inbox, listed, own⟩, -⟩ := (store.mem_foldedRows now membership inboxes row).mp member
      have own := (List.mem_filter.mp own).2
      simp only [representative, Bool.and_eq_true, decide_eq_true_eq] at own
      refine ⟨?_, own.1.2, ?_⟩
      · rw [List.contains_iff_mem, own.1.1]
        exact listed
      · unfold represented
        cases conversation : row.threadId with
        | none => rfl
        | some thread =>
          apply List.any_eq_true.mpr
          exact ⟨row, member, by simp [conversation]⟩
    · simp only [inView, ofGroup, Bool.and_eq_true, Option.any_eq_true] at grouped
      obtain ⟨⟨listed, shown⟩, thread, conversation, own, inside, group⟩ := grouped
      refine ⟨listed, shown, ?_⟩
      unfold represented
      rw [inside]
      apply List.any_eq_true.mpr
      exact ⟨rep, member, (Option.any_eq_true _ _).mpr ⟨thread, conversation, group⟩⟩
  · rintro ⟨listed, shown, drawn⟩
    cases conversation : row.threadId with
    | none =>
      -- In no conversation, nothing outranks it and nothing absorbs it.
      obtain ⟨rep, member, stands, same⟩ :=
        store.exists_representative now membership row.mailboxId row there rfl shown
      have self : row = rep := by
        rcases Bool.or_eq_true_iff.mp stands with equal | sliced
        · exact of_decide_eq_true equal
        · simp [slice, conversation] at sliced
      subst self
      apply List.any_eq_true.mpr
      refine ⟨row, (store.mem_foldedRows now membership inboxes row).mpr
        ⟨⟨row.mailboxId, List.contains_iff_mem.mp listed, member⟩, ?_⟩, by simp [folded]⟩
      simp [absorbed, conversation]
    | some own =>
      simp only [represented, conversation, Option.all_some, List.any_eq_true, Option.any_eq_true] at drawn
      obtain ⟨rep, member, thread, headed, group⟩ := drawn
      apply List.any_eq_true.mpr
      refine ⟨rep, member, ?_⟩
      have stands : rep.threadId.any (fun thread => store.ofGroup now thread row) = true :=
        (Option.any_eq_true _ _).mpr ⟨thread, headed, by
          rw [ofGroup, conversation]
          exact group⟩
      simp only [folded, Bool.or_eq_true, Bool.and_eq_true]
      exact .inr ⟨by simpa [inView, shown] using listed, stands⟩

/-! ### Each scope -/

theorem names_bulk (units : List BulkUnit) (row : Message) :
    names store now (if units.isEmpty then .error (.rejected "Nothing selected") else .ok (.bulk units)) row =
      units.any (fun bulk => store.predicate now bulk.set row) := by
  cases units with
  | nil => rfl
  | cons bulk rest => rfl

def Agrees (aimed : Except CommandError Aim) (scope : ViewScope) (excepted : List MessageId) (row : Message) : Prop :=
  names store now aimed row = true <->
    store.listed now scope row = true ∧ ∀ id ∈ excepted, store.deselected now scope id row = false

theorem visible_kept (shown : visible now row = true) : row.deletedLocally = false := by
  simp only [visible, Bool.and_eq_true, Bool.not_eq_true'] at shown
  exact shown.1

theorem agrees_drafts (folder : Mailbox) (found : store.mailbox mailbox = some folder) (drafts : folder.role = .drafts) (row : Message) :
    (store.predicate now (.inMailbox mailbox excepted) row = true <->
        store.listed now (.mailbox mailbox) row = true ∧
          ∀ id ∈ excepted, store.deselected now (.mailbox mailbox) id row = false) <->
      (row.mailboxId = mailbox -> row.deletedLocally = false ->
        (store.withoutConversations excepted row = true -> visible now row = true ∧ outgoing row = false) ∧
        (outgoing row = false -> visible now row = true -> excepted.contains row.id = false ->
          store.withoutConversations excepted row = true)) := by
  have out : (∀ id ∈ excepted, store.deselected now (.mailbox mailbox) id row = false) <->
      excepted.contains row.id = false := by
    simp only [deselected, found, Option.any_some, drafts, decide_true, Bool.not_true, Bool.false_and, Bool.or_false,
      decide_eq_false_iff_not, List.contains_eq_mem]
    constructor
    · exact fun each member => each row.id member rfl
    · exact fun apart id member same => apart (same ▸ member)
  have apart : store.withoutConversations excepted row = true -> excepted.contains row.id = false := by
    intro kept
    simp only [withoutConversations, Bool.and_eq_true, Bool.not_eq_true'] at kept
    exact kept.1
  have shown := visible_kept now row
  rw [out]
  simp only [predicate, listed, found, Option.any_some, if_pos drafts, Bool.and_eq_true, decide_eq_true_eq,
    Bool.not_eq_true']
  tauto

theorem agrees_folder (folder : Mailbox) (found : store.mailbox mailbox = some folder) (threads : folder.role ≠ .drafts) (row : Message)
    (there : row ∈ store.messages.rows) :
    (store.predicate now (.inMailbox mailbox excepted) row = true <->
        store.listed now (.mailbox mailbox) row = true ∧
          ∀ id ∈ excepted, store.deselected now (.mailbox mailbox) id row = false) <->
      (row.mailboxId = mailbox -> row.deletedLocally = false -> store.withoutConversations excepted row = true ->
        visible now row = true) := by
  have out : (∀ id ∈ excepted, store.deselected now (.mailbox mailbox) id row = false) <->
      store.withoutConversations excepted row = true := by
    rw [withoutConversations_iff]
    simp only [deselected, found, Option.any_some, decide_eq_false threads, Bool.not_false, Bool.true_and,
      Bool.or_eq_false_iff, decide_eq_false_iff_not, Bool.and_eq_false_iff, not_and, Bool.not_eq_true]
    apply forall_congr'
    intro id
    apply forall_congr'
    intro _
    cases row.threadId.isSome with
    | false => simp
    | true => simp
  have rows := store.listed_folder now mailbox row there
  have shown := visible_kept now row
  rw [out]
  simp only [predicate, listed, found, Option.any_some, if_neg threads, rows, Bool.and_eq_true, decide_eq_true_eq,
    Bool.not_eq_true']
  tauto

theorem agrees_flagged (account : AccountId) (excepted : List MessageId)
    (row : Message) :
    (store.predicate now (.flagged account excepted) row = true <->
        store.listed now (.flagged account) row = true ∧
          ∀ id ∈ excepted, store.deselected now (.flagged account) id row = false) <->
      (row.accountId = account -> .flagged ∈ row.flags -> row.deletedLocally = false ->
        excepted.contains row.id = false -> visible now row = true) := by
  have out : (∀ id ∈ excepted, store.deselected now (.flagged account) id row = false) <->
      excepted.contains row.id = false := by
    simp only [deselected, decide_eq_false_iff_not, List.contains_eq_mem]
    constructor
    · exact fun each member => each row.id member rfl
    · exact fun apart id member same => apart (same ▸ member)
  have shown := visible_kept now row
  rw [out]
  simp only [predicate, listed, Bool.and_eq_true, decide_eq_true_eq, Bool.not_eq_true']
  tauto

theorem deselected_unified : (∀ id ∈ excepted, store.deselected now (.unified accounts) id row = false) <->
      store.withoutConversations excepted row = true ∧ ∀ id ∈ excepted, store.copied now id row = false := by
  -- A deselected row of the unified list keeps out its conversation, and its copies.
  rw [withoutConversations_iff, ← forall₂_and]
  apply forall_congr'
  intro id
  apply forall_congr'
  intro _
  simp only [deselected, copied, ofGroup, Bool.or_eq_false_iff, decide_eq_false_iff_not]
  cases store.messages.get id with
  | none => simp
  | some other =>
    cases conversation : other.threadId with
    | none =>
      cases own : row.threadId with
      | none => simp [conversation]
      | some thread => simp [conversation]
    | some thread =>
      cases own : row.threadId with
      | none => simp
      | some other =>
        simp only [Option.any_some, Bool.or_eq_false_iff, decide_eq_false_iff_not, Option.isSome_some, true_and,
          decide_eq_true_eq, conversation, Option.some_inj, and_assoc, eq_comm (a := thread)]

theorem agrees_iff (named listed shown : Prop) (sound : listed -> named) (exact : named -> (listed <-> shown)) :
    (named <-> listed) <-> (named -> shown) :=
  ⟨fun same there => (exact there).mp (same.mp there),
    fun kept => ⟨fun there => (exact there).mpr (kept there), sound⟩⟩

theorem agrees_unified (there : row ∈ store.messages.rows) :
    ((store.reaches accounts row.mailboxId = true ∧ row.deletedLocally = false) ∧
          store.withoutConversations excepted row = true <->
        store.listed now (.unified accounts) row = true ∧
          ∀ id ∈ excepted, store.deselected now (.unified accounts) id row = false) <->
      (store.reaches accounts row.mailboxId = true -> row.deletedLocally = false ->
        store.withoutConversations excepted row = true ->
        (store.inboxesOf accounts).contains row.mailboxId = true ∧ visible now row = true ∧
          store.represented now .folder (store.inboxesOf accounts) row = true ∧
          ∀ id ∈ excepted, store.copied now id row = false) := by
  have rows := store.listed_folded now .folder (store.inboxesOf accounts) row there
  rw [store.deselected_unified now accounts excepted row]
  simp only [listed, rows, test]
  rw [← and_imp, ← and_imp]
  apply agrees_iff
  · rintro ⟨⟨inside, shown, -⟩, apart, -⟩
    exact ⟨⟨store.inboxesOf_reached accounts row.mailboxId inside, visible_kept now row shown⟩, apart⟩
  · rintro ⟨-, apart⟩
    exact ⟨fun ⟨⟨inside, shown, drawn⟩, _, copies⟩ => ⟨inside, shown, drawn, copies⟩,
      fun ⟨inside, shown, drawn, copies⟩ => ⟨⟨inside, shown, drawn⟩, apart, copies⟩⟩

theorem agrees_focus (there : row ∈ store.messages.rows) :
    ((store.reaches accounts row.mailboxId = true ∧ store.test now .focus row = true) ∧
          (∀ id ∈ excepted, store.deselected now (.focus accounts) id row = false) <->
        store.listed now (.focus accounts) row = true ∧
          ∀ id ∈ excepted, store.deselected now (.focus accounts) id row = false) <->
      (store.reaches accounts row.mailboxId = true -> store.test now .focus row = true ->
        (∀ id ∈ excepted, store.deselected now (.focus accounts) id row = false) ->
        (store.inboxesOf accounts).contains row.mailboxId = true ∧
          store.represented now .focus (store.inboxesOf accounts) row = true) := by
  have rows := store.listed_folded now .focus (store.inboxesOf accounts) row there
  simp only [listed, rows]
  rw [← and_imp, ← and_imp]
  apply agrees_iff
  · rintro ⟨⟨inside, shown, -⟩, apart⟩
    exact ⟨⟨store.inboxesOf_reached accounts row.mailboxId inside, shown⟩, apart⟩
  · rintro ⟨⟨-, shown⟩, apart⟩
    exact ⟨fun ⟨⟨inside, _, drawn⟩, _⟩ => ⟨inside, drawn⟩, fun ⟨inside, drawn⟩ => ⟨⟨inside, shown, drawn⟩, apart⟩⟩

end MailStore

namespace MailStore

variable (store : MailStore) (now : Instant)

theorem mem_withFoldedCopies (threads : List ThreadId) (own : ThreadId) :
    own ∈ store.withFoldedCopies now threads <->
      ∃ thread ∈ threads, own = thread ∨ (store.copies now thread).contains own = true := by
  simp only [withFoldedCopies, copies, List.mem_append, List.mem_flatMap, List.mem_filterMap, List.mem_map,
    List.contains_iff_mem, Option.mem_toList]
  constructor
  · rintro (member | ⟨row, ⟨thread, member, found⟩, partner⟩)
    · exact ⟨own, member, .inl rfl⟩
    · obtain ⟨copy, grouped, rfl⟩ := partner
      exact ⟨thread, member, .inr ⟨copy, ⟨row, found, grouped⟩, rfl⟩⟩
  · rintro ⟨thread, member, rfl | ⟨copy, ⟨row, found, grouped⟩, rfl⟩⟩
    · exact .inl member
    · exact .inr ⟨row, ⟨thread, member, found⟩, copy, grouped, rfl⟩

theorem deselected_focus (accounts : List AccountId) (id : MessageId)
    (row : Message) : store.deselected now (.focus accounts) id row = false <->
      row.id ≠ id ∧ ∀ thread, (store.messages.get id).bind Message.threadId = some thread ->
        ∀ own, row.threadId = some own -> ¬ (own = thread ∨ (store.copies now thread).contains own = true) := by
  simp only [deselected, ofGroup, Bool.or_eq_false_iff, decide_eq_false_iff_not]
  cases store.messages.get id with
  | none => simp
  | some other =>
    cases conversation : other.threadId with
    | none => simp [conversation]
    | some thread =>
      cases own : row.threadId with
      | none => simp
      | some inside => simp [conversation]

theorem focusExceptions_iff (accounts : List AccountId) (excepted : List MessageId)
    (row : Message) (there : row ∈ store.messages.rows) :
    ((store.focusExceptions now excepted).1.contains row.id = false ∧
        row.threadId.all (fun thread => !(store.focusExceptions now excepted).2.contains thread) = true) <->
      ∀ id ∈ excepted, store.deselected now (.focus accounts) id row = false := by
  -- What a deselection keeps out of Focus's inbox, as the predicate asks it.
  have own := (store.messages.get_eq_some row.id row).mpr ⟨there, rfl⟩
  have lone : (store.focusExceptions now excepted).1.contains row.id = false <->
      (row.id ∈ excepted -> row.threadId ≠ none) := by
    simp [focusExceptions, List.mem_filter, own]
  have threads : ∀ thread, (store.focusExceptions now excepted).2.contains thread = true <->
      ∃ id ∈ excepted, ∃ other, (store.messages.get id).bind Message.threadId = some other ∧
        (thread = other ∨ (store.copies now other).contains thread = true) := by
    intro thread
    rw [List.contains_iff_mem, focusExceptions, mem_withFoldedCopies]
    constructor
    · rintro ⟨other, member, same⟩
      obtain ⟨id, listed, found⟩ := List.mem_filterMap.mp member
      exact ⟨id, listed, other, found, same⟩
    · rintro ⟨id, listed, other, found, same⟩
      exact ⟨other, List.mem_filterMap.mpr ⟨id, listed, found⟩, same⟩
  rw [lone]
  constructor
  · rintro ⟨threaded, apart⟩ id member
    rw [deselected_focus]
    have away : ∀ thread, (store.messages.get id).bind Message.threadId = some thread ->
        ∀ inside, row.threadId = some inside ->
          ¬ (inside = thread ∨ (store.copies now thread).contains inside = true) := by
      intro thread found inside conversation same
      rw [conversation, Option.all_some, Bool.not_eq_true', ← Bool.not_eq_true, threads] at apart
      exact apart ⟨id, member, thread, found, same⟩
    refine ⟨?_, away⟩
    rintro rfl
    obtain ⟨inside, conversation⟩ := Option.ne_none_iff_exists'.mp (threaded member)
    exact away inside (by rw [own]; exact conversation) inside conversation (.inl rfl)
  · intro each
    constructor
    · intro member
      exact absurd rfl ((deselected_focus store now accounts row.id row).mp (each row.id member)).1
    · cases conversation : row.threadId with
      | none => rfl
      | some inside =>
        rw [Option.all_some, Bool.not_eq_true', ← Bool.not_eq_true, threads]
        rintro ⟨id, member, other, found, same⟩
        exact ((deselected_focus store now accounts id row).mp (each id member)).2 other found inside conversation same

end MailStore

open MailStore

/-- A whole-view verb acts on what its view lists, less what was deselected, exactly if nothing the list hides is
there to be named. -/
theorem whole_view_iff (app : AppState) (store : MailStore) (now : Instant) (target : MessageTarget) (scope : ViewScope)
    (excepted : List MessageId) (resolved : app.resolve target = some (.everything scope excepted)) :
    (∀ row ∈ store.messages.rows, store.Agrees now (aim app store now target) scope excepted row) <->
      store.AsListed now scope excepted := by
  unfold aim Agrees
  rw [resolved]
  cases scope with
  | mailbox mailbox =>
    cases found : store.mailbox mailbox with
    | none =>
      simp [accountOf, found, bind, Except.bind, names, listed, AsListed]
    | some folder =>
      have aimed : ∀ row, names store now (do
          let account ← store.accountOf mailbox
          if [{ set := .inMailbox mailbox excepted, account, source := some mailbox : BulkUnit }].isEmpty then
            .error (.rejected "Nothing selected")
          else .ok (.bulk [{ set := .inMailbox mailbox excepted, account, source := some mailbox }])) row =
          store.predicate now (.inMailbox mailbox excepted) row := by
        intro row
        simp [accountOf, found, bind, Except.bind, names]
      simp only [aimed, AsListed, found, Option.mem_def, Option.some_inj, forall_eq']
      apply forall₂_congr
      intro row there
      by_cases drafts : folder.role = .drafts
      · rw [store.agrees_drafts now mailbox excepted folder found drafts row]
        simp only [drafts, true_implies]
      · rw [store.agrees_folder now mailbox excepted folder found drafts row there]
        simp only [drafts, false_implies, and_true]
  | flagged account =>
    simp only [names_bulk, List.any_cons, List.any_nil, Bool.or_false, AsListed]
    exact forall₂_congr (fun row _ => store.agrees_flagged now account excepted row)
  | unified accounts =>
    have named : ∀ row, (inboxUnits store accounts (fun inbox => .inMailbox inbox excepted)).any
        (fun bulk => store.predicate now bulk.set row) = true <->
        (store.reaches accounts row.mailboxId = true ∧ row.deletedLocally = false) ∧
          store.withoutConversations excepted row = true := by
      intro row
      rw [inboxUnits_any store accounts _ (fun set => store.predicate now set row), reaches_iff]
      simp only [predicate, Bool.and_eq_true, decide_eq_true_eq, Bool.not_eq_true']
      constructor
      · rintro ⟨account, member, inbox, found, ⟨inside, kept⟩, apart⟩
        exact ⟨⟨⟨account, member, inbox, found, inside.symm⟩, kept⟩, apart⟩
      · rintro ⟨⟨⟨account, member, inbox, found, inside⟩, kept⟩, apart⟩
        exact ⟨account, member, inbox, found, ⟨inside.symm, kept⟩, apart⟩
    simp only [names_bulk, named, AsListed]
    exact forall₂_congr (fun row there => store.agrees_unified now accounts excepted row there)
  | focus accounts =>
    have named : ∀ row ∈ store.messages.rows, ((inboxUnits store accounts (fun inbox =>
          .inFocusInbox inbox (store.focusExceptions now excepted).1 (store.focusExceptions now excepted).2)).any
        (fun bulk => store.predicate now bulk.set row) = true <->
        (store.reaches accounts row.mailboxId = true ∧ store.test now .focus row = true) ∧
          ∀ id ∈ excepted, store.deselected now (.focus accounts) id row = false) := by
      intro row there
      rw [inboxUnits_any store accounts _ (fun set => store.predicate now set row), reaches_iff,
        ← store.focusExceptions_iff now accounts excepted row there]
      simp only [predicate, test, Bool.and_eq_true, decide_eq_true_eq, Bool.not_eq_true']
      constructor
      · rintro ⟨account, member, inbox, found, ⟨⟨⟨inside, shown⟩, kept⟩, lone⟩, apart⟩
        exact ⟨⟨⟨account, member, inbox, found, inside.symm⟩, shown, kept⟩, lone, apart⟩
      · rintro ⟨⟨⟨account, member, inbox, found, inside⟩, shown, kept⟩, lone, apart⟩
        exact ⟨account, member, inbox, found, ⟨⟨⟨inside.symm, shown⟩, kept⟩, lone⟩, apart⟩
    simp only [names_bulk, AsListed]
    apply forall₂_congr
    intro row there
    rw [named row there]
    exact store.agrees_focus now accounts excepted row there

instance (store : MailStore) (now : Instant) (aimed : Except CommandError Aim) (scope : ViewScope)
    (excepted : List MessageId) (row : Message) : Decidable (store.Agrees now aimed scope excepted row) :=
  inferInstanceAs (Decidable (_ <-> _))

def inboxesSelected : AppState where
  selected := .everything [⟨2⟩]
  viewing := some (.unified [⟨1⟩, ⟨2⟩])
  focus := none

theorem inboxesSelected_agrees :
    inboxesSelected.resolve .selection = some (.everything (.unified [⟨1⟩, ⟨2⟩]) [⟨2⟩]) ∧
      ∀ row ∈ twoAccounts.messages.rows,
        twoAccounts.Agrees 0 (aim inboxesSelected twoAccounts 0 .selection) (.unified [⟨1⟩, ⟨2⟩]) [⟨2⟩] row :=
  ⟨rfl, (whole_view_iff inboxesSelected twoAccounts 0 .selection (.unified [⟨1⟩, ⟨2⟩]) [⟨2⟩] rfl).mpr (by
    unfold AsListed
    decide)⟩

def folderSelected : AppState where
  selected := .everything []
  viewing := some (.mailbox ⟨1⟩)
  focus := none

/-- A message snoozed until later is selected with the folder that hides it. -/
theorem asleep_selected : ¬ ∀ row ∈ (twoAccounts.snooze [⟨1⟩] 5000).messages.rows,
    (twoAccounts.snooze [⟨1⟩] 5000).Agrees 0 (aim folderSelected (twoAccounts.snooze [⟨1⟩] 5000) 0 .selection)
      (.mailbox ⟨1⟩) [] row := by
  decide

end Postio

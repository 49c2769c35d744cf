import Postio.Store.Aggregates

set_option autoImplicit false

namespace Postio

namespace Conversations

variable (store : Conversations) (members : List Mail) (now : Instant) (stale : ThreadId -> Prop)
    (account : AccountId) (thread : ThreadId) (message : MessageId)

def isMember (mail : Mail) : Bool :=
  mail.threadId = some thread && MailStore.visible (clock now) mail.toMessage

def unseen (mail : Mail) : Bool := decide (.seen ∉ mail.flags)

def marked (mail : Mail) : Bool := decide (.flagged ∈ mail.flags)

def aggregatesOf : Aggregates where
  messageCount := members.length
  unreadCount := (members.filter unseen).length
  hasAttachments := members.any Mail.hasAttachments
  isFlagged := members.any marked
  firstAt := (members.map (fun mail => mail.receivedAt)).min?.getD 0
  lastAt := (members.map (fun mail => mail.sortAt)).max?.getD 0

theorem recomputed_aggregates (thread : ThreadRow) : (recomputed members thread).aggregates = aggregatesOf members:= rfl

/-- The conversations a filing recomputes or folds away. -/
def settledBy (account : AccountId) (now : Instant) : Conversations -> List (Fetched × Mail) -> List ThreadId
  | _, [] => []
  | store, (_, mail) :: rest =>
    (store.file now account mail).2 :: (assign (.of mail) (store.index account none)).absorbed ++
      settledBy account now (store.file now account mail).1 rest

def reconsideredBy : List ThreadId :=
  match (store.mails.get message.get).bind (store.reconsidered account) with
  | some (current, assignment) => current :: assignment.thread.toList ++ assignment.absorbed
  | none => []

def ExactBut : Prop :=
  ∀ thread ∈ store.threads.rows, ¬ stale thread.id -> thread.aggregates = aggregatesOf (store.members now thread.id)

theorem exactBut_mono (wider : ThreadId -> Prop)
    (exact : store.ExactBut now stale) (more : ∀ thread, stale thread -> wider thread) : store.ExactBut now wider :=
  fun thread member fresh => exact thread member (fun old => fresh (more thread.id old))

/-! ### What recomputes a conversation -/

theorem exactBut_recompute (exact : store.ExactBut now stale) :
    (store.recompute now thread).ExactBut now (fun other => stale other ∧ other ≠ thread) := by
  intro row member fresh
  obtain ⟨old, there, rfl⟩ := List.mem_map.mp member
  by_cases named : old.id.get = thread.get
  · have same : old.id = thread := ThreadId.get_injective named
    rw [if_pos named]
    change aggregatesOf (store.members now thread) = aggregatesOf (store.members now old.id)
    rw [same]
  · rw [if_neg named] at fresh ⊢
    exact exact old there (fun outdated => fresh ⟨outdated, fun same => named (congrArg ThreadId.get same)⟩)

theorem filter_changed (rows : List Mail) (change : Mail -> Option Mail) (before after : Mail -> Bool)
    (same : ∀ mail ∈ rows, (change mail).any after = before mail) :
    (rows.filterMap change).filter after = (rows.filter before).map (fun mail => (change mail).getD mail) := by
  -- Rows rewritten in place or dropped, each counted after as it was before.
  induction rows with
  | nil => rfl
  | cons mail rest ih =>
    have here := same mail List.mem_cons_self
    have later := ih (fun other member => same other (List.mem_cons_of_mem _ member))
    cases changed : change mail with
    | none =>
      rw [changed] at here
      rw [List.filterMap_cons_none changed, List.filter_cons_of_neg (by simp [← here]), later]
    | some new =>
      rw [changed, Option.any_some] at here
      rw [List.filterMap_cons_some changed]
      by_cases counted : before mail = true
      · rw [List.filter_cons_of_pos (here.trans counted), List.filter_cons_of_pos counted, List.map_cons, changed, later]
        rfl
      · rw [List.filter_cons_of_neg (by rw [here]; exact counted), List.filter_cons_of_neg counted, later]

theorem exactBut_relabel (moved : Mail -> Bool) (thread : ThreadId) (exact : store.ExactBut now stale) :
    (store.relabel moved thread).ExactBut now (fun other =>
      stale other ∨ other = thread ∨ ∃ mail ∈ store.mails.rows, moved mail = true ∧ mail.threadId = some other) := by
  -- Conversations no moved message was in, and that take none in, keep their members.
  intro row member fresh
  simp only [not_or, not_exists, not_and] at fresh
  obtain ⟨old, other, apart⟩ := fresh
  rw [exact row member old]
  congr 1
  have still := filter_changed store.mails.rows
    (some ∘ fun mail => if moved mail then { mail with threadId := some thread } else mail)
    (isMember now row.id) (isMember now row.id) (by
      intro mail there
      by_cases taken : moved mail = true
      · simp [isMember, taken, apart mail there taken, Ne.symm other]
      · simp [taken])
  rw [List.filterMap_eq_map] at still
  refine Eq.trans ?_ still.symm
  symm
  apply (List.map_congr_left ?_).trans (List.map_id _)
  intro mail listed
  obtain ⟨there, inside⟩ := List.mem_filter.mp listed
  by_cases taken : moved mail = true
  · simp [isMember, apart mail there taken] at inside
  · simp [taken]

theorem exactBut_deleteThread (exact : store.ExactBut now stale) :
    (store.deleteThread thread).ExactBut now (fun other => stale other ∧ other ≠ thread) := by
  intro row member fresh
  obtain ⟨there, apart⟩ := List.mem_filter.mp member
  apply exact row there
  intro outdated
  apply fresh
  refine ⟨outdated, fun same => ?_⟩
  simp [same] at apart

theorem exactBut_merge (keep absorb : ThreadId) (exact : store.ExactBut now stale) :
    (store.merge now keep absorb).ExactBut now (fun other => stale other ∧ other ≠ keep ∧ other ≠ absorb) := by
  unfold merge
  split
  next same =>
    refine exactBut_mono _ now _ _ (exactBut_recompute store now stale keep exact) ?_
    rintro other ⟨outdated, apart⟩
    exact ⟨outdated, apart, same ▸ apart⟩
  next =>
    have moved := exactBut_relabel store now stale (fun mail => mail.threadId = some absorb) keep exact
    have settled := exactBut_recompute _ now _ keep (exactBut_deleteThread _ now _ absorb moved)
    refine exactBut_mono _ now _ _ settled ?_
    rintro other ⟨⟨outdated | kept | ⟨mail, -, taken, inside⟩, gone⟩, apart⟩
    · exact ⟨outdated, apart, gone⟩
    · exact absurd kept apart
    · rw [decide_eq_true_eq, inside] at taken
      exact absurd (Option.some.inj taken) gone

theorem exactBut_relink (absorbed into : ThreadId)
    (exact : store.ExactBut now stale) : (store.relink absorbed into).ExactBut now stale :=
  fun thread member fresh => exact thread member fresh

theorem exactBut_absorb (into : ThreadId) (absorb : List ThreadId) (exact : store.ExactBut now stale) :
    (absorb.foldl (absorbInto now into) store).ExactBut now (fun other => stale other ∧ other ∉ absorb) := by
  induction absorb generalizing store stale with
  | nil => exact exactBut_mono store now _ _ exact (fun other outdated => ⟨outdated, List.not_mem_nil⟩)
  | cons first rest ih =>
    have merged := exactBut_merge _ now stale into first (exactBut_relink store now stale first into exact)
    refine exactBut_mono _ now _ _ (ih (absorbInto now into store first) _ merged) ?_
    rintro other ⟨⟨outdated, -, apart⟩, later⟩
    exact ⟨outdated, fun listed => (List.mem_cons.mp listed).elim apart later⟩

theorem exactBut_addMessage (exact : store.ExactBut now stale) :
    (store.addMessage now thread message).ExactBut now (fun other => stale other ∧ other ≠ thread) := by
  have joined := exactBut_recompute _ now _ thread
    (exactBut_relabel store now stale (fun mail => mail.id = message) thread exact)
  -- The message is in one conversation, if in any.
  have previous : ∀ mail ∈ store.mails.rows, decide (mail.id = message) = true ->
      store.threadOf message = mail.threadId := by
    intro mail there named
    have found := (store.mails.get_eq_some message.get mail).mpr ⟨there, by rw [of_decide_eq_true named]⟩
    rw [threadOf, found]
    rfl
  unfold addMessage
  simp only
  cases left : store.threadOf message with
  | none =>
    refine exactBut_mono _ now _ _ joined ?_
    rintro other ⟨outdated | same | ⟨mail, there, named, inside⟩, apart⟩
    · exact ⟨outdated, apart⟩
    · exact absurd same apart
    · rw [previous mail there named, inside] at left
      cases left
  | some old =>
    simp only
    split
    next same =>
      refine exactBut_mono _ now _ _ joined ?_
      rintro other ⟨outdated | kept | ⟨mail, there, named, inside⟩, apart⟩
      · exact ⟨outdated, apart⟩
      · exact absurd kept apart
      · rw [previous mail there named, inside] at left
        exact absurd ((Option.some.inj left).trans same) apart
    next =>
      refine exactBut_mono _ now _ _ (exactBut_recompute _ now _ old joined) ?_
      rintro other ⟨⟨outdated | kept | ⟨mail, there, named, inside⟩, apart⟩, gone⟩
      · exact ⟨outdated, apart⟩
      · exact absurd kept apart
      · rw [previous mail there named, inside] at left
        exact absurd (Option.some.inj left) gone

theorem exactBut_claims (ids : List RfcMessageId) (exact : store.ExactBut now stale) :
    (ids.foldl (fun store id => store.claim account thread id) store).ExactBut now stale := by
  induction ids generalizing store with
  | nil => exact exact
  | cons id rest ih => exact ih (store.claim account thread id) exact

theorem exactBut_apply (cue : ThreadCue) (assignment : Assignment) (exact : store.ExactBut now stale) :
    (store.apply now account message cue assignment).1.ExactBut now (fun other =>
      stale other ∧ other ≠ (store.apply now account message cue assignment).2 ∧ other ∉ assignment.absorbed) := by
  -- Filing recomputes the conversation joined, and folds away what it absorbs.
  unfold apply
  simp only
  apply exactBut_claims
  cases assignment with
  | new =>
    have created : (store.settle now account cue .new).1.ExactBut now
        (fun other => stale other ∨ other = (store.settle now account cue .new).2) := by
      intro row member fresh
      simp only [not_or] at fresh
      rcases List.mem_append.mp member with old | new
      · exact exact row old fresh.1
      · exact absurd (congrArg ThreadRow.id (List.mem_singleton.mp new)) fresh.2
    refine exactBut_mono _ now _ _ (exactBut_addMessage _ now _ _ message created) ?_
    rintro other ⟨outdated | same, apart⟩
    · exact ⟨outdated, apart, List.not_mem_nil⟩
    · exact absurd same apart
  | join thread =>
    refine exactBut_mono _ now _ _ (exactBut_addMessage _ now _ thread message exact) ?_
    rintro other ⟨outdated, apart⟩
    exact ⟨outdated, apart, List.not_mem_nil⟩
  | merge into absorb =>
    refine exactBut_mono _ now _ _
      (exactBut_addMessage _ now _ into message (exactBut_absorb store now stale into absorb exact)) ?_
    rintro other ⟨⟨outdated, gone⟩, apart⟩
    exact ⟨outdated, apart, gone⟩

theorem exactBut_fileAll (written : List (Fetched × Mail)) (exact : store.ExactBut now stale) :
    (store.fileAll now account written).1.ExactBut now
      (fun other => stale other ∧ other ∉ settledBy account now store written) := by
  induction written generalizing store stale with
  | nil => exact exactBut_mono store now _ _ exact (fun other outdated => ⟨outdated, List.not_mem_nil⟩)
  | cons first rest ih =>
    have filed := exactBut_apply store now stale account first.2.id (.of first.2)
      (assign (.of first.2) (store.index account none)) exact
    refine exactBut_mono _ now _ _ (ih (store.file now account first.2).1 _ filed) ?_
    rintro other ⟨⟨outdated, apart, gone⟩, later⟩
    refine ⟨outdated, fun listed => ?_⟩
    rcases List.mem_append.mp listed with own | further
    · exact (List.mem_cons.mp own).elim apart gone
    · exact later further

theorem exactBut_reconsider (mail : Mail) (current : ThreadId) (assignment : Assignment)
    (moved : store.reconsidered account mail = some (current, assignment)) (exact : store.ExactBut now stale) :
    (store.reconsider now account mail).ExactBut now (fun other =>
      stale other ∧ other ∉ current :: assignment.thread.toList ++ assignment.absorbed) := by
  unfold reconsider
  simp only [moved]
  have filed := exactBut_apply store now stale account mail.id (.of mail) assignment exact
  have target : ∀ thread, assignment.thread = some thread ->
      (store.apply now account mail.id (.of mail) assignment).2 = thread := by
    intro thread named
    cases assignment with
    | new => cases named
    | join => exact Option.some.inj named
    | merge => exact Option.some.inj named
  refine exactBut_mono _ now _ _ (exactBut_merge _ now _ _ current (exactBut_relink _ now _ current _ filed)) ?_
  rintro other ⟨⟨outdated, apart, gone⟩, -, left⟩
  refine ⟨outdated, fun listed => ?_⟩
  rcases List.mem_append.mp listed with near | absorbed
  · rcases List.mem_cons.mp near with same | joined
    · exact left same
    · exact apart (target other (Option.mem_toList.mp joined)).symm
  · exact gone absorbed

/-! ### What a write makes of the members -/

theorem aggregatesOf_map (change : Mail -> Mail)
    (kept : ∀ mail ∈ members, (change mail).hasAttachments = mail.hasAttachments ∧
      (change mail).receivedAt = mail.receivedAt ∧ unseen (change mail) = unseen mail)
    (flagged : (members.any fun mail => marked (change mail)) = members.any marked) :
    aggregatesOf (members.map change) =
      { aggregatesOf members with lastAt := (members.map (fun mail => (change mail).sortAt)).max?.getD 0 } := by
  have unread : ((members.map change).filter unseen).length = (members.filter unseen).length := by
    rw [List.filter_map, List.length_map]
    congr 1
    exact List.filter_congr (fun mail member => (kept mail member).2.2)
  have attached : (members.map change).any Mail.hasAttachments = members.any Mail.hasAttachments := by
    rw [List.any_map, Bool.eq_iff_iff, List.any_eq_true, List.any_eq_true]
    exact exists_congr (fun mail => and_congr_right (fun member => by rw [Function.comp_apply, (kept mail member).1]))
  have received : (members.map change).map (fun mail => mail.receivedAt) = members.map (fun mail => mail.receivedAt) := by
    rw [List.map_map]
    exact List.map_congr_left (fun mail member => (kept mail member).2.1)
  unfold aggregatesOf
  rw [unread, attached, received, List.any_map, List.length_map, List.map_map]
  simp only [Function.comp_def, flagged]

end Conversations

namespace Threaded

open Conversations

variable (store : Threaded) (account : AccountId) (entry : Nat × ThreadWrite) (now : Instant) (named : Mail -> Bool)
    (change : Mail -> Option Mail) (thread : ThreadId)

def Undisturbed : Prop :=
  -- A rewriting of rows, at a moment, leaves a conversation's columns true: each message is visible there after exactly
  -- if it was at the write before, seen or not as it was, and some is flagged if some was.
  (∀ mail ∈ store.mails.rows, mail.threadId = some thread ->
      (change mail).any (isMember now thread) = isMember store.now thread mail ∧
        (isMember store.now thread mail = true -> (change mail).any unseen = unseen mail)) ∧
    ((store.members store.now thread).any fun mail => (change mail).any marked) =
      (store.members store.now thread).any marked

def Keeps : Prop :=
  ∀ mail changed, change mail = some changed -> changed.threadId = mail.threadId ∧
    changed.hasAttachments = mail.hasAttachments ∧ changed.receivedAt = mail.receivedAt

theorem aggregatesOf_changed (keeps : Keeps change) (calm : store.Undisturbed now change thread) :
    aggregatesOf ((store.mails.rows.filterMap change).filter (isMember now thread)) =
      { aggregatesOf (store.members store.now thread) with
        lastAt := ((store.members store.now thread).map (fun mail => ((change mail).getD mail).sortAt)).max?.getD 0 } := by
  obtain ⟨each, flagged⟩ := calm
  have counted : ∀ mail ∈ store.mails.rows, (change mail).any (isMember now thread) = isMember store.now thread mail := by
    intro mail there
    by_cases inside : mail.threadId = some thread
    · exact (each mail there inside).1
    · cases changed : change mail with
      | none => simp [isMember, inside]
      | some new => simp [isMember, inside, (keeps mail new changed).1]
  -- Every member is still there, changed.
  have present : ∀ mail ∈ store.members store.now thread, ∃ new, change mail = some new ∧
      mail ∈ store.mails.rows ∧ mail.threadId = some thread ∧ isMember store.now thread mail = true := by
    intro mail listed
    obtain ⟨there, inside⟩ := List.mem_filter.mp listed
    have shown := counted mail there
    rw [show isMember store.now thread mail = true from inside] at shown
    cases changed : change mail with
    | none => simp [changed] at shown
    | some new =>
      simp only [Bool.and_eq_true, decide_eq_true_eq] at inside
      exact ⟨new, rfl, there, inside.1, by simpa [isMember] using inside⟩
  rw [filter_changed store.mails.rows change (isMember store.now thread) (isMember now thread) counted]
  change aggregatesOf ((store.members store.now thread).map _) = _
  apply aggregatesOf_map
  · intro mail listed
    obtain ⟨new, changed, there, inside, shown⟩ := present mail listed
    obtain ⟨-, attachments, received⟩ := keeps mail new changed
    have seen := (each mail there inside).2 shown
    rw [changed] at seen ⊢
    exact ⟨attachments, received, seen⟩
  · rw [← flagged]
    rw [Bool.eq_iff_iff, List.any_eq_true, List.any_eq_true]
    refine exists_congr (fun mail => and_congr_right (fun listed => ?_))
    obtain ⟨new, changed, -⟩ := present mail listed
    rw [changed]
    rfl

theorem exactBut_changed (after : Conversations) (exact : store.Exact) (keeps : Keeps change)
    (places : ∀ mail changed, change mail = some changed -> changed.sortAt = mail.sortAt)
    (threads : after.threads = store.threads)
    (members : ∀ thread, after.members now thread = (store.mails.rows.filterMap change).filter (isMember now thread)) :
    after.ExactBut now (fun thread => ¬ store.Undisturbed now change thread) := by
  -- A rewriting that leaves a conversation undisturbed, and its places in the lists, leaves its columns true.
  intro row member calm
  rw [not_not] at calm
  rw [threads] at member
  rw [exact row member, recomputed_aggregates, members, aggregatesOf_changed store now change row.id keeps calm]
  have same : (store.members store.now row.id).map (fun mail => ((change mail).getD mail).sortAt) =
      (store.members store.now row.id).map (fun mail => mail.sortAt) := by
    apply List.map_congr_left
    intro mail _
    cases changed : change mail with
    | none => rfl
    | some new => exact places mail new changed
  rw [same]
  rfl

def onNamed (change : Mail -> Mail) (mail : Mail) : Option Mail :=
  some (if named mail then change mail else mail)

theorem exactBut_updateWhere (change : Mail -> Mail)
    (kept : ∀ mail, (change mail).id.get = mail.id.get) (exact : store.Exact)
    (keeps : ∀ mail, (change mail).threadId = mail.threadId ∧ (change mail).hasAttachments = mail.hasAttachments ∧
      (change mail).receivedAt = mail.receivedAt ∧ (change mail).sortAt = mail.sortAt) :
    (store.updateWhere named change kept).ExactBut now
      (fun thread => ¬ store.Undisturbed now (onNamed named change) thread) := by
  apply exactBut_changed store now _ _ exact
  · intro mail changed made
    cases made
    split
    · exact ⟨(keeps mail).1, (keeps mail).2.1, (keeps mail).2.2.1⟩
    · exact ⟨rfl, rfl, rfl⟩
  · intro mail changed made
    cases made
    split
    · exact (keeps mail).2.2.2
    · rfl
  · rfl
  · intro thread
    change List.filter _ (List.map _ _) = _
    rw [← List.filterMap_eq_map]
    rfl

def without (gone : Mail -> Bool) (mail : Mail) : Option Mail := if gone mail then none else some mail

theorem filterMap_without (gone : Mail -> Bool) (rows : List Mail) :
    rows.filterMap (without gone) = rows.filter (fun mail => !gone mail) := by
  rw [← List.filterMap_eq_filter]
  congr 1
  funext mail
  cases taken : gone mail with
  | true => simp [without, Option.guard, taken]
  | false => simp [without, Option.guard, taken]

theorem exactBut_without (gone : Mail -> Bool) (after : Conversations)
    (exact : store.Exact) (threads : after.threads = store.threads)
    (members : ∀ thread, after.members now thread =
      (store.mails.rows.filter (fun mail => !gone mail)).filter (isMember now thread)) :
    after.ExactBut now (fun thread => ¬ store.Undisturbed now (without gone) thread) := by
  have kept : ∀ mail changed, without gone mail = some changed -> changed = mail := by
    intro mail changed made
    unfold without at made
    split at made
    · cases made
    · exact (Option.some.inj made).symm
  apply exactBut_changed store now _ _ exact
  · intro mail changed made
    rw [kept mail changed made]
    exact ⟨rfl, rfl, rfl⟩
  · intro mail changed made
    rw [kept mail changed made]
  · exact threads
  · intro thread
    rw [filterMap_without]
    exact members thread

def refreshes (unit : List Fetched) (mail : Mail) : Bool := unit.any (fun fetched => fetched.known = some mail.id)

theorem members_upsert (store : Conversations) (fetched : Fetched) (now : Instant) (thread : ThreadId) :
    (store.upsert fetched).1.threads = store.threads ∧
      (store.upsert fetched).1.members now thread =
        (store.members now thread).filter (fun mail => decide (fetched.known ≠ some mail.id)) := by
  change _ ∧ List.filter (isMember now thread) _ = List.filter _ (List.filter (isMember now thread) _)
  rw [List.filter_filter]
  unfold upsert
  split
  next row found =>
    refine ⟨rfl, ?_⟩
    obtain ⟨id, known, there⟩ := Option.bind_eq_some_iff.mp found
    have named : row.id = id := store.mails_id id row there
    simp only [Table.updateAt, Table.update_rows]
    rw [List.filter_map]
    have same : store.mails.rows.filter
        (isMember now thread ∘ fun mail => if mail.id.get = row.id.get then fetched.refreshed mail else mail) =
        store.mails.rows.filter (fun mail => decide (fetched.known ≠ some mail.id) && isMember now thread mail) := by
      apply List.filter_congr
      intro mail _
      by_cases own : mail.id.get = row.id.get
      · have taken : mail.id = id := (MessageId.get_injective own).trans named
        rw [Function.comp_apply, if_pos own]
        simp [known, taken, isMember, Fetched.refreshed]
      · have apart : id ≠ mail.id := by
          intro taken
          rw [named, taken] at own
          exact own rfl
        simp [own, known, apart]
    rw [same]
    apply (List.map_congr_left ?_).trans (List.map_id _)
    intro mail listed
    have kept := (List.mem_filter.mp listed).2
    simp only [known, Bool.and_eq_true, decide_eq_true_eq] at kept
    rw [if_neg]
    · rfl
    · intro own
      exact kept.1 (congrArg some ((MessageId.get_injective own).trans named).symm)
  next missing =>
    refine ⟨rfl, ?_⟩
    simp only [Table.insert_rows, List.filter_append]
    have fresh : [fetched.fresh ⟨store.mails.nextId⟩].filter (isMember now thread) = [] := by
      simp [isMember, Fetched.fresh]
    rw [fresh, List.append_nil]
    apply List.filter_congr
    intro mail there
    have unknown : fetched.known ≠ some mail.id := by
      intro known
      rw [known, Option.bind_some] at missing
      exact (store.mails.get_eq_none mail.id.get).mp missing mail there rfl
    simp [unknown]

theorem members_upsertAll (store : Conversations) (unit : List Fetched) (now : Instant) (thread : ThreadId) :
    (store.upsertAll unit).1.threads = store.threads ∧
      (store.upsertAll unit).1.members now thread =
        (store.members now thread).filter (fun mail => !refreshes unit mail) := by
  induction unit generalizing store with
  | nil =>
    refine ⟨rfl, ?_⟩
    rw [List.filter_eq_self.mpr (fun mail _ => by rfl)]
    rfl
  | cons fetched rest ih =>
    obtain ⟨threads, members⟩ := members_upsert store fetched now thread
    obtain ⟨later, last⟩ := ih (store.upsert fetched).1
    refine ⟨later.trans threads, ?_⟩
    change ((store.upsert fetched).1.upsertAll rest).1.members now thread = _
    rw [last, members, List.filter_filter]
    apply List.filter_congr
    intro mail _
    simp [refreshes, Bool.and_comm]

/-! ### Waking -/

theorem foldl_max_le (values : List Instant) (start bound : Instant) :
    values.foldl max start ≤ bound <-> start ≤ bound ∧ ∀ value ∈ values, value ≤ bound := by
  induction values generalizing start with
  | nil => simp
  | cons value rest ih => simp [ih, and_assoc]

theorem max_getD_le (values : List Instant) (bound : Instant) (some : values ≠ []) :
    values.max?.getD 0 ≤ bound <-> ∀ value ∈ values, value ≤ bound := by
  cases found : values.max? with
  | none => exact absurd (List.max?_eq_none_iff.mp found) some
  | some top => exact List.max?_le_iff found

def Placed : Prop :=
  -- A message hidden when its snooze runs out has a visible one of its conversation placed as late.
  ∀ mail ∈ store.mails.rows, mail.threadId = some thread -> due account now mail = true -> mail.deletedLocally = true ->
    ∃ other ∈ store.members store.now thread,
      mail.snoozedUntil.all (· ≤ ((onNamed (due account now) woken other).getD other).sortAt) = true

theorem raised_lastAt (thread : ThreadRow)
    (exact : thread.lastAt = ((store.members store.now thread.id).map (fun mail => mail.sortAt)).max?.getD 0)
    (calm : store.Undisturbed now (onNamed (due account now) woken) thread.id)
    (placed : store.Placed account now thread.id) :
    (raised (store.mails.rows.filter (due account now)) thread).lastAt =
      ((store.members store.now thread.id).map
        (fun mail => ((onNamed (due account now) woken mail).getD mail).sortAt)).max?.getD 0 := by
  -- What a waking moves a conversation to is where its last message is then.
  have wakes : ∀ mail ∈ store.mails.rows, mail.threadId = some thread.id -> due account now mail = true ->
      ∃ other ∈ store.members store.now thread.id,
        mail.snoozedUntil.all (· ≤ ((onNamed (due account now) woken other).getD other).sortAt) = true := by
    intro mail there inside asleep
    by_cases deleted : mail.deletedLocally = true
    · exact placed mail there inside asleep deleted
    · have shown := (calm.1 mail there inside).1
      simp only [onNamed, asleep, if_true, Option.any_some] at shown
      have visible : isMember store.now thread.id mail = true := by
        rw [← shown]
        simp [isMember, woken, inside, MailStore.visible, deleted]
      refine ⟨mail, List.mem_filter.mpr ⟨there, visible⟩, ?_⟩
      simp only [onNamed, asleep, if_true, Option.getD_some, woken]
      cases mail.snoozedUntil with
      | none => rfl
      | some wakeAt => simp
  have later : ∀ mail, mail.sortAt ≤ ((onNamed (due account now) woken mail).getD mail).sortAt := by
    intro mail
    simp only [onNamed, Option.getD_some]
    split
    · simp only [woken]
      cases mail.snoozedUntil with
      | none => exact Int.le_refl _
      | some wakeAt => exact Int.le_max_left _ _
    · exact Int.le_refl _
  have asleep : ∀ wakeAt, wakeAt ∈ ((store.mails.rows.filter (due account now)).filter
      (fun mail => mail.threadId = some thread.id)).filterMap (fun mail => mail.snoozedUntil) <->
      ∃ mail ∈ store.mails.rows, due account now mail = true ∧ mail.threadId = some thread.id ∧
        mail.snoozedUntil = some wakeAt := by
    intro wakeAt
    simp only [List.mem_filterMap, List.mem_filter, decide_eq_true_eq, and_assoc]
  by_cases empty : store.members store.now thread.id = []
  · have none : ((store.mails.rows.filter (due account now)).filter
        (fun mail => mail.threadId = some thread.id)).filterMap (fun mail => mail.snoozedUntil) = [] := by
      apply List.eq_nil_iff_forall_not_mem.mpr
      intro wakeAt listed
      obtain ⟨mail, there, ready, inside, -⟩ := (asleep wakeAt).mp listed
      obtain ⟨other, member, -⟩ := wakes mail there inside ready
      rw [empty] at member
      cases member
    simp only [raised, none, List.foldl_nil, exact, empty, List.map_nil]
  · apply eq_of_forall_ge_iff
    intro bound
    simp only [raised]
    rw [foldl_max_le, exact, max_getD_le _ _ (by simpa using empty), max_getD_le _ _ (by simpa using empty),
      List.forall_mem_map, List.forall_mem_map]
    constructor
    · rintro ⟨placedAt, wokenAt⟩ mail member
      obtain ⟨there, inside⟩ := List.mem_filter.mp member
      simp only [Bool.and_eq_true, decide_eq_true_eq] at inside
      simp only [onNamed, Option.getD_some]
      split
      next ready =>
        simp only [woken]
        cases wakeAt : mail.snoozedUntil with
        | none => exact placedAt mail member
        | some time =>
          exact max_le (placedAt mail member) (wokenAt time ((asleep time).mpr ⟨mail, there, ready, inside.1, wakeAt⟩))
      next => exact placedAt mail member
    · intro bounded
      refine ⟨fun mail member => le_trans (later mail) (bounded mail member), fun wakeAt listed => ?_⟩
      obtain ⟨mail, there, ready, inside, until_⟩ := (asleep wakeAt).mp listed
      obtain ⟨other, member, before⟩ := wakes mail there inside ready
      rw [until_, Option.all_some, decide_eq_true_eq] at before
      exact le_trans before (bounded other member)

theorem exactBut_wakeDue (exact : store.Exact) : (store.wakeDue account now).ExactBut now (fun thread =>
      ¬ (store.Undisturbed now (onNamed (due account now) woken) thread ∧ store.Placed account now thread)) := by
  intro row member calm
  rw [not_not] at calm
  obtain ⟨undisturbed, placed⟩ := calm
  obtain ⟨old, there, rfl⟩ := List.mem_map.mp member
  have keeps : Keeps (onNamed (due account now) woken) := by
    intro mail changed made
    cases made
    split
    · exact ⟨rfl, rfl, rfl⟩
    · exact ⟨rfl, rfl, rfl⟩
  have shown := exact old there
  rw [recomputed_aggregates] at shown
  have columns : (raised (store.mails.rows.filter (due account now)) old).aggregates =
      { old.aggregates with lastAt := (raised (store.mails.rows.filter (due account now)) old).lastAt } := rfl
  have members : (store.wakeDue account now).members now old.id =
      (store.mails.rows.filterMap (onNamed (due account now) woken)).filter (isMember now old.id) := by
    change List.filter _ (List.map _ _) = _
    rw [← List.filterMap_eq_map]
    rfl
  change _ = aggregatesOf ((store.wakeDue account now).members now old.id)
  rw [columns, members, aggregatesOf_changed store now _ old.id keeps undisturbed, shown,
    raised_lastAt store account now old (congrArg Aggregates.lastAt shown) undisturbed placed]

/-! ### Every write -/

def conversations : List ThreadId := store.mails.rows.filterMap (fun mail => mail.threadId)

def Steady : Prop :=
  -- What a write leaves undisturbed: every conversation it does not recompute or fold away.
  ∀ thread ∈ store.conversations,
    match entry.2 with
    | .setFlag messages _ _ => thread ∉ store.conversationsOf messages ->
      store.Undisturbed (store.now + entry.1) some thread
    | .setFlagOnSet named flag present =>
      store.Undisturbed (store.now + entry.1) (onNamed named (withColumnFlag flag present)) thread
    | .moveTo _ _ | .moveSet _ _ => store.Undisturbed (store.now + entry.1) some thread
    | .setDeletedLocally messages deleted =>
      store.Undisturbed (store.now + entry.1) (onNamed (fun mail => messages.contains mail.id) (hidden deleted)) thread
    | .snooze messages wakeAt =>
      store.Undisturbed (store.now + entry.1) (onNamed (fun mail => messages.contains mail.id) (snoozed (some wakeAt)))
        thread
    | .unsnooze messages =>
      store.Undisturbed (store.now + entry.1) (onNamed (fun mail => messages.contains mail.id) (snoozed none)) thread
    | .wakeDue account =>
      store.Undisturbed (store.now + entry.1) (onNamed (due account (store.now + entry.1)) woken) thread ∧
        store.Placed account (store.now + entry.1) thread
    | .unit account unit =>
      thread ∉ settledBy account (store.now + entry.1) (store.upsertAll unit).1 (store.upsertAll unit).2 ->
        store.Undisturbed (store.now + entry.1) (without (refreshes unit)) thread
    | .expunge messages =>
      store.Undisturbed (store.now + entry.1) (without (fun mail => messages.contains mail.id)) thread
    | .merge keep absorb => thread ≠ keep -> thread ≠ absorb ->
      store.Undisturbed (store.now + entry.1) some thread
    | .reconsider account message => thread ∉ store.reconsideredBy account message ->
      store.Undisturbed (store.now + entry.1) some thread

theorem undisturbed_congr (other : Mail -> Option Mail) (thread : ThreadId)
    (alike : ∀ mail ∈ store.mails.rows, mail.threadId = some thread ->
      (other mail).any (isMember now thread) = (change mail).any (isMember now thread) ∧
        (other mail).any unseen = (change mail).any unseen ∧ (other mail).any marked = (change mail).any marked)
    (calm : store.Undisturbed now change thread) : store.Undisturbed now other thread := by
  -- A rewriting that treats the conversation's messages alike disturbs it alike.
  constructor
  · intro mail there inside
    obtain ⟨member, seen, -⟩ := alike mail there inside
    rw [member, seen]
    exact calm.1 mail there inside
  · rw [← calm.2, Bool.eq_iff_iff, List.any_eq_true, List.any_eq_true]
    refine exists_congr (fun mail => and_congr_right (fun listed => ?_))
    obtain ⟨there, inside⟩ := List.mem_filter.mp listed
    simp only [Bool.and_eq_true, decide_eq_true_eq] at inside
    rw [(alike mail there inside.1).2.2]

theorem undisturbed_moved (mailbox : MailboxId) (thread : ThreadId) (calm : store.Undisturbed now some thread) :
    store.Undisturbed now (onNamed named (inMailbox mailbox)) thread := by
  -- Which folder a message is in is nothing to its conversation.
  apply undisturbed_congr store now some _ thread _ calm
  intro mail _ _
  simp only [onNamed]
  split
  · exact ⟨rfl, rfl, rfl⟩
  · exact ⟨rfl, rfl, rfl⟩

theorem undisturbed_empty (empty : thread ∉ store.conversations) : store.Undisturbed now change thread := by
  have outside : ∀ mail ∈ store.mails.rows, mail.threadId ≠ some thread :=
    fun mail there inside => empty (List.mem_filterMap.mpr ⟨mail, there, inside⟩)
  refine ⟨fun mail there inside => absurd inside (outside mail there), ?_⟩
  have none : store.members store.now thread = [] := by
    apply List.filter_eq_nil_iff.mpr
    intro mail there
    simp [outside mail there]
  rw [none]
  rfl

theorem undisturbed_all (calm : ∀ thread ∈ store.conversations, store.Undisturbed now change thread) (thread : ThreadId) :
    store.Undisturbed now change thread := by
  by_cases there : thread ∈ store.conversations
  · exact calm thread there
  · exact undisturbed_empty store now change thread there

theorem placed_empty (empty : thread ∉ store.conversations) : store.Placed account now thread :=
  fun mail there inside => absurd (List.mem_filterMap.mpr ⟨mail, there, inside⟩) empty

theorem exactBut_still (exact : store.Exact) :
    store.ExactBut now (fun thread => ¬ store.Undisturbed now some thread) := by
  apply exactBut_changed store now _ _ exact
  · intro mail changed made
    cases made
    exact ⟨rfl, rfl, rfl⟩
  · intro mail changed made
    cases made
    rfl
  · rfl
  · intro thread
    rw [List.filterMap_some]
    rfl

theorem exactBut_recomputes (store : Conversations) (now : Instant) (stale : ThreadId -> Prop) (threads : List ThreadId)
    (exact : store.ExactBut now stale) :
    (threads.foldl (fun store thread => store.recompute now thread) store).ExactBut now
      (fun other => stale other ∧ other ∉ threads) := by
  induction threads generalizing store stale with
  | nil => exact exactBut_mono store now _ _ exact (fun other outdated => ⟨outdated, List.not_mem_nil⟩)
  | cons thread rest ih =>
    refine exactBut_mono _ now _ _ (ih _ _ (exactBut_recompute store now stale thread exact)) ?_
    rintro other ⟨⟨outdated, apart⟩, later⟩
    exact ⟨outdated, fun listed => (List.mem_cons.mp listed).elim apart later⟩

theorem exactBut_write (exact : store.Exact) (steady : store.Steady entry) :
    (write store.toConversations (store.now + entry.1) entry.2).ExactBut (store.now + entry.1) (fun _ => False) := by
  -- Every conversation ends a steady write true or recomputed.
  obtain ⟨elapsed, event⟩ := entry
  have still := exactBut_still store (store.now + elapsed) exact
  cases event with
  | setFlag messages flag wanted =>
    have marked := exactBut_recomputes _ _ _ (store.conversationsOf messages)
      (exactBut_updateWhere store (store.now + elapsed) (fun mail => messages.contains mail.id) (flagMail flag wanted)
        (fun _ => rfl) exact (fun _ => ⟨rfl, rfl, rfl, rfl⟩))
    refine exactBut_mono _ _ _ _ marked ?_
    rintro thread ⟨disturbed, untouched⟩
    apply disturbed
    by_cases there : thread ∈ store.conversations
    · apply undisturbed_congr store _ some _ thread _ (steady thread there untouched)
      intro mail listed inside
      have apart : messages.contains mail.id = false := by
        rw [← Bool.not_eq_true]
        intro named
        apply untouched
        exact List.mem_dedup.mpr (List.mem_filterMap.mpr ⟨mail, List.mem_filter.mpr ⟨listed, named⟩, inside⟩)
      simp only [onNamed, apart, Bool.false_eq_true, if_false, and_self]
    · exact undisturbed_empty store _ _ thread there
  | setFlagOnSet named flag present =>
    refine exactBut_mono _ _ _ _ (exactBut_updateWhere store _ named (withColumnFlag flag present) (fun _ => rfl) exact
      (fun _ => ⟨rfl, rfl, rfl, rfl⟩)) ?_
    exact fun thread disturbed => disturbed (undisturbed_all store _ _ steady thread)
  | moveTo messages mailbox =>
    refine exactBut_mono _ _ _ _ (exactBut_updateWhere store _ (fun mail => messages.contains mail.id)
      (inMailbox mailbox) (fun _ => rfl) exact (fun _ => ⟨rfl, rfl, rfl, rfl⟩)) ?_
    exact fun thread disturbed =>
      disturbed (undisturbed_moved store _ _ mailbox thread (undisturbed_all store _ _ steady thread))
  | moveSet named mailbox =>
    refine exactBut_mono _ _ _ _ (exactBut_updateWhere store _ named (inMailbox mailbox) (fun _ => rfl) exact
      (fun _ => ⟨rfl, rfl, rfl, rfl⟩)) ?_
    exact fun thread disturbed =>
      disturbed (undisturbed_moved store _ _ mailbox thread (undisturbed_all store _ _ steady thread))
  | setDeletedLocally messages deleted =>
    refine exactBut_mono _ _ _ _ (exactBut_updateWhere store _ (fun mail => messages.contains mail.id) (hidden deleted)
      (fun _ => rfl) exact (fun _ => ⟨rfl, rfl, rfl, rfl⟩)) ?_
    exact fun thread disturbed => disturbed (undisturbed_all store _ _ steady thread)
  | snooze messages wakeAt =>
    refine exactBut_mono _ _ _ _ (exactBut_updateWhere store _ (fun mail => messages.contains mail.id)
      (snoozed (some wakeAt)) (fun _ => rfl) exact (fun _ => ⟨rfl, rfl, rfl, rfl⟩)) ?_
    exact fun thread disturbed => disturbed (undisturbed_all store _ _ steady thread)
  | unsnooze messages =>
    refine exactBut_mono _ _ _ _ (exactBut_updateWhere store _ (fun mail => messages.contains mail.id) (snoozed none)
      (fun _ => rfl) exact (fun _ => ⟨rfl, rfl, rfl, rfl⟩)) ?_
    exact fun thread disturbed => disturbed (undisturbed_all store _ _ steady thread)
  | wakeDue account =>
    refine exactBut_mono _ _ _ _ (exactBut_wakeDue store account _ exact) ?_
    intro thread disturbed
    by_cases there : thread ∈ store.conversations
    · exact disturbed (steady thread there)
    · exact disturbed ⟨undisturbed_empty store _ _ thread there, placed_empty store account _ thread there⟩
  | unit account unit =>
    have stored := exactBut_without store (store.now + elapsed) (refreshes unit) (store.upsertAll unit).1 exact
      (members_upsertAll _ unit (store.now + elapsed) ⟨0⟩).1
      (by
        intro thread
        rw [(members_upsertAll _ unit (store.now + elapsed) thread).2, List.filter_comm]
        rfl)
    refine exactBut_mono _ _ _ _ (exactBut_fileAll _ _ _ account (store.upsertAll unit).2 stored) ?_
    rintro thread ⟨disturbed, unsettled⟩
    by_cases there : thread ∈ store.conversations
    · exact disturbed (steady thread there unsettled)
    · exact disturbed (undisturbed_empty store _ _ thread there)
  | expunge messages =>
    refine exactBut_mono _ _ _ _ (exactBut_without store _ (fun mail => messages.contains mail.id)
      (store.expunge messages) exact rfl (fun _ => rfl)) ?_
    exact fun thread disturbed => disturbed (undisturbed_all store _ _ steady thread)
  | merge keep absorb =>
    refine exactBut_mono _ _ _ _ (exactBut_merge _ _ _ keep absorb still) ?_
    rintro thread ⟨disturbed, kept, gone⟩
    by_cases there : thread ∈ store.conversations
    · exact disturbed (steady thread there kept gone)
    · exact disturbed (undisturbed_empty store _ _ thread there)
  | reconsider account message =>
    have calm : ∀ thread, thread ∉ store.reconsideredBy account message ->
        store.Undisturbed (store.now + elapsed) some thread := by
      intro thread apart
      by_cases there : thread ∈ store.conversations
      · exact steady thread there apart
      · exact undisturbed_empty store _ _ thread there
    unfold reconsideredBy at calm
    simp only [write]
    cases found : store.mails.get message.get with
    | none =>
      rw [found] at calm
      exact exactBut_mono _ _ _ _ still (fun thread disturbed => disturbed (calm thread List.not_mem_nil))
    | some mail =>
      rw [found, Option.bind_some] at calm
      cases moved : store.reconsidered account mail with
      | none =>
        rw [moved] at calm
        simp only [Conversations.reconsider, moved]
        exact exactBut_mono _ _ _ _ still (fun thread disturbed => disturbed (calm thread List.not_mem_nil))
      | some target =>
        obtain ⟨current, assignment⟩ := target
        rw [moved] at calm
        refine exactBut_mono _ _ _ _ (exactBut_reconsider _ _ _ account mail current assignment moved still) ?_
        rintro thread ⟨disturbed, apart⟩
        exact disturbed (calm thread apart)

theorem exact_step (exact : store.Exact) (steady : store.Steady entry) :
    (store.step entry).Exact :=
  fun thread member => exactBut_write store entry exact steady thread member id

/-- Along writes that disturb no conversation they do not recompute, every conversation's columns are exact after each
of them. -/
theorem aggregates_exact (writes : List (Nat × ThreadWrite))
    (steady : Run.Along step Steady (opened now) writes) : (Run.run step (opened now) writes).Exact :=
  Run.run_invariant step Exact Steady exact_step _ writes (fun _ member => absurd member List.not_mem_nil) steady

/-! ### A whole view marked read -/

instance (store : Threaded) : Decidable store.Exact := inferInstanceAs (Decidable (∀ thread ∈ store.threads.rows, _))

instance (store : Threaded) (now : Instant) (change : Mail -> Option Mail) (thread : ThreadId) :
    Decidable (store.Undisturbed now change thread) := inferInstanceAs (Decidable (_ ∧ _))

def unread (name : List Char) (references : List RfcMessageId) : Fetched where
  known := none
  arrival := true
  mail :=
    { id := ⟨0⟩
      accountId := ⟨1⟩
      mailboxId := ⟨1⟩
      threadId := none
      rfcMessageId := some name
      source := []
      flags := ∅
      labels := ∅
      receivedAt := 1000
      sortAt := 1000
      deletedLocally := false
      snoozedUntil := none
      sendState := none
      remoteId := none
      subject := none
      inReplyTo := none
      references
      hasAttachments := false }

def readTogether : List (Nat × ThreadWrite) :=
  [(0, .unit ⟨1⟩ [unread ['a'] []]), (0, .setFlagOnSet (fun mail => mail.mailboxId = ⟨1⟩) .seen true)]

theorem readTogether_not_exact : ¬ (Run.run step (opened 1000) readTogether).Exact := by decide

def readApart : List (Nat × ThreadWrite) :=
  -- A message and its answer arrive, are read one by one, and are filed away; the first is fetched again.
  [(0, .unit ⟨1⟩ [unread ['a'] [], unread ['b'] [['a']]]), (5, .setFlag [⟨1⟩] .seen true),
    (5, .setFlag [⟨2⟩] .seen true), (9, .moveTo [⟨1⟩, ⟨2⟩] ⟨2⟩),
    (60, .unit ⟨1⟩ [{ unread ['a'] [] with known := some ⟨1⟩ }])]

theorem readApart_exact : (Run.run step (opened 1000) readApart).Exact := by
  apply aggregates_exact 1000 readApart
  refine ⟨?_, ?_, ?_, ?_, ?_, trivial⟩
  · unfold Steady
    decide
  · unfold Steady
    decide
  · unfold Steady
    decide
  · unfold Steady
    decide
  · unfold Steady
    decide

end Threaded

end Postio

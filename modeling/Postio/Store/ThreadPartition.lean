import Postio.Lib.Clusters
import Postio.Lib.Run
import Postio.Store.Threading

set_option autoImplicit false

namespace Postio

namespace Conversations

def claimOf (store : Conversations) (key : AccountId × RfcMessageId) : Option ThreadId :=
  (store.links.find? (fun link => link.accountId = key.1 && link.id = key.2)).map ThreadLink.thread

def Alive (store : Conversations) (thread : ThreadId) : Prop := (store.threads.get thread.get).isSome

/-! ### What each write does to claims, to memberships and to threads -/

theorem alive_recompute (store : Conversations) (now : Instant) (recomputed thread : ThreadId) :
    (store.recompute now recomputed).Alive thread <-> store.Alive thread := by
  unfold Alive
  have now' := store.threads.get_updateAt recomputed.get (Conversations.recomputed (store.members now recomputed))
    (fun _ => rfl) thread.get
  change ((store.threads.updateAt recomputed.get (Conversations.recomputed (store.members now recomputed))
    (fun _ => rfl)).get thread.get).isSome = true <-> _
  rw [now']
  split
  next => rw [Option.isSome_map]
  next => rfl

theorem links_addMessage (store : Conversations) (now : Instant) (thread : ThreadId) (message : MessageId) :
    (store.addMessage now thread message).links = store.links := by
  unfold addMessage
  cases store.threadOf message with
  | none => rfl
  | some left =>
    by_cases same : left = thread
    next => simp only [same, if_true]; rfl
    next => simp only [same, if_false]; rfl

theorem alive_addMessage (store : Conversations) (now : Instant) (into : ThreadId) (message : MessageId)
    (thread : ThreadId) : (store.addMessage now into message).Alive thread <-> store.Alive thread := by
  unfold addMessage
  cases store.threadOf message with
  | none => exact alive_recompute _ now into thread
  | some left =>
    by_cases same : left = into
    next =>
      simp only [same, if_true]
      exact alive_recompute _ now into thread
    next =>
      simp only [same, if_false]
      exact (alive_recompute _ now left thread).trans (alive_recompute _ now into thread)

theorem threadOf_merged (store : Conversations) (now : Instant) (keep absorb : ThreadId) (apart : keep ≠ absorb)
    (message : MessageId) :
    (store.merge now keep absorb).threadOf message =
      if store.threadOf message = some absorb then some keep else store.threadOf message := by
  -- A merge moves what the absorbed thread held to the one kept.
  by_cases held : store.threadOf message = some absorb
  next =>
    rw [if_pos held]
    unfold merge
    rw [if_neg apart, threadOf_recompute]
    change (store.relabel (fun mail => mail.threadId = some absorb) keep).threadOf message = some keep
    rw [threadOf_relabel]
    obtain ⟨mail, found, inside⟩ := Option.bind_eq_some_iff.mp held
    rw [found, Option.bind_some, if_pos (by simpa using inside)]
  next =>
    rw [if_neg held]
    exact store.threadOf_merge now keep absorb message (.inr held)

theorem threadOf_absorbInto (store : Conversations) (now : Instant) (into other : ThreadId) (apart : into ≠ other)
    (message : MessageId) :
    (absorbInto now into store other).threadOf message =
      if store.threadOf message = some other then some into else store.threadOf message :=
  threadOf_merged (store.relink other into) now into other apart message

theorem links_absorbInto (store : Conversations) (now : Instant) (into other : ThreadId) (apart : into ≠ other) :
    (absorbInto now into store other).links =
      store.links.map (fun link => if link.thread = other then { link with thread := into } else link) := by
  -- The claims of an absorbed thread go over before its row, and with it what it still claims, is deleted.
  unfold absorbInto merge
  rw [if_neg apart]
  change ((store.relink other into).links).filter (fun link => link.thread ≠ other) = _
  apply List.filter_eq_self.mpr
  intro link member
  obtain ⟨old, -, rfl⟩ := List.mem_map.mp member
  by_cases held : old.thread = other
  next => simp [held, apart]
  next => simp [held]

theorem alive_absorbInto (store : Conversations) (now : Instant) (into other : ThreadId) (apart : into ≠ other)
    (thread : ThreadId) :
    (absorbInto now into store other).Alive thread <-> store.Alive thread ∧ thread ≠ other := by
  unfold absorbInto merge
  rw [if_neg apart, alive_recompute]
  unfold Alive
  change ((store.threads.removeAt other.get).get thread.get).isSome = true <-> _
  unfold Table.removeAt
  rw [Table.get_remove]
  cases held : store.threads.get thread.get with
  | none => simp
  | some row =>
    have named := ((store.threads.get_eq_some thread.get row).mp held).2
    have same : row.id.get = other.get <-> thread = other := by
      rw [named]
      exact ⟨fun equal => ThreadId.get_injective equal, fun equal => congrArg ThreadId.get equal⟩
    by_cases gone : thread = other
    next => simp [Option.filter, same.mpr gone, gone]
    next => simp [Option.filter, same, gone]

theorem claimOf_map (store : Conversations) (change : ThreadId -> ThreadId) (key : AccountId × RfcMessageId)
    (after : Conversations)
    (links : after.links = store.links.map (fun link => { link with thread := change link.thread })) :
    after.claimOf key = (store.claimOf key).map change := by
  unfold claimOf
  rw [links, List.find?_map, Option.map_map, Option.map_map]
  rfl

theorem claimOf_absorbInto (store : Conversations) (now : Instant) (into other : ThreadId) (apart : into ≠ other)
    (key : AccountId × RfcMessageId) :
    (absorbInto now into store other).claimOf key =
      (store.claimOf key).map (fun thread => if thread = other then into else thread) := by
  apply store.claimOf_map _ key
  rw [store.links_absorbInto now into other apart]
  apply List.map_congr_left
  intro link _
  split
  next => rfl
  next => rfl

theorem find_without (links : List ThreadLink) (account : AccountId) (id : RfcMessageId)
    (key : AccountId × RfcMessageId) :
    (links.filter (fun link => ¬ (link.accountId = account ∧ link.id = id))).find?
        (fun link => link.accountId = key.1 && link.id = key.2) =
      if key = (account, id) then none else links.find? (fun link => link.accountId = key.1 && link.id = key.2) := by
  induction links with
  | nil => simp
  | cons link rest ih =>
    by_cases mine : link.accountId = account ∧ link.id = id
    next =>
      rw [List.filter_cons_of_neg (by simp [mine]), ih]
      by_cases same : key = (account, id)
      next => rw [if_pos same, if_pos same]
      next =>
        have apart : ¬ (link.accountId = key.1 ∧ link.id = key.2) := fun there =>
          same (Prod.ext (there.1.symm.trans mine.1) (there.2.symm.trans mine.2))
        rw [if_neg same, if_neg same, List.find?_cons_of_neg (by simpa using apart)]
    next =>
      have keeps : (link :: rest).filter (fun link => ¬ (link.accountId = account ∧ link.id = id)) =
          link :: rest.filter (fun link => ¬ (link.accountId = account ∧ link.id = id)) := by
        rw [List.filter_cons, if_pos]
        exact decide_eq_true mine
      rw [keeps]
      by_cases there : link.accountId = key.1 ∧ link.id = key.2
      next =>
        have same : key ≠ (account, id) := by
          intro same
          rw [same] at there
          exact mine there
        rw [if_neg same, List.find?_cons_of_pos (by simpa using there), List.find?_cons_of_pos (by simpa using there)]
      next =>
        rw [List.find?_cons_of_neg (by simpa using there), List.find?_cons_of_neg (by simpa using there), ih]

theorem claimOf_claim (store : Conversations) (account : AccountId) (thread : ThreadId) (id : RfcMessageId)
    (key : AccountId × RfcMessageId) :
    (store.claim account thread id).claimOf key = if key = (account, id) then some thread else store.claimOf key := by
  unfold claimOf claim
  rw [List.find?_append, find_without]
  by_cases same : key = (account, id)
  next =>
    subst same
    simp
  next =>
    have other : ¬ (account = key.1 ∧ id = key.2) := fun equal => same (Prod.ext equal.1.symm equal.2.symm)
    rw [if_neg same, if_neg same, List.find?_cons_of_neg (by simpa using other), List.find?_nil, Option.or_none]

theorem claimOf_claims (store : Conversations) (account : AccountId) (thread : ThreadId) (ids : List RfcMessageId)
    (key : AccountId × RfcMessageId) :
    (ids.foldl (fun store id => store.claim account thread id) store).claimOf key =
      if key.1 = account ∧ key.2 ∈ ids then some thread else store.claimOf key := by
  induction ids generalizing store with
  | nil => simp
  | cons id rest ih =>
    rw [List.foldl_cons, ih, claimOf_claim]
    by_cases later : key.1 = account ∧ key.2 ∈ rest
    next => rw [if_pos later, if_pos ⟨later.1, List.mem_cons_of_mem id later.2⟩]
    next =>
      rw [if_neg later]
      by_cases same : key = (account, id)
      next => rw [if_pos same, if_pos ⟨congrArg Prod.fst same, by simp [same]⟩]
      next =>
        rw [if_neg same, if_neg]
        rintro ⟨mine, member⟩
        rcases List.mem_cons.mp member with here | behind
        next => exact same (Prod.ext mine here)
        next => exact later ⟨mine, behind⟩

theorem alive_claims (store : Conversations) (account : AccountId) (into : ThreadId) (ids : List RfcMessageId)
    (thread : ThreadId) :
    (ids.foldl (fun store id => store.claim account into id) store).Alive thread <-> store.Alive thread := by
  induction ids generalizing store with
  | nil => exact Iff.rfl
  | cons id rest ih => exact ih (store.claim account into id)

def Standing (store : Conversations) : Prop := ∀ link ∈ store.links, store.Alive link.thread

theorem standing_claims (store : Conversations) (account : AccountId) (into : ThreadId) (ids : List RfcMessageId)
    (standing : Standing store) (alive : store.Alive into) :
    Standing (ids.foldl (fun store id => store.claim account into id) store) := by
  induction ids generalizing store with
  | nil => exact standing
  | cons id rest ih =>
    apply ih
    next =>
      intro link member
      rcases List.mem_append.mp member with old | new
      next => exact standing link (List.mem_of_mem_filter old)
      next =>
        cases List.mem_singleton.mp new
        exact alive
    next => exact alive

/-! ### Several threads folded into one -/

variable (now : Instant) (into : ThreadId)

theorem threadOf_folded (absorb : List ThreadId) (outside : into ∉ absorb) (store : Conversations)
    (message : MessageId) :
    (absorb.foldl (absorbInto now into) store).threadOf message =
      (store.threadOf message).map (fun thread => if thread ∈ absorb then into else thread) := by
  induction absorb generalizing store with
  | nil => simp
  | cons other rest ih =>
    simp only [List.mem_cons, not_or] at outside
    rw [List.foldl_cons, ih outside.2, threadOf_absorbInto store now into other outside.1]
    cases held : store.threadOf message with
    | none => simp
    | some thread =>
      by_cases same : thread = other
      next => simp [same, outside.2]
      next => simp [same]

theorem claimOf_folded (absorb : List ThreadId) (outside : into ∉ absorb) (store : Conversations)
    (key : AccountId × RfcMessageId) :
    (absorb.foldl (absorbInto now into) store).claimOf key =
      (store.claimOf key).map (fun thread => if thread ∈ absorb then into else thread) := by
  induction absorb generalizing store with
  | nil => simp
  | cons other rest ih =>
    simp only [List.mem_cons, not_or] at outside
    rw [List.foldl_cons, ih outside.2, claimOf_absorbInto store now into other outside.1]
    cases held : store.claimOf key with
    | none => simp
    | some thread =>
      by_cases same : thread = other
      next => simp [same, outside.2]
      next => simp [same]

theorem alive_folded (absorb : List ThreadId) (outside : into ∉ absorb) (store : Conversations) (thread : ThreadId) :
    (absorb.foldl (absorbInto now into) store).Alive thread <-> store.Alive thread ∧ thread ∉ absorb := by
  induction absorb generalizing store with
  | nil => simp
  | cons other rest ih =>
    simp only [List.mem_cons, not_or] at outside
    rw [List.foldl_cons, ih outside.2, alive_absorbInto store now into other outside.1]
    simp [and_assoc]

theorem standing_folded (absorb : List ThreadId) (outside : into ∉ absorb) (store : Conversations)
    (standing : Standing store) (alive : store.Alive into) : Standing (absorb.foldl (absorbInto now into) store) := by
  induction absorb generalizing store with
  | nil => exact standing
  | cons other rest ih =>
    simp only [List.mem_cons, not_or] at outside
    apply ih outside.2
    next =>
      intro link member
      rw [store.links_absorbInto now into other outside.1] at member
      obtain ⟨old, there, rfl⟩ := List.mem_map.mp member
      rw [alive_absorbInto store now into other outside.1]
      by_cases held : old.thread = other
      next =>
        rw [if_pos held]
        exact ⟨alive, outside.1⟩
      next =>
        rw [if_neg held]
        exact ⟨standing old there, held⟩
    next => exact (alive_absorbInto store now into other outside.1 into).mpr ⟨alive, outside.1⟩

/-! ### Where a message goes -/

def linked (store : Conversations) (account : AccountId) (mail : Mail) : List ThreadId :=
  (ThreadCue.of mail).links.filterMap (store.index account none).threadOf

def Falls (store : Conversations) (mail : Mail) : Prop :=
  store.linked mail.accountId mail = [] ∧ (ThreadCue.of mail).subjectIsUsable = true ∧
    (store.index mail.accountId none).threadsWithSubject (ThreadCue.of mail).subject ≠ []

def labels (mail : Mail) : List (AccountId × RfcMessageId) :=
  (ThreadCue.of mail).claimedIds.map (fun id => (mail.accountId, id))

theorem mem_labels (mail : Mail) (key : AccountId × RfcMessageId) :
    key ∈ labels mail <-> key.1 = mail.accountId ∧ key.2 ∈ (ThreadCue.of mail).claimedIds := by
  unfold labels
  rw [List.mem_map]
  constructor
  next =>
    rintro ⟨id, member, rfl⟩
    exact ⟨rfl, member⟩
  next =>
    rintro ⟨account, member⟩
    exact ⟨key.2, member, Prod.ext account.symm rfl⟩

theorem index_claimOf (store : Conversations) (account : AccountId) (id : RfcMessageId) :
    (store.index account none).threadOf id = store.claimOf (account, id) := by
  unfold index claimOf
  simp only [reduceCtorEq, ne_eq, not_false_eq_true, decide_true]
  cases (store.links.find? (fun link => link.accountId = account && link.id = id)).map ThreadLink.thread with
  | none => rfl
  | some thread => rfl

theorem mem_linked (store : Conversations) (mail : Mail) (thread : ThreadId) :
    thread ∈ store.linked mail.accountId mail <-> Clusters.Found labels store.claimOf mail thread := by
  unfold linked Clusters.Found
  rw [List.mem_filterMap]
  have same : ∀ id, id ∈ (ThreadCue.of mail).links <-> id ∈ (ThreadCue.of mail).claimedIds := by
    intro id
    simp [ThreadCue.links, ThreadCue.claimedIds]
  constructor
  next =>
    rintro ⟨id, member, found⟩
    rw [index_claimOf] at found
    exact ⟨(mail.accountId, id), (mem_labels mail _).mpr ⟨rfl, (same id).mp member⟩, found⟩
  next =>
    rintro ⟨key, member, found⟩
    obtain ⟨account, inside⟩ := (mem_labels mail key).mp member
    refine ⟨key.2, (same key.2).mpr inside, ?_⟩
    rw [index_claimOf, ← account]
    exact found

def decision (found : List ThreadId) : Assignment :=
  -- What is made of the threads found.
  match found.dedup.insertionSort (fun first second => first.get ≤ second.get) with
  | [] => .new
  | [thread] => .join thread
  | into :: absorb => .merge into absorb

theorem assign_decision (store : Conversations) (account : AccountId) (cue : ThreadCue) :
    assign cue (store.index account none) =
      decision (if (cue.links.filterMap (store.index account none).threadOf).isEmpty && cue.subjectIsUsable then
        (store.index account none).threadsWithSubject cue.subject
        else cue.links.filterMap (store.index account none).threadOf) := rfl

theorem decision_cases (found : List ThreadId) :
    decision found = .new ∧ found = [] ∨
      ∃ into absorb, into ∉ absorb ∧ (∀ thread, thread ∈ found <-> thread = into ∨ thread ∈ absorb) ∧
        (decision found = .join into ∧ absorb = [] ∨ decision found = .merge into absorb ∧ absorb ≠ []) := by
  -- A message found nowhere begins a thread, and otherwise one of the threads found takes the others in.
  have sorted := found.dedup.perm_insertionSort (fun first second => first.get ≤ second.get)
  have apart : (found.dedup.insertionSort (fun first second => first.get ≤ second.get)).Nodup :=
    sorted.nodup_iff.mpr found.nodup_dedup
  have member : ∀ thread, thread ∈ found <->
      thread ∈ found.dedup.insertionSort (fun first second => first.get ≤ second.get) := by
    intro thread
    rw [sorted.mem_iff, List.mem_dedup]
  unfold decision
  cases listed : found.dedup.insertionSort (fun first second => first.get ≤ second.get) with
  | nil =>
    rw [listed] at member
    exact .inl ⟨rfl, List.eq_nil_iff_forall_not_mem.mpr (fun thread there => by simpa using (member thread).mp there)⟩
  | cons into absorb =>
    rw [listed] at member apart
    refine .inr ⟨into, absorb, (List.nodup_cons.mp apart).1, fun thread => ?_, ?_⟩
    next => rw [member, List.mem_cons]
    next =>
      cases absorb with
      | nil => exact .inl ⟨rfl, rfl⟩
      | cons next rest => exact .inr ⟨rfl, by simp⟩

theorem assign_unaided (store : Conversations) (mail : Mail) (unaided : ¬ Falls store mail) :
    assign (.of mail) (store.index mail.accountId none) = decision (store.linked mail.accountId mail) := by
  -- Where the subject is not asked, only the ids decide.
  rw [assign_decision]
  change decision (if (store.linked mail.accountId mail).isEmpty && (ThreadCue.of mail).subjectIsUsable then
    (store.index mail.accountId none).threadsWithSubject (ThreadCue.of mail).subject else store.linked mail.accountId mail) = _
  split
  next asked =>
    simp only [Bool.and_eq_true, List.isEmpty_iff] at asked
    by_cases named : (store.index mail.accountId none).threadsWithSubject (ThreadCue.of mail).subject = []
    next => rw [named, asked.1]
    next => exact absurd ⟨asked.1, asked.2, named⟩ unaided
  next => rfl

/-! ### What filing comes to -/

/-- The threads are ready for a message: what was in the absorbed ones is in the target, and the target is there. -/
structure Settles (store ready : Conversations) (target : ThreadId) (absorb : List ThreadId) : Prop where
  stored : ∀ message, (ready.mails.get message).isSome = (store.mails.get message).isSome
  members : ∀ message,
    ready.threadOf message = (store.threadOf message).map (fun thread => if thread ∈ absorb then target else thread)
  claims : ∀ key, ready.claimOf key = (store.claimOf key).map (fun thread => if thread ∈ absorb then target else thread)
  alive : ∀ thread, ready.Alive thread <-> thread = target ∨ store.Alive thread ∧ thread ∉ absorb
  standing : Standing store -> Standing ready

theorem alive_create (store : Conversations) (account : AccountId) (subject : Option (List Char)) (thread : ThreadId) :
    (store.create account subject).1.Alive thread <-> thread = ⟨store.threads.nextId⟩ ∨ store.Alive thread := by
  unfold Alive create
  dsimp only
  rw [Table.get_insert]
  by_cases same : thread = ⟨store.threads.nextId⟩
  next => simp [same]
  next =>
    have apart : thread.get ≠ store.threads.nextId := fun equal => same (ThreadId.get_injective equal)
    rw [if_neg apart]
    simp [same]

theorem alive_lt (store : Conversations) (thread : ThreadId) (alive : store.Alive thread) :
    thread.get < store.threads.nextId := by
  -- A thread not made yet holds nothing.
  obtain ⟨row, found⟩ := Option.isSome_iff_exists.mp alive
  obtain ⟨member, named⟩ := (store.threads.get_eq_some thread.get row).mp found
  have before := store.threads.issued row member
  rw [named] at before
  exact before

theorem settles_create (store : Conversations) (account : AccountId) (subject : Option (List Char)) :
    Settles store (store.create account subject).1 ⟨store.threads.nextId⟩ [] := by
  refine ⟨fun _ => rfl, fun message => ?_, fun key => ?_, fun thread => ?_, fun standing link member => ?_⟩
  next => simp [show (store.create account subject).1.threadOf message = store.threadOf message from rfl]
  next => simp [show (store.create account subject).1.claimOf key = store.claimOf key from rfl]
  next => simp [alive_create]
  next => exact (alive_create store account subject link.thread).mpr (.inr (standing link member))

theorem settles_join (store : Conversations) (thread : ThreadId) (alive : store.Alive thread) :
    Settles store store thread [] := by
  refine ⟨fun _ => rfl, fun message => by simp, fun key => by simp, fun other => ?_, fun standing => standing⟩
  constructor
  next => exact fun held => .inr ⟨held, by simp⟩
  next =>
    rintro (rfl | ⟨held, -⟩)
    next => exact alive
    next => exact held

theorem stored_absorbed (store : Conversations) (now : Instant) (into : ThreadId) (absorb : List ThreadId)
    (message : Nat) :
    ((absorb.foldl (absorbInto now into) store).mails.get message).isSome = (store.mails.get message).isSome := by
  induction absorb generalizing store with
  | nil => rfl
  | cons other rest ih =>
    rw [List.foldl_cons, ih]
    unfold absorbInto merge
    split
    next => rfl
    next =>
      have relabelled := (store.relink other into).mails.get_update
        (fun mail => if mail.threadId = some other then { mail with threadId := some into } else mail)
        (fun mail => by split <;> rfl) message
      change (((store.relink other into).relabel (fun mail => mail.threadId = some other) into).mails.get message).isSome = _
      unfold relabel
      simp only [decide_eq_true_eq]
      rw [relabelled, Option.isSome_map]
      rfl

theorem settles_merge (store : Conversations) (now : Instant) (into : ThreadId) (absorb : List ThreadId)
    (outside : into ∉ absorb) (alive : store.Alive into) :
    Settles store (absorb.foldl (absorbInto now into) store) into absorb := by
  refine ⟨fun message => stored_absorbed store now into absorb message,
    fun message => threadOf_folded now into absorb outside store message,
    fun key => claimOf_folded now into absorb outside store key, fun thread => ?_,
    fun standing => standing_folded now into absorb outside store standing alive⟩
  rw [alive_folded now into absorb outside store thread]
  constructor
  next => exact fun held => .inr held
  next =>
    rintro (rfl | held)
    next => exact ⟨alive, outside⟩
    next => exact held

/-- A message is filed: it is in the target with what was absorbed, and the target claims its ids. -/
structure Files (store after : Conversations) (account : AccountId) (mail : Mail) (target : ThreadId)
    (absorb : List ThreadId) : Prop where
  stored : ∀ message, (after.mails.get message).isSome = (store.mails.get message).isSome
  own : after.threadOf mail.id = some target
  others : ∀ message, message ≠ mail.id ->
    after.threadOf message = (store.threadOf message).map (fun thread => if thread ∈ absorb then target else thread)
  claims : ∀ key, after.claimOf key =
    if key.1 = account ∧ key.2 ∈ (ThreadCue.of mail).claimedIds then some target
    else (store.claimOf key).map (fun thread => if thread ∈ absorb then target else thread)
  alive : ∀ thread, after.Alive thread <-> thread = target ∨ store.Alive thread ∧ thread ∉ absorb
  standing : Standing store -> Standing after

theorem stored_addMessage (store : Conversations) (now : Instant) (thread : ThreadId) (filed : MessageId) (message : Nat) :
    ((store.addMessage now thread filed).mails.get message).isSome = (store.mails.get message).isSome := by
  have relabelled : ((store.relabel (fun mail => mail.id = filed) thread).mails.get message).isSome =
      (store.mails.get message).isSome := by
    have now := store.mails.get_update
      (fun mail => if mail.id = filed then { mail with threadId := some thread } else mail)
      (fun mail => by split <;> rfl) message
    unfold relabel
    simp only [decide_eq_true_eq]
    rw [now, Option.isSome_map]
  unfold addMessage
  cases store.threadOf filed with
  | none => exact relabelled
  | some left =>
    by_cases same : left = thread
    next =>
      simp only [same, if_true]
      exact relabelled
    next =>
      simp only [same, if_false]
      exact relabelled

theorem stored_claims (store : Conversations) (account : AccountId) (thread : ThreadId) (ids : List RfcMessageId) :
    (ids.foldl (fun store id => store.claim account thread id) store).mails = store.mails := by
  induction ids generalizing store with
  | nil => rfl
  | cons id rest ih => exact ih (store.claim account thread id)

theorem settles_files (store ready : Conversations) (now : Instant) (account : AccountId) (mail : Mail)
    (target : ThreadId) (absorb : List ThreadId) (settles : Settles store ready target absorb)
    (stored : (store.mails.get mail.id.get).isSome) :
    Files store ((ThreadCue.of mail).claimedIds.foldl (fun store id => store.claim account target id)
      (ready.addMessage now target mail.id)) account mail target absorb := by
  have here : (ready.mails.get mail.id.get).isSome := (settles.stored mail.id.get).trans stored
  have alive := (settles.alive target).mpr (.inl rfl)
  refine ⟨fun message => ?_, ?_, fun message apart => ?_, fun key => ?_, fun thread => ?_, fun standing => ?_⟩
  next => rw [stored_claims, stored_addMessage, settles.stored]
  next => rw [threadOf_claims, threadOf_addMessage_own ready now target mail.id here]
  next => rw [threadOf_claims, threadOf_addMessage_other ready now target mail.id message apart, settles.members]
  next =>
    rw [claimOf_claims, ← settles.claims]
    have same : (ready.addMessage now target mail.id).claimOf key = ready.claimOf key := by
      unfold claimOf
      rw [links_addMessage]
    rw [same]
  next => rw [alive_claims, alive_addMessage, settles.alive]
  next =>
    apply standing_claims
    next =>
      intro link member
      rw [links_addMessage] at member
      exact (alive_addMessage ready now target mail.id link.thread).mpr (settles.standing standing link member)
    next => exact (alive_addMessage ready now target mail.id target).mpr alive

theorem file_files (store : Conversations) (now : Instant) (account : AccountId) (mail : Mail) (found : List ThreadId)
    (decided : assign (.of mail) (store.index account none) = decision found)
    (alive : ∀ thread ∈ found, store.Alive thread) (stored : (store.mails.get mail.id.get).isSome) :
    Files store (store.file now account mail).1 account mail ⟨store.threads.nextId⟩ [] ∧ found = [] ∨
      ∃ target absorb, Files store (store.file now account mail).1 account mail target absorb ∧ target ∉ absorb ∧
        ∀ thread, thread ∈ found <-> thread = target ∨ thread ∈ absorb := by
  -- A message is filed into one of the threads found for it, all of them folded together, or into a new one.
  unfold file apply
  rw [decided]
  rcases decision_cases found with ⟨new, none⟩ | ⟨into, absorb, outside, member, ⟨join, alone⟩ | ⟨merge, -⟩⟩
  next =>
    left
    refine ⟨?_, none⟩
    rw [new]
    exact settles_files store _ now account mail _ [] (settles_create store account _) stored
  next =>
    right
    subst alone
    refine ⟨into, [], ?_, outside, member⟩
    rw [join]
    exact settles_files store store now account mail into [] (settles_join store into
      (alive into ((member into).mpr (.inl rfl)))) stored
  next =>
    right
    refine ⟨into, absorb, ?_, outside, member⟩
    rw [merge]
    exact settles_files store _ now account mail into absorb (settles_merge store now into absorb outside
      (alive into ((member into).mpr (.inl rfl)))) stored

/-! ### Every order of arrival -/

def arrive (store : Conversations) (arrival : Instant × Mail) : Conversations :=
  (store.file arrival.1 arrival.2.accountId arrival.2).1

/-- What holds once some messages have been filed. -/
structure Sorted (filed : Mail -> Prop) (store : Conversations) : Prop where
  standing : Standing store
  housed : ∀ mail, filed mail -> ∀ thread, store.threadOf mail.id = some thread -> store.Alive thread
  clustered : Clusters.Clustered labels filed (fun mail => store.threadOf mail.id) store.claimOf

theorem claimed_alive (store : Conversations) (standing : Standing store) (key : AccountId × RfcMessageId)
    (thread : ThreadId) (claimed : store.claimOf key = some thread) : store.Alive thread := by
  obtain ⟨link, found, rfl⟩ := Option.map_eq_some_iff.mp claimed
  exact standing link (List.mem_of_find?_eq_some found)

theorem mem_own_labels (mail : Mail) (key : AccountId × RfcMessageId) :
    (key.1 = mail.accountId ∧ key.2 ∈ (ThreadCue.of mail).claimedIds) <-> key ∈ labels mail :=
  (mem_labels mail key).symm

theorem files_adds (filed : Mail -> Prop) (store after : Conversations) (mail : Mail) (target : ThreadId)
    (absorb : List ThreadId) (files : Files store after mail.accountId mail target absorb)
    (member : ∀ thread, thread ∈ store.linked mail.accountId mail -> thread = target ∨ thread ∈ absorb)
    (found : ∀ thread, thread ∈ absorb -> thread ∈ store.linked mail.accountId mail)
    (aimed : target ∈ store.linked mail.accountId mail ∨
      (∀ thread, thread ∉ store.linked mail.accountId mail) ∧ ∀ other, filed other -> store.threadOf other.id ≠ some target)
    (apart : ∀ other, filed other -> other ≠ mail -> other.id ≠ mail.id) :
    Clusters.Adds labels filed (fun mail => store.threadOf mail.id) store.claimOf mail target
      (fun mail => after.threadOf mail.id) after.claimOf := by
  -- Filing adds the message to its cluster.
  refine ⟨?_, files.own, ?_, ?_, ?_, ?_, ?_, ?_⟩
  next =>
    rcases aimed with taken | ⟨none, unused⟩
    next => exact .inl ((mem_linked store mail target).mp taken)
    next => exact .inr ⟨fun into there => none into ((mem_linked store mail into).mpr there), unused⟩
  next =>
    intro other into there different held reached
    rw [files.others other.id (apart other there different), show store.threadOf other.id = some into from held]
    rcases member into ((mem_linked store mail into).mpr reached) with same | inside
    next => simp [same]
    next => simp [inside]
  next =>
    intro other into there different held unreached
    have outside : into ∉ absorb := fun inside => unreached ((mem_linked store mail into).mp (found into inside))
    change after.threadOf other.id = some into
    rw [files.others other.id (apart other there different), show store.threadOf other.id = some into from held]
    simp [outside]
  next =>
    intro label mine
    rw [files.claims label, if_pos ((mem_own_labels mail label).mpr mine)]
  next =>
    intro label foreign unclaimed
    rw [files.claims label, if_neg (fun mine => foreign ((mem_own_labels mail label).mp mine)), unclaimed]
    rfl
  next =>
    intro label into foreign claimed reached
    rw [files.claims label, if_neg (fun mine => foreign ((mem_own_labels mail label).mp mine)), claimed]
    rcases member into ((mem_linked store mail into).mpr reached) with same | inside
    next => simp [same]
    next => simp [inside]
  next =>
    intro label into foreign claimed unreached
    have outside : into ∉ absorb := fun inside => unreached ((mem_linked store mail into).mp (found into inside))
    rw [files.claims label, if_neg (fun mine => foreign ((mem_own_labels mail label).mp mine)), claimed]
    simp [outside]

theorem files_housed (filed : Mail -> Prop) (store after : Conversations) (mail : Mail) (target : ThreadId)
    (absorb : List ThreadId) (files : Files store after mail.accountId mail target absorb)
    (housed : ∀ mail, filed mail -> ∀ thread, store.threadOf mail.id = some thread -> store.Alive thread)
    (other : Mail) (there : filed other ∨ other = mail) (thread : ThreadId)
    (held : after.threadOf other.id = some thread) : after.Alive thread := by
  rw [files.alive]
  by_cases own : other.id = mail.id
  next =>
    rw [own, files.own] at held
    cases held
    exact .inl rfl
  next =>
    have old : filed other := there.resolve_right (fun same => own (congrArg (fun mail => mail.id) same))
    rw [files.others other.id own] at held
    obtain ⟨before, was, now⟩ := Option.map_eq_some_iff.mp held
    by_cases inside : before ∈ absorb
    next =>
      rw [if_pos inside] at now
      exact .inl now.symm
    next =>
      rw [if_neg inside] at now
      subst now
      exact .inr ⟨housed other old before was, inside⟩

theorem arrive_sorted (filed : Mail -> Prop) (store : Conversations) (arrival : Instant × Mail)
    (sorted : Sorted filed store) (stored : (store.mails.get arrival.2.id.get).isSome)
    (unaided : ¬ Falls store arrival.2) (apart : ∀ other, filed other -> other ≠ arrival.2 -> other.id ≠ arrival.2.id) :
    Sorted (fun mail => filed mail ∨ mail = arrival.2) (arrive store arrival) ∧
      ∀ message, ((arrive store arrival).mails.get message).isSome = (store.mails.get message).isSome := by
  have alive : ∀ thread ∈ store.linked arrival.2.accountId arrival.2, store.Alive thread := by
    intro thread member
    obtain ⟨key, -, claimed⟩ := (mem_linked store arrival.2 thread).mp member
    exact claimed_alive store sorted.standing key thread claimed
  have decided := assign_unaided store arrival.2 unaided
  rcases store.file_files arrival.1 arrival.2.accountId arrival.2 (store.linked arrival.2.accountId arrival.2) decided alive stored with
    ⟨files, none⟩ | ⟨target, absorb, files, outside, member⟩
  next =>
    have adds := files_adds filed store _ arrival.2 _ [] files (by simp [none]) (by simp)
      (.inr ⟨by simp [none], fun other there held => by
        have before := store.alive_lt _ (sorted.housed other there _ held)
        exact Nat.lt_irrefl _ before⟩) apart
    exact ⟨⟨files.standing sorted.standing, files_housed filed store _ arrival.2 _ [] files sorted.housed,
      adds.clustered labels filed _ _ arrival.2 _ _ _ sorted.clustered⟩, files.stored⟩
  next =>
    have adds := files_adds filed store _ arrival.2 target absorb files (fun thread => (member thread).mp)
      (fun thread inside => (member thread).mpr (.inr inside)) (.inl ((member target).mpr (.inl rfl))) apart
    exact ⟨⟨files.standing sorted.standing, files_housed filed store _ arrival.2 target absorb files sorted.housed,
      adds.clustered labels filed _ _ arrival.2 _ _ _ sorted.clustered⟩, files.stored⟩

theorem run_sorted (arrivals : List (Instant × Mail)) (filed : Mail -> Prop) (store : Conversations)
    (sorted : Sorted filed store) (stored : ∀ arrival ∈ arrivals, (store.mails.get arrival.2.id.get).isSome)
    (unaided : Run.Along arrive (fun store arrival => ¬ Falls store arrival.2) store arrivals)
    (apart : (arrivals.map (fun arrival => arrival.2.id)).Nodup)
    (new : ∀ other, filed other -> ∀ arrival ∈ arrivals, other.id ≠ arrival.2.id) :
    Sorted (fun mail => filed mail ∨ mail ∈ arrivals.map Prod.snd) (Run.run arrive store arrivals) := by
  induction arrivals generalizing filed store with
  | nil => simpa using sorted
  | cons arrival rest ih =>
    obtain ⟨here, later⟩ := unaided
    obtain ⟨head, tail⟩ := List.nodup_cons.mp apart
    obtain ⟨next, kept⟩ := arrive_sorted filed store arrival sorted (stored arrival List.mem_cons_self) here
      (fun other there _ => new other there arrival List.mem_cons_self)
    have rested := ih (fun mail => filed mail ∨ mail = arrival.2) (arrive store arrival) next
      (fun other member => (kept _).trans (stored other (List.mem_cons_of_mem arrival member))) later tail ?_
    next =>
      rw [Run.run_cons]
      simpa only [List.map_cons, List.mem_cons, or_assoc] using rested
    next =>
      rintro other (old | rfl) one member same
      next => exact new other old one (List.mem_cons_of_mem arrival member) same
      next => exact head (List.mem_map.mpr ⟨one, member, same.symm⟩)

/-- Filed with no help from a subject, messages are together exactly when their ids connect them, in whatever order they
arrive, and no claim is of a thread that is gone. -/
theorem partition_connected (store : Conversations) (arrivals : List (Instant × Mail)) (unclaimed : store.links = [])
    (apart : (arrivals.map (fun arrival => arrival.2.id)).Nodup)
    (stored : ∀ arrival ∈ arrivals, (store.mails.get arrival.2.id.get).isSome)
    (unaided : Run.Along arrive (fun store arrival => ¬ Falls store arrival.2) store arrivals) :
    (∀ mail ∈ arrivals.map Prod.snd, ∃ thread, (Run.run arrive store arrivals).threadOf mail.id = some thread) ∧
      (∀ first ∈ arrivals.map Prod.snd, ∀ second ∈ arrivals.map Prod.snd,
        ((Run.run arrive store arrivals).threadOf first.id = (Run.run arrive store arrivals).threadOf second.id <->
          Clusters.Connected labels (fun mail => mail ∈ arrivals.map Prod.snd) first second)) ∧
      Standing (Run.run arrive store arrivals) ∧
      ∀ again : List (Instant × Mail), (again.map Prod.snd).Perm (arrivals.map Prod.snd) ->
        Run.Along arrive (fun store arrival => ¬ Falls store arrival.2) store again ->
        ∀ first ∈ arrivals.map Prod.snd, ∀ second ∈ arrivals.map Prod.snd,
          ((Run.run arrive store again).threadOf first.id = (Run.run arrive store again).threadOf second.id <->
            (Run.run arrive store arrivals).threadOf first.id = (Run.run arrive store arrivals).threadOf second.id) := by
  have nothing : Sorted (fun _ => False) store :=
    ⟨fun link member => by simp [unclaimed] at member, fun _ impossible => impossible.elim,
      Clusters.nothing_clustered labels _ _ _ (fun _ impossible => impossible) (fun key => by simp [claimOf, unclaimed])⟩
  have sorted : ∀ some : List (Instant × Mail), (some.map Prod.snd).Perm (arrivals.map Prod.snd) ->
      Run.Along arrive (fun store arrival => ¬ Falls store arrival.2) store some ->
      Sorted (fun mail => mail ∈ arrivals.map Prod.snd) (Run.run arrive store some) := by
    intro some same along
    have ids : (some.map (fun arrival => arrival.2.id)).Nodup := by
      have mapped := same.map (fun mail => mail.id)
      rw [List.map_map, List.map_map] at mapped
      exact mapped.nodup_iff.mpr apart
    have kept := run_sorted some (fun _ => False) store nothing ?_ along ids (fun _ impossible => impossible.elim)
    next => simpa only [false_or, same.mem_iff] using kept
    next =>
      intro arrival member
      obtain ⟨other, there, equal⟩ := List.mem_map.mp (same.mem_iff.mp (List.mem_map_of_mem (f := Prod.snd) member))
      rw [← equal]
      exact stored other there
  have one := sorted arrivals (List.Perm.refl _) unaided
  refine ⟨fun mail member => one.clustered.placed mail member, fun first there second here => ?_, one.standing, ?_⟩
  next => exact one.clustered.same_iff labels _ _ _ first second there here
  next =>
    intro again same along first there second here
    have other := sorted again same along
    exact (other.clustered.same_iff labels _ _ _ first second there here).trans
      (one.clustered.same_iff labels _ _ _ first second there here).symm

/-- A plain message, not filed yet. -/
def unfiled (id : Nat) (named : Option RfcMessageId) (references : List RfcMessageId) (subject : Option Subject) : Mail where
  id := ⟨id⟩
  accountId := ⟨1⟩
  mailboxId := ⟨1⟩
  threadId := none
  rfcMessageId := named
  source := []
  flags := ∅
  labels := ∅
  receivedAt := id
  sortAt := id
  deletedLocally := false
  snoozedUntil := none
  sendState := none
  remoteId := none
  subject := subject
  inReplyTo := none
  references := references
  hasAttachments := false

/-- A reply, a message of its own, and what the first replies to. -/
def lateParent : Conversations where
  mails := (((Table.empty (fun mail : Mail => mail.id.get)).insert
    (fun id => unfiled id (some ['b']) [['a']] none) (fun _ => rfl)).insert
      (fun id => unfiled id (some ['c']) [] none) (fun _ => rfl)).insert
        (fun id => unfiled id (some ['a']) [] none) (fun _ => rfl)
  threads := Table.empty (fun thread : ThreadRow => thread.id.get)
  links := []

def lateArrivals : List (Instant × Mail) :=
  [(1, unfiled 1 (some ['b']) [['a']] none), (2, unfiled 2 (some ['c']) [] none), (3, unfiled 3 (some ['a']) [] none)]

theorem partition_late_parent :
    (Run.run arrive lateParent lateArrivals).threadOf ⟨1⟩ = (Run.run arrive lateParent lateArrivals).threadOf ⟨3⟩ ∧
      (Run.run arrive lateParent lateArrivals).threadOf ⟨1⟩ ≠
        (Run.run arrive lateParent lateArrivals).threadOf ⟨2⟩ := by
  have unaided : Run.Along arrive (fun store arrival => ¬ Falls store arrival.2) lateParent lateArrivals :=
    ⟨fun falls => absurd falls.2.1 (by decide), fun falls => absurd falls.2.1 (by decide),
      fun falls => absurd falls.2.1 (by decide), trivial⟩
  obtain ⟨-, together, -⟩ := partition_connected lateParent lateArrivals rfl (by decide) (by decide) unaided
  constructor
  next =>
    apply (together (unfiled 1 (some ['b']) [['a']] none) (by decide) (unfiled 3 (some ['a']) [] none) (by decide)).mpr
    exact .single ⟨by decide, by decide, (⟨1⟩, ['a']), by decide, by decide⟩
  next => decide

end Conversations

end Postio

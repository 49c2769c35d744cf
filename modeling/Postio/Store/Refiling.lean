import Postio.Store.ThreadPartition

set_option autoImplicit false

namespace Postio

namespace Conversations

/-! ### A message filed again -/

/-- Its own thread, the threads there are and every claim are what they were. -/
structure Unchanged (store after : Conversations) (message : MessageId) : Prop where
  membership : after.threadOf message = store.threadOf message
  threads : ∀ thread, after.Alive thread <-> store.Alive thread
  claims : ∀ key, after.claimOf key = store.claimOf key

variable (store : Conversations) (now : Instant) (account : AccountId) (mail : Mail) (current : ThreadId)

def LeadsBack : Prop :=
  -- Its ids, or failing any its subject, lead to the thread it is in and to no other.
  if (ThreadCue.of mail).claimedIds = [] then
    (ThreadCue.of mail).subjectIsUsable = true ∧
      ∀ thread, thread ∈ (store.index account none).threadsWithSubject (ThreadCue.of mail).subject <-> thread = current
  else ∀ id ∈ (ThreadCue.of mail).claimedIds, store.claimOf (account, id) = some current

theorem stored_settle (cue : ThreadCue) (assignment : Assignment) (message : Nat) :
    ((store.settle now account cue assignment).1.mails.get message).isSome = (store.mails.get message).isSome := by
  cases assignment with
  | new => rfl
  | join thread => rfl
  | merge into absorb => exact stored_absorbed store now into absorb message

theorem file_own (stored : (store.mails.get mail.id.get).isSome) :
    (store.file now account mail).1.threadOf mail.id = some (store.file now account mail).2 := by
  -- Whatever was decided, the message is in the thread that claims its ids.
  unfold file apply
  dsimp only
  rw [threadOf_claims]
  exact threadOf_addMessage_own _ now _ mail.id ((stored_settle store now account _ _ mail.id.get).trans stored)

theorem file_claims (id : RfcMessageId) (named : id ∈ (ThreadCue.of mail).claimedIds) :
    (store.file now account mail).1.claimOf (account, id) = some (store.file now account mail).2 := by
  unfold file apply
  dsimp only
  rw [claimOf_claims, if_pos ⟨rfl, named⟩]

theorem links_claimed (cue : ThreadCue) (id : RfcMessageId) : id ∈ cue.links <-> id ∈ cue.claimedIds := by
  simp [ThreadCue.links, ThreadCue.claimedIds]

theorem mem_linked_claimed (thread : ThreadId) :
    thread ∈ store.linked account mail <->
      ∃ id ∈ (ThreadCue.of mail).claimedIds, store.claimOf (account, id) = some thread := by
  unfold linked
  rw [List.mem_filterMap]
  simp only [links_claimed, index_claimOf]

theorem assign_linked (linked : store.linked account mail ≠ []) :
    assign (.of mail) (store.index account none) = decision (store.linked account mail) := by
  rw [assign_decision]
  change decision (if (store.linked account mail).isEmpty && _ then _ else store.linked account mail) = _
  rw [if_neg]
  simp [linked]

theorem assign_subject (unlinked : store.linked account mail = []) (usable : (ThreadCue.of mail).subjectIsUsable = true) :
    assign (.of mail) (store.index account none) =
      decision ((store.index account none).threadsWithSubject (ThreadCue.of mail).subject) := by
  rw [assign_decision]
  change decision (if (store.linked account mail).isEmpty && _ then _ else store.linked account mail) = _
  rw [if_pos]
  simp [unlinked, usable]

theorem assign_alone (unlinked : store.linked account mail = []) (unusable : (ThreadCue.of mail).subjectIsUsable = false) :
    assign (.of mail) (store.index account none) = .new := by
  rw [assign_decision]
  change decision (if (store.linked account mail).isEmpty && _ then _ else store.linked account mail) = _
  rw [if_neg (by simp [unusable]), unlinked]
  rfl

theorem decision_single (found : List ThreadId) (thread : ThreadId) (all : ∀ other, other ∈ found <-> other = thread) :
    decision found = .join thread := by
  -- Where one thread is found, however often, the message joins it.
  rcases decision_cases found with ⟨-, none⟩ | ⟨into, absorb, outside, member, ⟨join, -⟩ | ⟨-, some⟩⟩
  next =>
    have here := (all thread).mpr rfl
    simp [none] at here
  next => rw [join, (all into).mp ((member into).mpr (.inl rfl))]
  next =>
    obtain ⟨other, inside⟩ := List.exists_mem_of_ne_nil absorb some
    have same := (all other).mp ((member other).mpr (.inr inside))
    have target := (all into).mp ((member into).mpr (.inl rfl))
    rw [same, ← target] at inside
    exact absurd inside outside

theorem subject_alive (subject : List Char) (thread : ThreadId)
    (found : thread ∈ (store.index account none).threadsWithSubject subject) : store.Alive thread := by
  have listed := List.mem_of_mem_filter found
  obtain ⟨row, member, rfl⟩ := List.mem_map.mp listed
  exact Option.isSome_iff_exists.mpr
    ⟨row, (store.threads.get_eq_some row.id.get row).mpr ⟨List.mem_of_mem_filter member, rfl⟩⟩

theorem joined_unchanged (filed : store.threadOf mail.id = some current)
    (joins : assign (.of mail) (store.index account none) = .join current)
    (claimed : ∀ id ∈ (ThreadCue.of mail).claimedIds, store.claimOf (account, id) = some current) :
    Unchanged store (store.file now account mail).1 mail.id := by
  -- A message that joins the thread it is in, which claims its ids, changes nothing.
  have stored := store.there_of_threadOf mail.id current filed
  unfold file apply
  rw [joins]
  change Unchanged store ((ThreadCue.of mail).claimedIds.foldl (fun store id => store.claim account current id)
    (store.addMessage now current mail.id)) mail.id
  refine ⟨?_, fun thread => ?_, fun key => ?_⟩
  next => rw [threadOf_claims, threadOf_addMessage_own store now current mail.id stored, filed]
  next => rw [alive_claims, alive_addMessage]
  next =>
    rw [claimOf_claims]
    split
    next mine =>
      have held := claimed key.2 mine.2
      rw [← mine.1] at held
      exact held.symm
    next =>
      unfold claimOf
      rw [links_addMessage]

theorem absorbed_gone (into : ThreadId)
    (absorb : List ThreadId) (merges : assign (.of mail) (store.index account none) = .merge into absorb)
    (outside : into ∉ absorb) (thread : ThreadId) (inside : thread ∈ absorb) :
    ¬ (store.file now account mail).1.Alive thread := by
  -- A thread that was found and folded away is gone.
  unfold file apply
  rw [merges]
  change ¬ Alive ((ThreadCue.of mail).claimedIds.foldl (fun store id => store.claim account into id)
    ((absorb.foldl (absorbInto now into) store).addMessage now into mail.id)) thread
  rw [alive_claims, alive_addMessage, alive_folded now into absorb outside]
  exact fun alive => alive.2 inside

theorem begun_new (begins : assign (.of mail) (store.index account none) = .new) :
    (store.file now account mail).1.Alive ⟨store.threads.nextId⟩ ∧ ¬ store.Alive ⟨store.threads.nextId⟩ := by
  -- A thread that is begun was not there.
  constructor
  next =>
    unfold file apply
    rw [begins]
    change Alive ((ThreadCue.of mail).claimedIds.foldl (fun store id => store.claim account ⟨_⟩ id)
      ((store.create account _).1.addMessage now ⟨_⟩ mail.id)) _
    rw [alive_claims, alive_addMessage, alive_create]
    exact .inl rfl
  next =>
    intro alive
    exact Nat.lt_irrefl _ (store.alive_lt _ alive)

/-- Filing a message again changes nothing exactly when what it is filed by leads back to its own thread. -/
theorem refiled_unchanged_iff (filed : store.threadOf mail.id = some current) :
    Unchanged store (store.file now account mail).1 mail.id <-> LeadsBack store account mail current := by
  have stored := store.there_of_threadOf mail.id current filed
  unfold LeadsBack
  by_cases nameless : (ThreadCue.of mail).claimedIds = []
  next =>
    rw [if_pos nameless]
    have unlinked : store.linked account mail = [] := by
      apply List.eq_nil_iff_forall_not_mem.mpr
      intro thread member
      obtain ⟨id, named, -⟩ := (mem_linked_claimed store account mail thread).mp member
      simp [nameless] at named
    constructor
    next =>
      intro unchanged
      have kept : ∀ thread, store.Alive thread -> (store.file now account mail).1.Alive thread :=
        fun thread alive => (unchanged.threads thread).mpr alive
      have begun : assign (.of mail) (store.index account none) ≠ .new := by
        intro begins
        obtain ⟨after, before⟩ := begun_new store now account mail begins
        exact before ((unchanged.threads _).mp after)
      cases usable : (ThreadCue.of mail).subjectIsUsable with
      | false => exact absurd (assign_alone store account mail unlinked usable) begun
      | true =>
        refine ⟨rfl, ?_⟩
        have decided := assign_subject store account mail unlinked usable
        rcases decision_cases ((store.index account none).threadsWithSubject (ThreadCue.of mail).subject) with
          ⟨new, -⟩ | ⟨into, absorb, outside, member, ⟨join, alone⟩ | ⟨merge, some⟩⟩
        next => exact absurd (decided.trans new) begun
        next =>
          have target : (store.file now account mail).2 = into := by
            unfold file apply
            rw [decided, join]
            rfl
          have own := store.file_own now account mail stored
          rw [unchanged.membership, filed, target] at own
          cases own
          intro thread
          rw [member, alone]
          simp
        next =>
          obtain ⟨other, inside⟩ := List.exists_mem_of_ne_nil absorb some
          have alive := subject_alive store account _ other ((member other).mpr (.inr inside))
          exact absurd (kept other alive)
            (absorbed_gone store now account mail into absorb (decided.trans merge) outside other inside)
    next =>
      rintro ⟨usable, only⟩
      apply joined_unchanged store now account mail current filed
      next => exact (assign_subject store account mail unlinked usable).trans (decision_single _ current only)
      next => simp [nameless]
  next =>
    rw [if_neg nameless]
    constructor
    next =>
      intro unchanged id named
      have own := store.file_own now account mail stored
      rw [unchanged.membership, filed] at own
      rw [← unchanged.claims, store.file_claims now account mail id named, ← own]
    next =>
      intro claimed
      have only : ∀ thread, thread ∈ store.linked account mail <-> thread = current := by
        intro thread
        rw [mem_linked_claimed]
        constructor
        next =>
          rintro ⟨id, named, held⟩
          exact Option.some.inj (held.symm.trans (claimed id named))
        next =>
          rintro rfl
          obtain ⟨id, named⟩ := List.exists_mem_of_ne_nil _ nameless
          exact ⟨id, named, claimed id named⟩
      have linked : store.linked account mail ≠ [] := List.ne_nil_of_mem ((only current).mpr rfl)
      exact joined_unchanged store now account mail current filed
        ((assign_linked store account mail linked).trans (decision_single _ current only)) claimed

def nameless : Conversations where
  mails := (Table.empty (fun mail : Mail => mail.id.get)).insert (fun id => unfiled id none [] none) (fun _ => rfl)
  threads := Table.empty (fun thread : ThreadRow => thread.id.get)
  links := []

theorem refiled_splits :
    (arrive nameless (1, unfiled 1 none [] none)).threadOf ⟨1⟩ = some ⟨1⟩ ∧
      ¬ Unchanged (arrive nameless (1, unfiled 1 none [] none))
        ((arrive nameless (1, unfiled 1 none [] none)).file 2 ⟨1⟩ (unfiled 1 none [] none)).1 ⟨1⟩ := by
  constructor
  next => decide
  next =>
    intro unchanged
    have moved := unchanged.membership
    revert moved
    decide

theorem refiled_reply_unchanged :
    Unchanged (Run.run arrive lateParent lateArrivals)
      ((Run.run arrive lateParent lateArrivals).file 4 ⟨1⟩ (unfiled 1 (some ['b']) [['a']] none)).1 ⟨1⟩ :=
  (refiled_unchanged_iff (Run.run arrive lateParent lateArrivals) 4 ⟨1⟩ (unfiled 1 (some ['b']) [['a']] none) ⟨1⟩
    (by decide)).mpr (by
      unfold LeadsBack
      rw [if_neg (by decide)]
      decide)

/-! ### A message filed by its subject -/

/-- No thread is folded into another, and no two other messages are brought together. -/
structure KeepsApart (store after : Conversations) (message : MessageId) : Prop where
  threads : ∀ thread, store.Alive thread -> after.Alive thread
  members : ∀ first second left right, first ≠ message -> second ≠ message -> store.threadOf first = some left ->
    store.threadOf second = some right -> left ≠ right -> after.threadOf first ≠ after.threadOf second

theorem unmerged_keepsApart (unmerged : ∀ into absorb, assign (.of mail) (store.index account none) ≠ .merge into absorb) :
    KeepsApart store (store.file now account mail).1 mail.id := by
  unfold file apply
  dsimp only
  generalize decided : assign (.of mail) (store.index account none) = assignment
  have members : ∀ message, (store.settle now account (.of mail) assignment).1.threadOf message =
      store.threadOf message := by
    intro message
    cases assignment with
    | new => rfl
    | join thread => rfl
    | merge into absorb => exact absurd decided (unmerged into absorb)
  have alive : ∀ thread, store.Alive thread ->
      (store.settle now account (.of mail) assignment).1.Alive thread := by
    intro thread held
    cases assignment with
    | new => exact (alive_create store account _ thread).mpr (.inr held)
    | join _ => exact held
    | merge into absorb => exact absurd decided (unmerged into absorb)
  constructor
  next =>
    intro thread held
    rw [alive_claims, alive_addMessage]
    exact alive thread held
  next =>
    intro first second left right one other here there different same
    rw [threadOf_claims, threadOf_claims, threadOf_addMessage_other _ now _ mail.id first one,
      threadOf_addMessage_other _ now _ mail.id second other, members, members, here, there] at same
    exact different (Option.some.inj same)

theorem decision_unmerged (found : List ThreadId) (single : ∀ first ∈ found, ∀ second ∈ found, first = second)
    (into : ThreadId) (absorb : List ThreadId) : decision found ≠ .merge into absorb := by
  intro merges
  rcases decision_cases found with ⟨new, -⟩ | ⟨target, folded, outside, member, ⟨join, -⟩ | ⟨-, some⟩⟩
  next => cases new.symm.trans merges
  next => cases join.symm.trans merges
  next =>
    obtain ⟨other, inside⟩ := List.exists_mem_of_ne_nil folded some
    have same := single other ((member other).mpr (.inr inside)) target ((member target).mpr (.inl rfl))
    rw [same] at inside
    exact outside inside

def hello (isReply : Bool) : Subject := { normalized := ['h'], isReply }

def coincidence : Conversations :=
  -- Two conversations that happen to be called the same, and an answer that names neither.
  Run.run arrive
    { mails := (((Table.empty (fun mail : Mail => mail.id.get)).insert
        (fun id => unfiled id (some ['a']) [] (some (hello false))) (fun _ => rfl)).insert
          (fun id => unfiled id (some ['b']) [] (some (hello false))) (fun _ => rfl)).insert
            (fun id => unfiled id (some ['c']) [] (some (hello true))) (fun _ => rfl)
      threads := Table.empty (fun thread : ThreadRow => thread.id.get)
      links := [] }
    [(1, unfiled 1 (some ['a']) [] (some (hello false))), (2, unfiled 2 (some ['b']) [] (some (hello false)))]

end Conversations

end Postio

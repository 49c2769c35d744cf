import Mathlib.Data.List.MinMax
import Postio.Lib.Table
import Postio.Store.MailStore

set_option autoImplicit false

namespace Postio

/-- A `Message-ID`, folded: the identity has no case. -/
abbrev RfcMessageId := List Char

/-- A subject, as threading reads it. -/
structure Subject where
  normalized : List Char
  isReply : Bool
  deriving DecidableEq

/-- A row of `messages`, with what threading reads of it besides. -/
structure Mail extends Message where
  subject : Option Subject
  inReplyTo : Option RfcMessageId
  references : List RfcMessageId
  hasAttachments : Bool
  deriving DecidableEq

def Mail.referenceChain (mail : Mail) : List RfcMessageId :=
  mail.references ++ (mail.inReplyTo.filter (fun parent => mail.references.getLast? ≠ some parent)).toList

structure ThreadCue where
  messageId : Option RfcMessageId
  references : List RfcMessageId
  subject : List Char
  isReply : Bool
  deriving DecidableEq

namespace ThreadCue

def of (mail : Mail) : ThreadCue where
  messageId := mail.rfcMessageId
  references := mail.referenceChain
  subject := mail.subject.elim [] Subject.normalized
  isReply := mail.subject.elim false Subject.isReply

variable (cue : ThreadCue)

def links : List RfcMessageId := cue.messageId.toList ++ cue.references.reverse

def subjectIsUsable : Bool := cue.isReply && !cue.subject.isEmpty

def claimedIds : List RfcMessageId := cue.messageId.toList ++ cue.references

end ThreadCue

inductive Assignment where
  | new
  | join (thread : ThreadId)
  | merge (into : ThreadId) (absorb : List ThreadId)
  deriving DecidableEq

structure ThreadIndex where
  threadOf : RfcMessageId -> Option ThreadId
  threadsWithSubject : List Char -> List ThreadId

def assign (cue : ThreadCue) (index : ThreadIndex) : Assignment :=
  -- The threads a message's ids lead to, or failing those its subject; the oldest of them takes the others in.
  let linked := cue.links.filterMap index.threadOf
  let found :=
    if linked.isEmpty && cue.subjectIsUsable then index.threadsWithSubject cue.subject else linked
  match found.dedup.insertionSort (fun first second => first.get ≤ second.get) with
  | [] => .new
  | [thread] => .join thread
  | into :: absorb => .merge into absorb

/-- A row of `threads`. -/
structure ThreadRow where
  id : ThreadId
  accountId : AccountId
  subject : Option (List Char)
  messageCount : Nat
  unreadCount : Nat
  hasAttachments : Bool
  isFlagged : Bool
  firstAt : Instant
  lastAt : Instant
  deriving DecidableEq

/-- One id a thread has claimed, at most one row an account and an id. -/
structure ThreadLink where
  accountId : AccountId
  id : RfcMessageId
  thread : ThreadId
  deriving DecidableEq

structure Conversations where
  mails : Table Mail (fun mail => mail.id.get)
  threads : Table ThreadRow (fun thread => thread.id.get)
  links : List ThreadLink

namespace Conversations

variable (store : Conversations) (now : Instant) (account : AccountId) (mail : Mail) (message : MessageId)

def members (thread : ThreadId) : List Mail :=
  store.mails.rows.filter (fun mail => mail.threadId = some thread && MailStore.visible (clock now) mail.toMessage)

def rootOf (members : List Mail) : Option Mail :=
  (members.insertionSort (fun first second => first.receivedAt < second.receivedAt ∨
    first.receivedAt = second.receivedAt ∧ first.id.get ≤ second.id.get)).head?

def recomputed (members : List Mail) (thread : ThreadRow) : ThreadRow :=
  -- What a thread's columns say of its members.
  { thread with
    subject := ((rootOf members).bind (fun root => root.subject.map Subject.normalized)).or thread.subject
    messageCount := members.length
    unreadCount := (members.filter (fun mail => decide (.seen ∉ mail.flags))).length
    hasAttachments := members.any Mail.hasAttachments
    isFlagged := members.any (fun mail => decide (.flagged ∈ mail.flags))
    firstAt := (members.map (fun mail => mail.receivedAt)).min?.getD 0
    lastAt := (members.map (fun mail => mail.sortAt)).max?.getD 0 }

def recompute (thread : ThreadId) : Conversations :=
  { store with
    threads := store.threads.updateAt thread.get (recomputed (store.members now thread)) (fun _ => rfl) }

def threadOf : Option ThreadId :=
  (store.mails.get message.get).bind (fun mail => mail.threadId)

def relabel (moved : Mail -> Bool) (thread : ThreadId) : Conversations :=
  -- Writes which thread some messages are in.
  { store with
    mails := store.mails.update (fun mail => if moved mail then { mail with threadId := some thread } else mail)
      (fun mail => by split <;> rfl) }

def addMessage (thread : ThreadId) (message : MessageId) : Conversations :=
  -- The thread left behind is recomputed as well as the one joined.
  let previous := store.threadOf message
  let joined := (store.relabel (fun mail => mail.id = message) thread).recompute now thread
  match previous with
  | some left => if left = thread then joined else joined.recompute now left
  | none => joined

def deleteThread (thread : ThreadId) : Conversations :=
  -- A thread's links go with its row.
  { store with
    threads := store.threads.removeAt thread.get
    links := store.links.filter (fun link => link.thread ≠ thread) }

def merge (keep absorb : ThreadId) : Conversations :=
  if keep = absorb then store.recompute now keep
  else ((store.relabel (fun mail => mail.threadId = some absorb) keep).deleteThread absorb).recompute now keep

def relink (absorbed into : ThreadId) : Conversations :=
  { store with
    links := store.links.map (fun link => if link.thread = absorbed then { link with thread := into } else link) }

def claim (thread : ThreadId) (id : RfcMessageId) : Conversations :=
  { store with
    links := store.links.filter (fun link => ¬ (link.accountId = account ∧ link.id = id)) ++
      [{ accountId := account, id, thread }] }

def create (subject : Option (List Char)) : Conversations × ThreadId :=
  ({ store with
      threads := store.threads.insert
        (fun id =>
          { id := ⟨id⟩
            accountId := account
            subject
            messageCount := 0
            unreadCount := 0
            hasAttachments := false
            isFlagged := false
            firstAt := 0
            lastAt := 0 })
        (fun _ => rfl) },
    ⟨store.threads.nextId⟩)

/-- What an account's store knows, read before it is asked. A thread may be left out of it. -/
def index (excluded : Option ThreadId) : ThreadIndex where
  threadOf := fun id =>
    ((store.links.find? (fun link => link.accountId = account && link.id = id)).map ThreadLink.thread).filter
      (fun thread => excluded ≠ some thread)
  threadsWithSubject := fun subject =>
    ((store.threads.rows.filter (fun thread => thread.accountId = account && thread.subject = some subject)).map
      ThreadRow.id).filter (fun thread => excluded ≠ some thread)

def absorbInto (into : ThreadId) (store : Conversations) (other : ThreadId) : Conversations :=
  (store.relink other into).merge now into other

/-- The thread an assignment comes to, made or merged as it requires. -/
def settle (cue : ThreadCue) :
    Assignment -> Conversations × ThreadId
  | .new => store.create account (if cue.subject.isEmpty then none else some cue.subject)
  | .join thread => (store, thread)
  | .merge into absorb => (absorb.foldl (absorbInto now into) store, into)

def apply (cue : ThreadCue) (assignment : Assignment) : Conversations × ThreadId :=
  let (ready, thread) := store.settle now account cue assignment
  (cue.claimedIds.foldl (fun store id => store.claim account thread id) (ready.addMessage now thread message), thread)

def file : Conversations × ThreadId :=
  store.apply now account mail.id (.of mail) (assign (.of mail) (store.index account none))

def reconsidered : Option (ThreadId × Assignment) :=
  -- Where the only member of a thread would be filed now, when that is somewhere else.
  match mail.threadId with
  | none => none
  | some current =>
    match store.threads.get current.get with
    | none => none
    | some row =>
      if row.messageCount ≠ 1 then none
      else
        match assign (.of mail) (store.index account (some current)) with
        | .new => none
        | assignment => some (current, assignment)

def reconsider : Conversations :=
  -- Files it there, and folds the thread it leaves away.
  match store.reconsidered account mail with
  | none => store
  | some (current, assignment) =>
    let (filed, thread) := store.apply now account mail.id (.of mail) assignment
    (filed.relink current thread).merge now thread current

/-! ### Where the messages are -/

theorem threadOf_recompute (thread : ThreadId) (message : MessageId) :
    (store.recompute now thread).threadOf message = store.threadOf message := rfl

theorem threadOf_claims (thread : ThreadId) (ids : List RfcMessageId) (message : MessageId) :
    (ids.foldl (fun store id => store.claim account thread id) store).threadOf message = store.threadOf message := by
  induction ids generalizing store with
  | nil => rfl
  | cons id rest ih => exact ih (store.claim account thread id)

theorem threadOf_relabel (moved : Mail -> Bool) (thread : ThreadId) (message : MessageId) :
    (store.relabel moved thread).threadOf message =
      (store.mails.get message.get).bind (fun mail => if moved mail then some thread else mail.threadId) := by
  simp only [threadOf, relabel, Table.get_update, Option.bind_map, Function.comp_def]
  congr 1
  funext mail
  split <;> rfl

theorem threadOf_addMessage (thread : ThreadId) (filed message : MessageId) :
    (store.addMessage now thread filed).threadOf message =
      (store.mails.get message.get).bind (fun mail => if mail.id = filed then some thread else mail.threadId) := by
  have joined : ((store.relabel (fun mail => mail.id = filed) thread).recompute now thread).threadOf message =
      (store.mails.get message.get).bind (fun mail => if mail.id = filed then some thread else mail.threadId) := by
    rw [threadOf_recompute, threadOf_relabel]
    simp only [decide_eq_true_eq]
  simp only [addMessage]
  cases store.threadOf filed with
  | none => exact joined
  | some left =>
    by_cases same : left = thread
    · simpa only [same, if_true] using joined
    · simpa only [same, if_false, threadOf_recompute] using joined

theorem mails_id (mail : Mail) (found : store.mails.get message.get = some mail) : mail.id = message:=
  MessageId.get_injective ((store.mails.get_eq_some message.get mail).mp found).2

theorem threadOf_addMessage_other (thread : ThreadId) (filed message : MessageId)
    (other : message ≠ filed) : (store.addMessage now thread filed).threadOf message = store.threadOf message := by
  rw [threadOf_addMessage, threadOf]
  cases found : store.mails.get message.get with
  | none => rfl
  | some mail => simp [mails_id store message mail found, other]

theorem threadOf_addMessage_own (thread : ThreadId) (message : MessageId)
    (there : (store.mails.get message.get).isSome) :
    (store.addMessage now thread message).threadOf message = some thread := by
  obtain ⟨mail, found⟩ := Option.isSome_iff_exists.mp there
  rw [threadOf_addMessage, found]
  simp [mails_id store message mail found]

theorem there_of_threadOf (thread : ThreadId)
    (found : store.threadOf message = some thread) : (store.mails.get message.get).isSome := by
  obtain ⟨mail, row, -⟩ := Option.bind_eq_some_iff.mp found
  exact Option.isSome_iff_exists.mpr ⟨mail, row⟩

theorem threadOf_merge (keep absorb : ThreadId) (message : MessageId)
    (apart : keep = absorb ∨ store.threadOf message ≠ some absorb) :
    (store.merge now keep absorb).threadOf message = store.threadOf message := by
  -- A merge moves what it absorbs, and nothing else.
  unfold merge
  split
  · rfl
  next different =>
    have outside := apart.resolve_left different
    rw [threadOf_recompute]
    have deleted : ((store.relabel (fun mail => mail.threadId = some absorb) keep).deleteThread absorb).threadOf message =
        (store.relabel (fun mail => mail.threadId = some absorb) keep).threadOf message := rfl
    rw [deleted, threadOf_relabel]
    rw [threadOf] at outside ⊢
    cases found : store.mails.get message.get with
    | none => rfl
    | some mail =>
      rw [found] at outside
      simp only [Option.bind_some] at outside ⊢
      simp [outside]

theorem threadOf_absorbed (into : ThreadId) (absorb : List ThreadId)
    (message : MessageId) (outside : ∀ thread ∈ absorb, store.threadOf message ≠ some thread) :
    (absorb.foldl (absorbInto now into) store).threadOf message = store.threadOf message := by
  induction absorb generalizing store with
  | nil => rfl
  | cons other rest ih =>
    have merged : (absorbInto now into store other).threadOf message = store.threadOf message :=
      threadOf_merge (store.relink other into) now into other message (.inr (outside other (by simp)))
    rw [List.foldl_cons, ih _ (fun thread member => by
      rw [merged]
      exact outside thread (List.mem_cons_of_mem _ member)), merged]

end Conversations

def Assignment.thread : Assignment -> Option ThreadId
  | .new => none
  | .join thread => some thread
  | .merge into _ => some into

def Assignment.absorbed : Assignment -> List ThreadId
  | .merge _ absorb => absorb
  | _ => []

namespace Conversations

variable (store : Conversations) (now : Instant) (account : AccountId)

/-- An assignment of `message` takes a watched message nowhere: it absorbs no thread it is in, and if it is the one
filed, it is filed where it is. -/
def Leaves (assignment : Assignment) (message watched : MessageId) : Prop :=
  (∀ thread ∈ assignment.absorbed, store.threadOf watched ≠ some thread) ∧
    (watched = message -> assignment.thread.isSome ∧ store.threadOf watched = assignment.thread)

instance (store : Conversations) (assignment : Assignment) (message watched : MessageId) :
    Decidable (store.Leaves assignment message watched) := inferInstanceAs (Decidable (_ ∧ _))

theorem threadOf_settle (cue : ThreadCue) (assignment : Assignment) (message : MessageId)
    (outside : ∀ thread ∈ assignment.absorbed, store.threadOf message ≠ some thread) :
    (store.settle now account cue assignment).1.threadOf message = store.threadOf message := by
  cases assignment with
  | new => rfl
  | join => rfl
  | merge into absorb => exact threadOf_absorbed store now into absorb message outside

theorem threadOf_apply (message watched : MessageId)
    (cue : ThreadCue) (assignment : Assignment) (leaves : store.Leaves assignment message watched) :
    (store.apply now account message cue assignment).1.threadOf watched = store.threadOf watched := by
  obtain ⟨outside, own⟩ := leaves
  have settled := threadOf_settle store now account cue assignment watched outside
  simp only [apply]
  rw [threadOf_claims]
  by_cases same : watched = message
  · obtain ⟨joined, there⟩ := own same
    obtain ⟨thread, target⟩ := Option.isSome_iff_exists.mp joined
    rw [target] at there
    subst same
    have present := there_of_threadOf _ watched thread (settled.trans there)
    rw [threadOf_addMessage_own _ now _ watched present, there, ← target]
    cases assignment with
    | new => cases target
    | join => rfl
    | merge => rfl
  · rw [threadOf_addMessage_other _ now _ message watched same, settled]

theorem threadOf_reconsidered (mail : Mail) (current : ThreadId)
    (assignment : Assignment) (moved : store.reconsidered account mail = some (current, assignment)) :
    mail.threadId = some current := by
  unfold reconsidered at moved
  split at moved
  next => cases moved
  next thread joined =>
    split at moved
    next => cases moved
    next =>
      split at moved
      next => cases moved
      next =>
        split at moved
        next => cases moved
        next =>
          cases moved
          exact joined

/-! ### Filing removes no message -/

theorem isSome_addMessage (thread : ThreadId) (filed : MessageId) (id : Nat) :
    ((store.addMessage now thread filed).mails.get id).isSome = (store.mails.get id).isSome := by
  have joined : (((store.relabel (fun mail => mail.id = filed) thread).recompute now thread).mails.get id).isSome =
      (store.mails.get id).isSome := by
    simp [recompute, relabel, Table.get_update]
  simp only [addMessage]
  cases store.threadOf filed with
  | none => exact joined
  | some left =>
    by_cases same : left = thread
    · simpa only [same, if_true] using joined
    · simp only [same, if_false]
      exact joined

theorem isSome_merge (keep absorb : ThreadId) (id : Nat) :
    ((store.merge now keep absorb).mails.get id).isSome = (store.mails.get id).isSome := by
  by_cases same : keep = absorb
  · simp [merge, same, recompute]
  · simp [merge, same, recompute, deleteThread, relabel, Table.get_update]

theorem isSome_claims (thread : ThreadId) (ids : List RfcMessageId) (id : Nat) :
    ((ids.foldl (fun store id => store.claim account thread id) store).mails.get id).isSome =
      (store.mails.get id).isSome := by
  induction ids generalizing store with
  | nil => rfl
  | cons claimed rest ih => exact ih (store.claim account thread claimed)

theorem isSome_settle (cue : ThreadCue) (assignment : Assignment) (id : Nat) :
    ((store.settle now account cue assignment).1.mails.get id).isSome = (store.mails.get id).isSome := by
  cases assignment with
  | new => rfl
  | join => rfl
  | merge into absorb =>
    simp only [settle]
    induction absorb generalizing store with
    | nil => rfl
    | cons other rest ih =>
      rw [List.foldl_cons, ih]
      exact isSome_merge (store.relink other into) now into other id

theorem isSome_apply (message : MessageId) (cue : ThreadCue) (assignment : Assignment) (id : Nat) :
    ((store.apply now account message cue assignment).1.mails.get id).isSome = (store.mails.get id).isSome := by
  simp only [apply]
  rw [isSome_claims, isSome_addMessage, isSome_settle]

theorem threadOf_filed (mail : Mail) (there : (store.mails.get mail.id.get).isSome) :
    (store.file now account mail).1.threadOf mail.id = some (store.file now account mail).2 := by
  -- A message that is there is filed into the thread the filing answers with.
  simp only [file, apply]
  rw [threadOf_claims]
  apply threadOf_addMessage_own
  rw [isSome_settle]
  exact there

end Conversations

end Postio

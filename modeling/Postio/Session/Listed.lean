import Mathlib.Algebra.Group.Nat.Defs
import Mathlib.Algebra.GroupWithZero.Nat
import Mathlib.Data.List.MinMax
import Mathlib.Data.Prod.Lex
import Postio.Session.Aim
import Postio.Lib.Windows

set_option autoImplicit false

namespace Postio

/-- Which of an inbox's messages are rows of a list over it. -/
inductive Membership where
  | folder
  | focus
  deriving DecidableEq

namespace MailStore

def test (store : MailStore) (now : Instant) : Membership -> Message -> Bool
  | .folder, row => visible now row
  | .focus, row => visible now row && !store.focusExcludes row

def outranks (newer row : Message) : Bool :=
  row.sortAt < newer.sortAt || row.sortAt = newer.sortAt && row.id.get < newer.id.get

variable (store : MailStore) (now : Instant) (membership : Membership) (mailbox : MailboxId) (row : Message)
    (inboxes : List MailboxId) (rep : Message)

def representative :
    Bool :=
  -- A message of a folder that no newer member of its conversation there outranks.
  row.mailboxId = mailbox && store.test now membership row &&
    !store.messages.rows.any (fun newer => newer.mailboxId = mailbox && store.test now membership newer &&
      newer.threadId.isSome && newer.threadId = row.threadId && outranks newer row)

def slice (row : Message) :
    Bool :=
  row.threadId.isSome && row.threadId = rep.threadId && row.mailboxId = mailbox && store.test now membership row

def folderRows : List Message :=
  store.messages.rows.filter (store.representative now membership mailbox)

def unifiedInboxes : List (AccountId × MailboxId) :=
  (store.accounts.filter (fun row => row.enabled && !row.pendingDeletion)).filterMap (fun row =>
    (store.byRole row.id .inbox).map (fun inbox => (row.id, inbox.id)))

def inboxesOf (accounts : List AccountId) : List MailboxId :=
  (store.unifiedInboxes.filter (fun inbox => accounts.contains inbox.1)).map Prod.snd

def copies (thread : ThreadId) : List ThreadId :=
  ((store.thread thread).toList.flatMap (store.groupPartners now)).map Thread.id

def inView (row : Message) :
    Bool :=
  inboxes.contains row.mailboxId && store.test now membership row

def absorbed :
    Bool :=
  -- A row with a newer copy in view is that copy's row. With one inbox nothing can fold.
  rep.threadId.any (fun thread => (store.copies now thread).any (fun copy =>
    store.messages.rows.any (fun newer =>
      newer.threadId = some copy && store.inView now membership inboxes newer && outranks newer rep)))

def foldedRows : List Message :=
  (inboxes.flatMap (store.folderRows now membership)).filter (fun rep => !store.absorbed now membership inboxes rep)

def ofGroup (thread : ThreadId) (row : Message) : Bool :=
  row.threadId.any (fun own => own = thread || (store.copies now thread).contains own)

def folded (row : Message) :
    Bool :=
  row = rep || store.inView now membership inboxes row && rep.threadId.any (fun thread => store.ofGroup now thread row)

def outgoing : Bool :=
  -- On its way, or gone.
  match row.sendState with
  | some .queued | some .sending | some .sent => true
  | _ => false

/-- The messages a view's list stands for. Drafts does not thread, and neither does a view that is no folder. -/
def listed : ViewScope -> Message -> Bool
  | .mailbox mailbox, row =>
    (store.mailbox mailbox).any (fun folder =>
      if folder.role = .drafts then row.mailboxId = mailbox && !outgoing row && visible now row
      else (store.folderRows now .folder mailbox).any (fun rep =>
        row = rep || store.slice now .folder mailbox rep row))
  | .flagged account, row => row.accountId = account && decide (.flagged ∈ row.flags) && visible now row
  | .unified accounts, row =>
    (store.foldedRows now .folder (store.inboxesOf accounts)).any (fun rep =>
      store.folded now .folder (store.inboxesOf accounts) rep row)
  | .focus accounts, row =>
    (store.foldedRows now .focus (store.inboxesOf accounts)).any (fun rep =>
      store.folded now .focus (store.inboxesOf accounts) rep row)

/-- What a deselected row takes out of its view: in a list of messages itself, and in a list of conversations its
conversation, with the copies folded into it. -/
def deselected : ViewScope -> MessageId -> Message -> Bool
  | .mailbox mailbox, id, row =>
    row.id = id || !(store.mailbox mailbox).any (fun folder => folder.role = .drafts) && row.threadId.isSome &&
      (store.messages.get id).any (fun other => other.threadId = row.threadId)
  | .flagged _, id, row => row.id = id
  | .unified _, id, row | .focus _, id, row =>
    row.id = id || (store.messages.get id).any (fun other =>
      other.threadId.any (fun thread => store.ofGroup now thread row))

/-! ### Every message in view is in some row -/

def rank : Int ×ₗ Nat := toLex (row.sortAt, row.id.get)

theorem outranks_iff (newer row : Message) : outranks newer row = true <-> rank row < rank newer := by
  simp [outranks, rank, Prod.Lex.toLex_lt_toLex]

theorem exists_representative (there : row ∈ store.messages.rows) (inside : row.mailboxId = mailbox)
    (shown : store.test now membership row = true) :
    ∃ rep ∈ store.folderRows now membership mailbox,
      (row = rep || store.slice now membership mailbox rep row) = true ∧ rep.threadId = row.threadId := by
  let members := store.messages.rows.filter (fun other =>
    other.mailboxId = mailbox && store.test now membership other && other.threadId = row.threadId)
  have own : row ∈ members := by
    simp [members, there, inside, shown]
  cases newest : members.argmax rank with
  | none =>
    rw [List.argmax_eq_none] at newest
    rw [newest] at own
    cases own
  | some rep =>
    have member := List.argmax_mem newest
    simp only [members, List.mem_filter, Bool.and_eq_true, decide_eq_true_eq] at member
    obtain ⟨present, ⟨here, visible⟩, same⟩ := member
    by_cases alone : row.threadId = none
    · -- A message in no conversation stands for itself.
      refine ⟨row, List.mem_filter.mpr ⟨there, ?_⟩, by simp, rfl⟩
      simp [representative, inside, shown, alone]
      intro newer _ _ _ some none
      simp [none] at some
    · refine ⟨rep, List.mem_filter.mpr ⟨present, ?_⟩, ?_, same⟩
      · simp only [representative, here, visible, decide_true, Bool.true_and, Bool.not_eq_true', List.any_eq_false,
          Bool.and_eq_true, decide_eq_true_eq, not_and]
        rintro newer newerThere ⟨⟨⟨inMailbox, test⟩, _⟩, conversation⟩ above
        rw [outranks_iff] at above
        apply not_lt_of_ge (List.le_of_mem_argmax _ newest) above
        simp [members, newerThere, inMailbox, test, conversation, same]
      · simp [slice, same, inside, shown, Option.isSome_iff_ne_none.mpr alone]

theorem listed_folder (there : row ∈ store.messages.rows) :
    (store.folderRows now .folder mailbox).any (fun rep => row = rep || store.slice now .folder mailbox rep row) = true <->
      row.mailboxId = mailbox ∧ visible now row = true := by
  -- A folder's list stands for what the folder shows.
  constructor
  · intro drawn
    obtain ⟨rep, member, stands⟩ := List.any_eq_true.mp drawn
    rcases Bool.or_eq_true_iff.mp stands with same | sliced
    · have own := (List.mem_filter.mp member).2
      rw [← of_decide_eq_true same] at own
      simp only [representative, Bool.and_eq_true, decide_eq_true_eq] at own
      exact own.1
    · simp only [slice, Bool.and_eq_true, decide_eq_true_eq] at sliced
      exact ⟨sliced.1.2, sliced.2⟩
  · rintro ⟨inside, shown⟩
    obtain ⟨rep, member, stands, -⟩ := store.exists_representative now .folder mailbox row there inside shown
    exact List.any_eq_true.mpr ⟨rep, member, stands⟩

end MailStore

/-- Where a row stands in a list, as the cursor that resumes after it. -/
abbrev ThreadCursor := Int ×ₗ Nat

structure ThreadGroup where
  row : Message
  members : List (AccountId × ThreadId)
  deriving DecidableEq

structure Partner where
  thread : Thread
  drawnAt : ThreadCursor

/-- `saturating_add` of two `u32`. -/
def saturatingAdd (first second : UInt32) : Nat := min (first.toNat + second.toNat) (2 ^ 32 - 1)

/-- The raw rows read at once for a page of groups: `limit.max(2) * 2`, as a `u32`. -/
def batchOf (limit : Nat) : Nat := max limit 2 * 2 % 2 ^ 32

def conversationOf (row : Message) : ThreadId ⊕ MessageId :=
  -- A conversation, or a message in none under its own id.
  match row.threadId with
  | some thread => .inl thread
  | none => .inr row.id

namespace MailStore

variable (store : MailStore) (now : Instant) (membership : Membership)

def folderPage (mailbox : MailboxId) (limit : Nat) (cursor : Option ThreadCursor) : List Message :=
  Windows.window rank (Windows.sorted rank (store.folderRows now membership mailbox)) limit cursor

section inboxes

variable (inboxes : List (AccountId × MailboxId))

def rawPage (limit : Nat) (cursor : Option ThreadCursor) : List (AccountId × Message) :=
  (Windows.sorted (fun raw => rank raw.2) (inboxes.flatMap (fun inbox =>
    (store.folderPage now membership inbox.2 limit cursor).map (fun row => (inbox.1, row))))).take limit

def keyInView (thread : ThreadId) : Option ThreadCursor :=
  ((store.messages.rows.filter (fun row =>
    row.threadId = some thread && store.inView now membership (inboxes.map Prod.snd) row)).map rank).max?

def partnersInView (thread : Option ThreadId) : List Partner :=
  ((thread.bind store.thread).toList.flatMap (store.groupPartners now)).filterMap (fun partner =>
    (store.keyInView now membership inboxes partner.id).map (fun key => { thread := partner, drawnAt := key }))

def groupOf (raw : AccountId × Message) : Option ThreadGroup :=
  -- A row with a newer partner in view is that partner's row.
  let partners := store.partnersInView now membership inboxes raw.2.threadId
  if partners.any (fun partner => rank raw.2 < partner.drawnAt) then none
  else
    some
      { row := raw.2
        members := (raw.2.threadId.map (fun thread => (raw.1, thread))).toList ++
          partners.map (fun partner => (partner.thread.accountId, partner.thread.id)) }

/-- At most `limit` groups after a cursor. Folding takes rows out of a page, so windows are read until it is full. -/
def foldedPage (limit : Nat) (cursor : Option ThreadCursor) : List ThreadGroup :=
  Windows.fill (fun raw => rank raw.2) (store.groupOf now membership inboxes)
    (store.rawPage now membership inboxes (batchOf limit)) (batchOf limit) limit (store.messages.rows.length + 1) [] cursor

def folderCount (mailboxes : List MailboxId) : Nat :=
  ((store.messages.rows.filter (store.inView now membership mailboxes)).map conversationOf).dedup.length

def conversationKeys : List (ThreadId × ThreadCursor) :=
  -- Every conversation of the inboxes under its newest message there, inbox by inbox.
  inboxes.flatMap (fun inbox =>
    (Windows.sorted rank (store.messages.rows.filter (fun row =>
      row.mailboxId = inbox.2 && store.test now membership row))).filterMap (fun row =>
        row.threadId.map (fun thread => (thread, rank row))))

def conversationKey (thread : ThreadId) : Option ThreadCursor :=
  ((store.conversationKeys now membership inboxes).find? (fun entry => entry.1 = thread)).map Prod.snd

def absorbedCount : Nat :=
  -- How many of the inboxes' rows fold into another inbox's.
  ((store.threads.filter (fun thread =>
    ((store.conversationKeys now membership inboxes).map Prod.fst).contains thread.id)).filter (fun thread =>
      (store.groupPartners now thread).any (fun partner =>
        (store.conversationKey now membership inboxes partner.id).any (fun key =>
          (store.conversationKey now membership inboxes thread.id).any (fun own => own < key))))).length

end inboxes

def unifiedPageAt (limit offset : UInt32) (cursor : Option ThreadCursor) : List ThreadGroup :=
  if offset = 0 then store.foldedPage now .folder store.unifiedInboxes limit.toNat cursor
  else (store.foldedPage now .folder store.unifiedInboxes (saturatingAdd limit offset) cursor).drop offset.toNat

def unifiedCount : Nat :=
  let total := (store.unifiedInboxes.map (fun inbox => store.folderCount now .folder [inbox.2])).sum
  if store.unifiedInboxes.length < 2 then total % 2 ^ 32
  else (total - store.absorbedCount now .folder store.unifiedInboxes) % 2 ^ 32

def focusPageAt (inboxes : List (AccountId × MailboxId)) (limit offset : UInt32) (cursor : Option ThreadCursor) :
    List ThreadGroup :=
  -- Focus's inbox. With one inbox nothing can fold, and the window is the list's own.
  if inboxes.isEmpty || limit = 0 then []
  else if inboxes.length < 2 then
    ((Windows.after (fun raw => rank raw.2) cursor (Windows.sorted (fun raw => rank raw.2) (inboxes.flatMap (fun inbox =>
      (store.folderRows now .focus inbox.2).map (fun row => (inbox.1, row)))))).drop offset.toNat).take limit.toNat
      |>.map (fun raw => { row := raw.2, members := (raw.2.threadId.map (fun thread => (raw.1, thread))).toList })
  else (store.foldedPage now .focus inboxes (saturatingAdd limit offset) cursor).drop offset.toNat

def focusCount (inboxes : List (AccountId × MailboxId)) : Nat :=
  if inboxes.isEmpty then 0
  else if inboxes.length < 2 then store.folderCount now .focus (inboxes.map Prod.snd) % 2 ^ 32
  else (store.folderCount now .focus (inboxes.map Prod.snd) - store.absorbedCount now .focus inboxes) % 2 ^ 32

end MailStore

end Postio

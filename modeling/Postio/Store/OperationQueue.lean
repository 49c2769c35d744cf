import Mathlib.Data.List.Pairwise
import Postio.Model.Operation

set_option autoImplicit false

namespace Postio

/-- Milliseconds, as every time column stores them. -/
abbrev Instant := Int

structure QueuedOperation where
  id : OperationId
  accountId : AccountId
  target : OperationTarget
  operation : Operation
  inverse : Option Operation
  mailboxId : Option MailboxId
  state : OperationState
  attempts : Nat
  lastError : Option String
  nextAttemptAt : Option Instant
  createdAt : Instant
  updatedAt : Instant
  sourceRemoteId : Option RemoteId
  deriving DecidableEq

def QueuedOperation.unsettled (queued : QueuedOperation) : Bool := !queued.state.isSettled

/-- The rows in id order. The table is AUTOINCREMENT, so an id is never issued twice. -/
structure OperationQueue where
  rows : List QueuedOperation
  nextId : Nat
  ordered : rows.Pairwise (fun first second => first.id < second.id)
  issued : ∀ row ∈ rows, row.id.get < nextId
  deriving DecidableEq

namespace OperationQueue

def empty : OperationQueue :=
  { rows := [], nextId := 1, ordered := List.Pairwise.nil, issued := by simp }

variable (queue : OperationQueue) (accountId : AccountId) (id : OperationId) (row : OperationId -> QueuedOperation)
    (messages : List (MessageId × Option RemoteId)) (target : OperationTarget) (stamped : ∀ id, (row id).id = id)
    (operation : Operation) (now : Instant) (notBefore : Option Instant) (remoteId : Option RemoteId)

def insert : OperationQueue :=
  { rows := queue.rows ++ [row ⟨queue.nextId⟩]
    nextId := queue.nextId + 1
    ordered := by
      rw [List.pairwise_append]
      refine ⟨queue.ordered, List.pairwise_singleton _ _, ?_⟩
      intro first member second last
      simp only [List.mem_singleton] at last
      subst last
      simpa [OperationId.lt_def, stamped] using queue.issued first member
    issued := by
      intro row member
      rcases List.mem_append.mp member with old | new
      · exact Nat.lt_succ_of_lt (queue.issued row old)
      · simp only [List.mem_singleton] at new
        subst new
        simp [stamped] }

def update (change : QueuedOperation -> QueuedOperation) (kept : ∀ row, (change row).id = row.id) : OperationQueue :=
  -- Rewrites rows in place. No statement changes a row's id.
  { rows := queue.rows.map change
    nextId := queue.nextId
    ordered := by
      rw [List.pairwise_map]
      simpa only [kept] using queue.ordered
    issued := by
      intro row member
      obtain ⟨old, there, rfl⟩ := List.mem_map.mp member
      simpa only [kept] using queue.issued old there }

def remove (gone : QueuedOperation -> Bool) : OperationQueue :=
  { rows := queue.rows.filter (fun row => !gone row)
    nextId := queue.nextId
    ordered := queue.ordered.filter _
    issued := fun row member => queue.issued row (List.mem_of_mem_filter member) }

@[simp]
theorem insert_rows : (queue.insert row stamped).rows = queue.rows ++ [row ⟨queue.nextId⟩]:= rfl

@[simp]
theorem insert_nextId : (queue.insert row stamped).nextId = queue.nextId + 1:= rfl

@[simp]
theorem update_rows (change : QueuedOperation -> QueuedOperation) (kept : ∀ row, (change row).id = row.id) :
    (queue.update change kept).rows = queue.rows.map change := rfl

@[simp]
theorem remove_rows (gone : QueuedOperation -> Bool) :
    (queue.remove gone).rows = queue.rows.filter (fun row => !gone row) := rfl

def fresh (accountId : AccountId) (target : OperationTarget) (operation : Operation) (now : Instant)
    (notBefore : Option Instant) (remoteId : Option RemoteId) (id : OperationId) : QueuedOperation :=
  -- A fresh row, as `enqueue_inner` writes it.
  { id
    accountId
    target
    operation
    inverse := operation.inverse
    mailboxId := operation.mailbox
    state := .pending
    attempts := 0
    lastError := none
    nextAttemptAt := notBefore
    createdAt := now
    updatedAt := now
    sourceRemoteId := remoteId }

def enqueueInner :
    OperationQueue :=
  queue.insert (fresh accountId target operation now notBefore remoteId) (fun _ => rfl)

@[simp]
theorem enqueueInner_rows : (queue.enqueueInner accountId target operation now notBefore remoteId).rows =
      queue.rows ++ [fresh accountId target operation now notBefore remoteId ⟨queue.nextId⟩] := rfl

@[simp]
theorem enqueueInner_nextId :
    (queue.enqueueInner accountId target operation now notBefore remoteId).nextId = queue.nextId + 1 := rfl

/-- One row for each message, in id order, as the bulk `INSERT ... SELECT` writes them. -/
def enqueueEach : OperationQueue :=
  messages.foldl (fun queue message =>
    queue.enqueueInner accountId (.message message.1) operation now none message.2) queue

/-- The rows a bulk `INSERT ... SELECT` writes, numbered from the id given. -/
def freshRows (start : Nat) : List QueuedOperation :=
  (messages.zipIdx start).map (fun numbered =>
    fresh accountId (.message numbered.1.1) operation now none numbered.1.2 ⟨numbered.2⟩)

theorem enqueueEach_rows : (queue.enqueueEach accountId messages operation now).rows =
      queue.rows ++ freshRows accountId messages operation now queue.nextId := by
  induction messages generalizing queue with
  | nil => simp [enqueueEach, freshRows]
  | cons message rest ih =>
    have step := ih (queue.enqueueInner accountId (.message message.1) operation now none message.2)
    simp only [enqueueEach, List.foldl_cons] at step ⊢
    rw [step]
    simp [freshRows, List.zipIdx_cons]

theorem mem_freshRows (start : Nat) (row : QueuedOperation)
    (member : row ∈ freshRows accountId messages operation now start) :
    ∃ message ∈ messages, ∃ index, start ≤ index ∧ index < start + messages.length ∧
      row = fresh accountId (.message message.1) operation now none message.2 ⟨index⟩ := by
  obtain ⟨numbered, inside, rfl⟩ := List.mem_map.mp member
  obtain ⟨above, below, same⟩ := List.mem_zipIdx inside
  refine ⟨numbered.1, ?_, numbered.2, above, below, rfl⟩
  rw [same]
  exact List.getElem_mem _

def pending (queue : OperationQueue) (accountId : AccountId) (now : Instant) : List QueuedOperation :=
  queue.rows.filter (fun row => row.accountId = accountId && row.state = .pending &&
    row.nextAttemptAt.all (· ≤ now))

def pendingFor : Option QueuedOperation :=
  queue.rows.find? (fun row => row.target = target && row.unsettled)

def get : Option QueuedOperation :=
  queue.rows.find? (fun row => row.id = id)

def setState (state : OperationState) (now : Instant)
    (error : Option String) (countAttempt : Bool) : Option OperationQueue :=
  if queue.rows.any (fun row => row.id = id) then
    some (queue.update (fun row =>
      if row.id = id then
        { row with
          state
          attempts := row.attempts + countAttempt.toNat
          lastError := error.or row.lastError
          updatedAt := now }
      else row) (fun row => by split <;> rfl))
  else none

def markDone : Option OperationQueue :=
  queue.setState id .done now none false

def markFailed (error : String) :
    Option OperationQueue :=
  queue.setState id .failed now (some error) true

def defer (retryAt : Instant) (error : String) :
    Option OperationQueue :=
  if queue.rows.any (fun row => row.id = id) then
    some (queue.update (fun row =>
      if row.id = id then
        { row with
          state := .pending
          attempts := row.attempts + 1
          lastError := some error
          nextAttemptAt := some retryAt
          updatedAt := retryAt }
      else row) (fun row => by split <;> rfl))
  else none

def note (text : String) : Option OperationQueue :=
  if queue.rows.any (fun row => row.id = id) then
    some (queue.update (fun row => if row.id = id then { row with lastError := some text } else row)
      (fun row => by split <;> rfl))
  else none

def pruneSettled (before : Instant) : OperationQueue :=
  queue.remove (fun row => row.accountId = accountId && row.state.isSettled && decide (row.updatedAt < before))

def delete : OperationQueue :=
  queue.remove (fun row => row.id = id)

end OperationQueue

end Postio

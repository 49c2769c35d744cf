import Mathlib.Algebra.GroupWithZero.Nat
import Postio.Lib.Run
import Postio.Sync.DrainRows

set_option autoImplicit false

namespace Postio

def Operation.opType : Operation -> String
  | .setFlags _ => "set_flags"
  | .clearFlags _ => "clear_flags"
  | .move _ _ => "move"
  | .delete _ _ => "delete"
  | .expunge _ => "expunge"
  | .purge _ => "purge"
  | .append _ _ _ => "append"
  | .send _ => "send"
  | .saveDraft _ => "save_draft"
  | .discardDraft _ _ => "discard_draft"
  | .crossAccountCopy _ => "cross_account_copy"
  | .crossAccountRemove _ => "cross_account_remove"

/-- An operation the server will not accept, on its way to the user. -/
structure FailedOperation where
  rows : List OperationId
  target : OperationTarget
  opType : String
  reason : String
  deriving DecidableEq

/-- What one pass did, counted in queue rows rather than steps. -/
structure DrainReport where
  applied : Nat
  coalesced : Nat
  obsolete : Nat
  deferred : Nat
  failed : List FailedOperation
  uncertain : List FailedOperation
  deriving DecidableEq

namespace DrainReport

def standard : DrainReport :=
  { applied := 0
    coalesced := 0
    obsolete := 0
    deferred := 0
    failed := []
    uncertain := [] }

def rowsOf (operations : List FailedOperation) : Nat := (operations.map (fun failed => failed.rows.length)).sum

variable (report : DrainReport)

def settled : Nat :=
  report.applied + report.coalesced + report.obsolete + rowsOf report.failed

def isIdle : Bool := report.settled = 0 && report.deferred = 0

def fail (step : Step) (reason : String) : DrainReport :=
  { report with
    failed := report.failed ++
      [{ rows := step.rows, target := step.target, opType := step.operation.opType, reason }] }

def settle (policy : RetryPolicy) (attempts : Nat) (step : Step) (outcome : Outcome) (report : DrainReport) :
    DrainReport :=
  -- What `settle` adds to the report once a step's rows are written.
  match outcome with
  | .applied => { report with applied := report.applied + step.rows.length }
  | .obsolete _ => { report with obsolete := report.obsolete + step.rows.length }
  | .retry reason _ =>
    let tries := attempts + 1
    if policy.isExhausted tries then report.fail step s!"{reason} (gave up after {tries} attempts)"
    else { report with deferred := report.deferred + step.rows.length }
  | .failed reason => report.fail step reason
  | .uncertain reason =>
    { report with
      uncertain := report.uncertain ++
        [{ rows := step.rows, target := step.target, opType := step.operation.opType, reason }] }

end DrainReport

/-- How a row came to be settled: with one that undid it, or as one of a step's rows. -/
inductive Settlement where
  | coalesced
  | stepped (outcome : Outcome) (attempts : Nat)
  deriving DecidableEq

inductive Tally where
  | applied
  | coalesced
  | obsolete
  | deferred
  | failed
  | uncertain
  deriving DecidableEq

/-- The one count a settlement belongs in. -/
def Settlement.tally (policy : RetryPolicy) : Settlement -> Tally
  | .coalesced => .coalesced
  | .stepped .applied _ => .applied
  | .stepped (.obsolete _) _ => .obsolete
  | .stepped (.retry _ _) attempts => if policy.isExhausted (attempts + 1) then .failed else .deferred
  | .stepped (.failed _) _ => .failed
  | .stepped (.uncertain _) _ => .uncertain

def Settlement.isUncertain : Settlement -> Bool
  | .stepped (.uncertain _) _ => true
  | _ => false

namespace DrainReport

def count (report : DrainReport) : Tally -> Nat
  | .applied => report.applied
  | .coalesced => report.coalesced
  | .obsolete => report.obsolete
  | .deferred => report.deferred
  | .failed => rowsOf report.failed
  | .uncertain => rowsOf report.uncertain

def total (report : DrainReport) : Nat :=
  report.applied + report.coalesced + report.obsolete + report.deferred + rowsOf report.failed + rowsOf report.uncertain

theorem rowsOf_append (operations : List FailedOperation) (last : FailedOperation) :
    rowsOf (operations ++ [last]) = rowsOf operations + last.rows.length := by
  simp [rowsOf]

theorem count_settle (policy : RetryPolicy) (attempts : Nat) (step : Step) (outcome : Outcome) (report : DrainReport)
    (tally : Tally) :
    (report.settle policy attempts step outcome).count tally =
      report.count tally + if (Settlement.stepped outcome attempts).tally policy = tally then step.rows.length else 0 := by
  -- A settled step raises one count, by its rows.
  cases outcome with
  | applied => cases tally <;> simp [settle, count, Settlement.tally]
  | obsolete reason => cases tally <;> simp [settle, count, Settlement.tally]
  | failed reason => cases tally <;> simp [settle, fail, count, Settlement.tally, rowsOf_append]
  | uncertain reason => cases tally <;> simp [settle, count, Settlement.tally, rowsOf_append]
  | retry reason after =>
    by_cases spent : policy.isExhausted (attempts + 1) = true
    next => cases tally <;> simp [settle, fail, count, Settlement.tally, rowsOf_append, spent]
    next => cases tally <;> simp [settle, count, Settlement.tally, spent]

end DrainReport

/-- The rows written before the first that is gone. -/
def rowsWritten (write : OperationQueue -> OperationId -> Option OperationQueue) :
    OperationQueue -> List OperationId -> List OperationId
  | _, [] => []
  | queue, id :: rest =>
    match write queue id with
    | none => []
    | some written => id :: rowsWritten write written rest

theorem rowsWritten_sublist (write : OperationQueue -> OperationId -> Option OperationQueue) (queue : OperationQueue)
    (rows : List OperationId) : (rowsWritten write queue rows).Sublist rows := by
  induction rows generalizing queue with
  | nil => exact List.Sublist.refl _
  | cons id rest ih =>
    rw [rowsWritten]
    cases write queue id with
    | none => exact List.nil_sublist _
    | some written => exact (ih written).cons_cons id

theorem rowsWritten_all (write : OperationQueue -> OperationId -> Option OperationQueue) (queue : OperationQueue)
    (rows : List OperationId) (all : (eachRow write queue rows).2 = true) : rowsWritten write queue rows = rows := by
  induction rows generalizing queue with
  | nil => rfl
  | cons id rest ih =>
    rw [eachRow] at all
    rw [rowsWritten]
    cases written : write queue id with
    | none =>
      rw [written] at all
      cases all
    | some middle =>
      rw [written] at all
      exact congrArg (id :: ·) (ih middle all)

/-- What a pass took from the queue, how each row of it was settled, and what it reports. -/
structure Books where
  taken : List OperationId
  log : List (OperationId × Settlement)
  report : DrainReport
  deriving DecidableEq

/-- Passes with their books: those under way, those that returned their report, and those cut short, whose report is
lost. -/
structure DrainRun where
  state : DrainState
  underway : AccountId -> Option Books
  returned : List Books
  cutShort : List Books

namespace DrainRun

def idle (queue : OperationQueue) : DrainRun :=
  { state := DrainState.idle queue, underway := fun _ => none, returned := [], cutShort := [] }

variable (run : DrainRun) (after : DrainState) (accountId : AccountId) (books : Books)

def keep : DrainRun := { run with state := after }

def proceed : DrainRun :=
  { run with state := after, underway := Function.update run.underway accountId (some books) }

def giveUp : DrainRun :=
  { run with
    state := after
    underway := Function.update run.underway accountId none
    cutShort := run.cutShort ++ [books] }

def finish : DrainRun :=
  { run with
    state := after
    underway := Function.update run.underway accountId none
    returned := run.returned ++ [books] }

def carryOn : DrainRun :=
  -- Goes on while the pass does.
  match after.passes accountId with
  | some _ => run.proceed after accountId books
  | none => run.giveUp after accountId books

def opened (batch : List QueuedOperation) : Books :=
  -- The rows folded away are counted before any of them is marked.
  { taken := batch.map QueuedOperation.id
    log := []
    report := { DrainReport.standard with coalesced := (coalesce batch).obsolete.length } }

def nothingDue : Books := { taken := [], log := [], report := DrainReport.standard }

def stepBooks (policy : RetryPolicy) (queue : OperationQueue) (now : Instant) (step : Step) (outcome : Outcome)
    (cut : Option Nat) (books : Books) : Books :=
  let attempts := attemptsOf queue step.rows
  let rows := match cut with
    | some written => step.rows.take written
    | none => step.rows
  { taken := books.taken
    log := books.log ++ (rowsWritten (settleRow policy now attempts outcome) queue rows).map
      (fun id => (id, .stepped outcome attempts))
    report := books.report.settle policy attempts step outcome }

def next (policy : RetryPolicy) (run : DrainRun) (event : DrainEvent) : DrainRun :=
  let after := run.state.next policy event
  match event with
  | .begin accountId now =>
    match run.state.passes accountId with
    | some _ => run.keep after
    | none =>
      let batch := run.state.queue.pending accountId now
      if batch.isEmpty then { run with state := after, returned := run.returned ++ [nothingDue] }
      else run.proceed after accountId (opened batch)
  | .tidy accountId =>
    match run.state.passes accountId, run.underway accountId with
    | some pass, some books =>
      match pass.obsolete with
      | [] => run.keep after
      | id :: _ =>
        match doneAndNote pass.now "folded into an operation that undid it" run.state.queue id with
        | none => run.giveUp after accountId books
        | some _ => run.proceed after accountId { books with log := books.log ++ [(id, .coalesced)] }
    | _, _ => run.keep after
  | .runStep accountId _ outcome cut =>
    match run.state.passes accountId, run.underway accountId with
    | some pass, some books =>
      match pass.obsolete, pass.steps with
      | [], step :: _ =>
        run.carryOn after accountId (stepBooks policy run.state.queue pass.now step outcome cut books)
      | _, _ => run.keep after
    | _, _ => run.keep after
  | .stop accountId =>
    match run.state.passes accountId, run.underway accountId with
    | some pass, some books =>
      match pass.obsolete, pass.steps with
      | [], [] => run.finish after accountId books
      | _, _ => run.giveUp after accountId books
    | _, _ => run.keep after
  | _ => run.keep after

end DrainRun

end Postio

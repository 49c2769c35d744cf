import Mathlib.Algebra.Group.Nat.Defs
import Postio.Sync.Coalesce

set_option autoImplicit false

namespace Postio

/-- How one step of a pass came out. -/
inductive Outcome where
  | applied
  | obsolete (reason : String)
  | retry (reason : String) (after : Option Nat)
  | failed (reason : String)
  | uncertain (reason : String)
  deriving DecidableEq

/-- Waits are in milliseconds. -/
structure RetryPolicy where
  base : Nat
  factor : Nat
  ceiling : Nat
  maxAttempts : Nat
  deriving DecidableEq

namespace RetryPolicy

def standard : RetryPolicy :=
  { base := 2000
    factor := 2
    ceiling := 300000
    maxAttempts := 8 }

variable (policy : RetryPolicy)

def backoff (attempts : Nat) : Nat :=
  -- The multiplier saturates at the largest u32.
  min (policy.base * min (policy.factor ^ (attempts - 1)) (2 ^ 32 - 1)) policy.ceiling

def isExhausted (attempts : Nat) : Bool := policy.maxAttempts ≤ attempts

def nextAttemptAt (now : Instant) (attempts : Nat) (serverAskedFor : Option Nat) : Instant :=
  now + max (serverAskedFor.getD 0) (policy.backoff attempts)

end RetryPolicy

/-- Writes row after row; the first that is gone ends the pass with what was written kept. -/
def eachRow (write : OperationQueue -> OperationId -> Option OperationQueue) :
    OperationQueue -> List OperationId -> OperationQueue × Bool
  | queue, [] => (queue, true)
  | queue, id :: rest =>
    match write queue id with
    | none => (queue, false)
    | some written => eachRow write written rest

variable (policy : RetryPolicy) (now : Instant) (queue : OperationQueue)

def attemptsOf (rows : List OperationId) : Nat :=
  rows.foldl (fun attempts id => max attempts ((queue.get id).elim 0 QueuedOperation.attempts)) 0

def doneAndNote (reason : String) (queue : OperationQueue) (id : OperationId) : Option OperationQueue :=
  (queue.markDone id now).bind (fun queue => queue.note id reason)

def settleRow (attempts : Nat) (outcome : Outcome)
    (queue : OperationQueue) (id : OperationId) : Option OperationQueue :=
  -- What `settle` writes on each row behind a step.
  match outcome with
  | .applied => queue.markDone id now
  | .obsolete reason | .uncertain reason => doneAndNote now reason queue id
  | .retry reason after =>
    let tries := attempts + 1
    if policy.isExhausted tries then
      queue.markFailed id now s!"{reason} (gave up after {tries} attempts)"
    else queue.defer id (policy.nextAttemptAt now tries after) reason
  | .failed reason => queue.markFailed id now reason

def settle (rows : List OperationId) (outcome : Outcome) : OperationQueue × Bool :=
  eachRow (settleRow policy now (attemptsOf queue rows) outcome) queue rows

def Outcome.defers (outcome : Outcome) (policy : RetryPolicy) (attempts : Nat) : Bool :=
  -- Whether the outcome puts the step's rows back in the queue.
  match outcome with
  | .retry _ _ => !policy.isExhausted (attempts + 1)
  | _ => false

/-- One account's pass under way: the rows still to be marked as folded away, then the steps to run. -/
structure Pass where
  now : Instant
  obsolete : List OperationId
  steps : List Step
  -- The targets whose step this pass has put back. No step of the pass reads it.
  putBack : List OperationTarget

structure DrainState where
  queue : OperationQueue
  passes : AccountId -> Option Pass

def DrainState.idle : DrainState :=
  { queue, passes := fun _ => none }

/-- What can happen to the queue. `runStep` says whether the server applied the step's operation, what the
client made of it, and how many of the step's rows were written before the pass was cut short, if it was.
`stop` ends a pass: it ran out of steps, met an error, or went down with the process. -/
inductive DrainEvent where
  | enqueue (accountId : AccountId) (target : OperationTarget) (operation : Operation) (now : Instant)
      (notBefore : Option Instant) (remoteId : Option RemoteId)
  | withdraw (id : OperationId)
  | prune (accountId : AccountId) (before : Instant)
  | begin (accountId : AccountId) (now : Instant)
  | tidy (accountId : AccountId)
  | runStep (accountId : AccountId) (applied : Bool) (outcome : Outcome) (cut : Option Nat)
  | stop (accountId : AccountId)

def DrainState.setPass (state : DrainState) (accountId : AccountId) (pass : Option Pass) : DrainState :=
  { state with passes := Function.update state.passes accountId pass }

def beginPass (state : DrainState) (accountId : AccountId) (now : Instant) : DrainState :=
  let batch := state.queue.pending accountId now
  if batch.isEmpty then state
  else
    let plan := coalesce batch
    state.setPass accountId (some { now, obsolete := plan.obsolete, steps := plan.steps, putBack := [] })

def tidyRow (state : DrainState) (accountId : AccountId) (pass : Pass) (id : OperationId)
    (rest : List OperationId) : DrainState :=
  match doneAndNote pass.now "folded into an operation that undid it" state.queue id with
  | none => state.setPass accountId none
  | some queue => { state with queue }.setPass accountId (some { pass with obsolete := rest })

def runStep (state : DrainState) (accountId : AccountId) (pass : Pass) (step : Step)
    (rest : List Step) (outcome : Outcome) (cut : Option Nat) : DrainState :=
  let attempts := attemptsOf state.queue step.rows
  match cut with
  | some written =>
    let settled := eachRow (settleRow policy pass.now attempts outcome) state.queue (step.rows.take written)
    { state with queue := settled.1 }.setPass accountId none
  | none =>
    let settled := settle policy pass.now state.queue step.rows outcome
    let putBack := if outcome.defers policy attempts then step.target :: pass.putBack else pass.putBack
    { state with queue := settled.1 }.setPass accountId
      (if settled.2 then some { pass with steps := rest, putBack } else none)

def DrainState.next (state : DrainState) : DrainEvent -> DrainState
  | .enqueue accountId target operation now notBefore remoteId =>
    { state with queue := state.queue.enqueueInner accountId target operation now notBefore remoteId }
  | .withdraw id => { state with queue := state.queue.delete id }
  | .prune accountId before => { state with queue := state.queue.pruneSettled accountId before }
  | .begin accountId now =>
    match state.passes accountId with
    -- One loop per account starts its passes, one after the other.
    | some _ => state
    | none => beginPass state accountId now
  | .tidy accountId =>
    match state.passes accountId with
    | some pass =>
      match pass.obsolete with
      | [] => state
      | id :: rest => tidyRow state accountId pass id rest
    | none => state
  | .runStep accountId _ outcome cut =>
    match state.passes accountId with
    | some pass =>
      match pass.obsolete, pass.steps with
      | [], step :: rest => runStep policy state accountId pass step rest outcome cut
      | _, _ => state
    | none => state
  | .stop accountId => state.setPass accountId none

end Postio

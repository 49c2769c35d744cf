import Postio.Sync.CoalesceRows
import Postio.Sync.Drain

set_option autoImplicit false

namespace Postio

/-- What the send path reads of a draft. `queueing` counts its `queue_send`s, so it names the text that
a job built from the row carries. -/
structure Draft where
  state : DraftState
  queueing : Nat
  deriving DecidableEq, Repr

inductive CancelSendOutcome where
  | cancelled
  | notQueued
  | alreadyInFlight
  deriving DecidableEq, Repr

structure SendJob where
  queueing : Nat
  deriving DecidableEq, Repr

/-- How `send_message` ended. `begun` says whether the payload had started to go out; `accepted` whether the
server took a message whose answer never arrived whole. -/
inductive Reply where
  | ok
  | refused (begun transient : Bool)
  | lost (begun accepted : Bool)
  | unreadable (begun accepted : Bool)
  deriving DecidableEq, Repr

def Reply.begun : Reply -> Bool
  | .ok => true
  | .refused begun _ | .lost begun _ | .unreadable begun _ => begun

def Reply.serverAccepted : Reply -> Bool
  | .ok => true
  | .refused _ _ => false
  | .lost begun accepted | .unreadable begun accepted => begun && accepted

def Reply.submissionIsIndeterminate : Reply -> Bool
  | .lost begun _ => begun
  | _ => false

def Reply.isTransient : Reply -> Bool
  | .refused _ transient => transient
  | .lost _ _ => true
  | _ => false

def outcomeFromSmtpError (reply : Reply) : Outcome :=
  if reply.isTransient then .retry "smtp" none else .failed "smtp"

/-- Where the drainer stands in the send at the head of its pass. -/
inductive SendPhase where
  | between
  | resolved (job : SendJob)
  | opened (job : SendJob)
  | marked (job : SendJob)
  | answered (job : SendJob) (reply : Reply)
  | delivered (job : SendJob)
  | decided (outcome : Outcome)
  deriving DecidableEq

def SendPhase.job : SendPhase -> Option SendJob
  | .resolved job | .opened job | .marked job => some job
  | _ => none

/-- What was seen from outside. No step of the program reads it. -/
structure SendHistory where
  cancelled : List Nat
  begun : List Nat
  unrefused : List Nat
  accepted : List Nat
  deriving DecidableEq

/-- One draft, the queue, and the pass its account's drainer is in. -/
structure SendWorld where
  draft : Option Draft
  queue : OperationQueue
  pass : Option Pass
  phase : SendPhase
  history : SendHistory

inductive SendEvent where
  | queueSend (now : Instant) (notBefore : Option Instant)
  | cancelSend
  | saveAndSync (mailbox : MailboxId) (now : Instant)
  | begin (now : Instant)
  | tidy
  | runOther (outcome : Outcome) (cut : Option Nat)
  | carry (impossible : Bool) (reason : String)
  | resolve (blocked : Option String) (promoted : Bool)
  | openSession (failure : Option Outcome)
  | mark (written : Bool)
  | submit (reply : Reply)
  | record (written : Bool)
  | confirm (deleted : Bool)
  | settle (cut : Option Nat) (markedFailed : Bool)
  | stop

namespace SendWorld

variable (accountId : AccountId) (draftId : DraftId) (policy : RetryPolicy)

def isSend (row : QueuedOperation) : Bool :=
  row.target = .draft draftId && row.operation = .send draftId

def initial (queue : OperationQueue) : SendWorld :=
  { draft := some { state := .editing, queueing := 0 }
    queue
    pass := none
    phase := .between
    history := { cancelled := [], begun := [], unrefused := [], accepted := [] } }

variable (world : SendWorld) (state : DraftState) (pass : Pass) (now : Instant) (step : Step) (rest : List Step)
    (outcome : Outcome) (cut : Option Nat)

def queueSend (notBefore : Option Instant) : SendWorld :=
  match world.draft with
  -- `save` finds no row to update.
  | none => world
  | some draft =>
    { world with
      draft := some { state := .queued, queueing := draft.queueing + 1 }
      queue := world.queue.enqueueInner accountId (.draft draftId) (.send draftId) now notBefore none }

def cancelSend : CancelSendOutcome × SendWorld :=
  match world.draft with
  | none => (.notQueued, world)
  | some draft =>
    if draft.state = .sending ∨ draft.state = .sent then (.alreadyInFlight, world)
    else if draft.state ≠ .queued then (.notQueued, world)
    else
      match world.queue.pendingFor (.draft draftId) with
      | none => (.alreadyInFlight, world)
      | some pending =>
        if pending.state ≠ .pending then (.alreadyInFlight, world)
        else
          (.cancelled,
            { world with
              draft := some { draft with state := .editing }
              queue := world.queue.delete pending.id
              history := { world.history with cancelled := draft.queueing :: world.history.cancelled } })

def saveAndSync (mailbox : MailboxId) (now : Instant) : SendWorld :=
  -- An autosave, while the composer still has the draft.
  match world.draft with
  | some { state := .editing, queueing := _ } =>
    { world with queue := world.queue.enqueueInner accountId (.draft draftId) (.saveDraft mailbox) now none none }
  | _ => world

def setState : SendWorld :=
  { world with draft := world.draft.map (fun draft => { draft with state }) }

def failOrphanedSends : SendWorld :=
  -- A `Queued` draft that no unsettled `Send` row carries did not go.
  match world.draft with
  | some { state := .queued, queueing := _ } =>
    if world.queue.rows.any (fun row => isSend draftId row && row.unsettled) then world
    else world.setState .failed
  | _ => world

def beginPass : SendWorld :=
  let healed := failOrphanedSends draftId world
  let batch := healed.queue.pending accountId now
  if batch.isEmpty then healed
  else
    let plan := coalesce batch
    { healed with pass := some { now, obsolete := plan.obsolete, steps := plan.steps, putBack := [] } }

def halt : SendWorld := { world with pass := none, phase := .between }

def tidyRow (id : OperationId) (rest : List OperationId) : SendWorld :=
  match doneAndNote pass.now "folded into an operation that undid it" world.queue id with
  | none => world.halt
  | some queue => { world with queue, pass := some { pass with obsolete := rest } }

def settleStep : SendWorld × Bool :=
  -- Settles the step at the head of the pass, and says whether every row was written.
  let attempts := attemptsOf world.queue step.rows
  match cut with
  | some written =>
    let settled := eachRow (settleRow policy pass.now attempts outcome) world.queue (step.rows.take written)
    ({ world with queue := settled.1 }.halt, false)
  | none =>
    let settled := Postio.settle policy pass.now world.queue step.rows outcome
    if settled.2 then
      ({ world with queue := settled.1, pass := some { pass with steps := rest }, phase := .between }, true)
    else ({ world with queue := settled.1 }.halt, false)

/-- Whether the outcome ends in `fail`, which marks a `Send`'s draft as well. -/
def gaveUp : Outcome -> Bool
  | .failed _ => true
  | .retry _ _ => policy.isExhausted (attemptsOf world.queue step.rows + 1)
  | _ => false

def carry (impossible : Bool) (reason : String) : SendWorld :=
  match world.draft with
  | some draft =>
    -- Past the commit point nothing will be built again, so nothing is fetched.
    if draft.state = .sent ∨ draft.state = .sending ∨ draft.state = .unconfirmed then world
    else { world with phase := .decided (if impossible then .failed reason else .retry reason none) }
  | none => world

def resolve (blocked : Option String) (promoted : Bool) : SendWorld :=
  match world.draft with
  | none => { world with phase := .decided (.obsolete "the draft is no longer in the local store") }
  | some draft =>
    match draft.state with
    | .sent => { world with phase := .decided (.obsolete "the submission server already accepted this message") }
    | .sending =>
      if promoted then { world.setState .unconfirmed with phase := .decided (.uncertain "interrupted") }
      else world.halt
    | .unconfirmed => { world with phase := .decided (.uncertain "interrupted") }
    | .editing | .queued | .failed =>
      match blocked with
      | some reason => { world with phase := .decided (.failed reason) }
      | none => { world with phase := .resolved { queueing := draft.queueing } }

def markSending (job : SendJob) (written : Bool) : SendWorld :=
  if written && world.draft.isSome then { world.setState .sending with phase := .marked job }
  else { world with phase := .decided (.retry "could not record that the send had started" none) }

def submit (job : SendJob) (reply : Reply) : SendWorld :=
  let refused := match reply with
    | .refused _ _ => true
    | _ => false
  { world with
    phase := .answered job reply
    history :=
      { world.history with
        begun := if reply.begun then job.queueing :: world.history.begun else world.history.begun
        unrefused :=
          if reply.begun && !refused then job.queueing :: world.history.unrefused else world.history.unrefused
        accepted :=
          if reply.serverAccepted then job.queueing :: world.history.accepted else world.history.accepted } }

def record (job : SendJob) (reply : Reply) (written : Bool) : SendWorld :=
  -- The mark that follows the answer. Each is best effort.
  let mark (state : DraftState) := if written then world.setState state else world
  if reply = .ok then { mark .sent with phase := .delivered job }
  else if reply.submissionIsIndeterminate then { mark .unconfirmed with phase := .decided (.uncertain "interrupted") }
  else { mark .queued with phase := .decided (outcomeFromSmtpError reply) }

def atSend (act : Pass -> Step -> List Step -> SendWorld) : SendWorld :=
  -- Runs `act` where the pass has come to a `Send` of the draft.
  match world.pass with
  | none => world
  | some pass =>
    match pass.obsolete, pass.steps with
    | [], step :: rest => if step.operation = .send draftId then act pass step rest else world
    | _, _ => world

def settleSend (markedFailed : Bool) : SendWorld :=
  -- Settling a `Send` that gives up marks its draft too, once every row is written.
  let settled := settleStep policy world pass step rest outcome cut
  if settled.2 && gaveUp policy world step outcome && markedFailed then settled.1.setState .failed
  else settled.1

def openSession (job : SendJob) : Option Outcome -> SendWorld
  | none => { world with phase := .opened job }
  | some (.retry reason after) => { world with phase := .decided (.retry reason after) }
  | some (.failed reason) => { world with phase := .decided (.failed reason) }
  | some _ => world

def next : SendEvent -> SendWorld
  | .queueSend now notBefore => queueSend accountId draftId world now notBefore
  | .cancelSend => (cancelSend draftId world).2
  | .saveAndSync mailbox now => saveAndSync accountId draftId world mailbox now
  | .begin now =>
    match world.pass with
    | some _ => world
    | none => beginPass accountId draftId world now
  | .tidy =>
    match world.pass with
    | some pass =>
      match pass.obsolete with
      | [] => world
      | id :: rest => tidyRow world pass id rest
    | none => world
  | .runOther outcome cut =>
    match world.pass with
    | some pass =>
      match pass.obsolete, pass.steps with
      | [], step :: rest =>
        if step.operation = .send draftId then world else (settleStep policy world pass step rest outcome cut).1
      | _, _ => world
    | none => world
  | .carry impossible reason => atSend draftId world fun _ _ _ =>
    match world.phase with
    | .between => carry world impossible reason
    | _ => world
  | .resolve blocked promoted => atSend draftId world fun _ _ _ =>
    match world.phase with
    | .between => resolve world blocked promoted
    | _ => world
  | .openSession failure => atSend draftId world fun _ _ _ =>
    match world.phase with
    | .resolved job => openSession world job failure
    | _ => world
  | .mark written => atSend draftId world fun _ _ _ =>
    match world.phase with
    | .opened job => markSending world job written
    | _ => world
  | .submit reply => atSend draftId world fun _ _ _ =>
    match world.phase with
    | .marked job => submit world job reply
    | _ => world
  | .record written => atSend draftId world fun _ _ _ =>
    match world.phase with
    | .answered job reply => record world job reply written
    | _ => world
  | .confirm deleted => atSend draftId world fun _ _ _ =>
    match world.phase with
    | .delivered _ => { world with draft := if deleted then none else world.draft, phase := .decided .applied }
    | _ => world
  | .settle cut markedFailed => atSend draftId world fun pass step rest =>
    match world.phase with
    | .decided outcome => settleSend policy world pass step rest outcome cut markedFailed
    | _ => world
  | .stop => world.halt

theorem atSend_cases (act : Pass -> Step -> List Step -> SendWorld) :
    atSend draftId world act = world ∨
      ∃ pass step rest, world.pass = some pass ∧ pass.obsolete = [] ∧ pass.steps = step :: rest ∧
        step.operation = .send draftId ∧ atSend draftId world act = act pass step rest := by
  unfold atSend
  split
  next => exact .inl rfl
  next pass under =>
    split
    next step rest tidied steps =>
      split
      next sends => exact .inr ⟨pass, step, rest, under, tidied, steps, sends, rfl⟩
      next => exact .inl rfl
    next => exact .inl rfl

@[simp]
theorem setState_draft : (world.setState state).draft = world.draft.map (fun draft => { draft with state }):= rfl

@[simp]
theorem setState_phase : (world.setState state).phase = world.phase := rfl

@[simp]
theorem setState_pass : (world.setState state).pass = world.pass := rfl

@[simp]
theorem setState_queue : (world.setState state).queue = world.queue := rfl

@[simp]
theorem setState_history : (world.setState state).history = world.history := rfl

@[simp]
theorem halt_draft : world.halt.draft = world.draft := rfl

@[simp]
theorem halt_phase : world.halt.phase = .between := rfl

@[simp]
theorem halt_history : world.halt.history = world.history := rfl

theorem settleStep_same : (settleStep policy world pass step rest outcome cut).1.draft = world.draft ∧
      (settleStep policy world pass step rest outcome cut).1.history = world.history ∧
      (settleStep policy world pass step rest outcome cut).1.phase = .between := by
  unfold settleStep
  split
  · exact ⟨rfl, rfl, rfl⟩
  · dsimp only
    split <;> exact ⟨rfl, rfl, rfl⟩

theorem failOrphanedSends_cases :
    failOrphanedSends draftId world = world ∨
      failOrphanedSends draftId world = world.setState .failed ∧ ∃ queueing, world.draft = some ⟨.queued, queueing⟩ := by
  -- Healing changes a queued draft only.
  unfold failOrphanedSends
  split
  next queueing draft =>
    split
    · exact .inl rfl
    · exact .inr ⟨rfl, queueing, draft⟩
  next => exact .inl rfl

theorem beginPass_cases :
    ∃ pass, beginPass accountId draftId world now = { failOrphanedSends draftId world with pass } := by
  simp only [beginPass]
  split
  · exact ⟨_, rfl⟩
  · exact ⟨_, rfl⟩

theorem cancelSend_cases : (cancelSend draftId world).1 ≠ .cancelled ∧ (cancelSend draftId world).2 = world ∨
      ∃ draft pending, world.draft = some draft ∧ draft.state = .queued ∧
        world.queue.pendingFor (.draft draftId) = some pending ∧ (cancelSend draftId world).1 = .cancelled ∧
        (cancelSend draftId world).2 =
          { world with
            draft := some { draft with state := .editing }
            queue := world.queue.delete pending.id
            history := { world.history with cancelled := draft.queueing :: world.history.cancelled } } := by
  -- A cancel that is reported has found a queued draft.
  unfold cancelSend
  split
  next => exact .inl ⟨by simp, rfl⟩
  next draft there =>
    split
    next => exact .inl ⟨by simp, rfl⟩
    next =>
      split
      next => exact .inl ⟨by simp, rfl⟩
      next queued =>
        split
        next => exact .inl ⟨by simp, rfl⟩
        next pending found =>
          split
          next => exact .inl ⟨by simp, rfl⟩
          next => exact .inr ⟨draft, pending, there, by simpa using queued, found, rfl, rfl⟩

end SendWorld

end Postio

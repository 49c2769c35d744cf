import Postio.Lib.Run
import Postio.Send.SendMachine

set_option autoImplicit false

namespace Postio

/-- How an attempt that had filed its Sent row came to its end: with the row deleted again, or with the row left
standing and the send where it was. -/
inductive AttemptEnd where
  | unfiled
  | left (phase : SendPhase)
  deriving DecidableEq

/-- The send of one draft with the Sent rows that it created locally. `filing` is what `file_sent_locally` gave the
attempt in hand, once it has run; `ended` tells of the attempts that filed a row. -/
structure FiledWorld where
  send : SendWorld
  rows : List MessageId
  nextRow : Nat
  filing : Option (Option MessageId)
  ended : List AttemptEnd

inductive FiledEvent where
  | file (created : Bool)
  | unfile (deleted : Bool)
  | confirm (created deleted : Bool)
  | step (event : SendEvent)

namespace FiledWorld

variable (accountId : AccountId) (draftId : DraftId) (policy : RetryPolicy)

def initial (queue : OperationQueue) : FiledWorld :=
  { send := SendWorld.initial queue
    rows := []
    nextRow := 0
    filing := none
    ended := [] }

variable (world : FiledWorld)

def current : Option MessageId := world.filing.join

def create : FiledWorld :=
  { world with
    rows := ⟨world.nextRow⟩ :: world.rows
    nextRow := world.nextRow + 1
    filing := some (some ⟨world.nextRow⟩) }

def fileSentLocally (created : Bool) : FiledWorld :=
  if created then world.create else { world with filing := some none }

def unfileSentCopy (row : MessageId) (deleted : Bool) : FiledWorld :=
  { world with
    rows := if deleted then world.rows.filter (fun other => other ≠ row) else world.rows
    filing := some none
    ended := (if deleted then .unfiled else .left world.send.phase) :: world.ended }

def confirmSentCopy (created : Bool) : FiledWorld :=
  if created && world.current.isNone then world.create else world

def leave (phase : SendPhase) : FiledWorld :=
  -- An attempt is over once the drainer is between two steps.
  if world.send.phase = .between then
    { world with
      filing := none
      ended := if world.current.isSome then .left phase :: world.ended else world.ended }
  else world

def isFailure : SendPhase -> Bool
  | .decided (.failed _) => true
  | _ => false

/-- What has to happen before the step: the row is filed ahead of the session, and taken back ahead of the settling
of an attempt that failed. -/
def waits : SendEvent -> Bool
  | .openSession _ => world.filing.isNone
  | .settle _ _ => isFailure world.send.phase && world.current.isSome
  | .confirm _ => true
  | _ => false

def next (world : FiledWorld) : FiledEvent -> FiledWorld
  | .file created =>
    match world.send.phase, world.filing with
    | .resolved _, none => fileSentLocally world created
    | _, _ => world
  | .unfile deleted =>
    match isFailure world.send.phase, world.current with
    | true, some row => unfileSentCopy world row deleted
    | _, _ => world
  | .confirm created deleted =>
    match world.send.phase with
    | .delivered _ =>
      { confirmSentCopy world created with
        send := world.send.next accountId draftId policy (.confirm deleted) }
    | _ => world
  | .step event =>
    if waits world event then world
    else leave { world with send := world.send.next accountId draftId policy event } world.send.phase

def isFailed (world : SendWorld) : Bool :=
  match world.draft with
  | some { state := .failed, queueing := _ } => true
  | _ => false

/-- The draft has ended in `Failed`, with no attempt under way and none that the server took. -/
def EndedFailed : Prop :=
  world.filing = none ∧ isFailed world.send = true ∧ world.send.history.accepted = []

def OneSentRow : Prop :=
  world.rows.length ≤ 1 ∧ (world.EndedFailed -> world.rows = [])

def Withdrawn : Prop := ∀ ended ∈ world.ended, ended = .unfiled

/-- The two writes of `Failed`: the healing of an orphan, and a `Send` that gives up. -/
def marksFailed (world : SendWorld) : SendEvent -> Bool
  | .begin _ =>
    match world.pass, world.draft with
    | none, some { state := .queued, queueing := _ } =>
      !world.queue.rows.any (fun row => SendWorld.isSend draftId row && row.unsettled)
    | _, _ => false
  | .settle none true =>
    match world.phase, world.pass with
    | .decided outcome, some pass =>
      match pass.steps with
      | step :: _ => SendWorld.gaveUp policy world step outcome
      | [] => false
    | _, _ => false
  | _ => false

def endsAttempt (world : SendWorld) : SendEvent -> Bool
  | .settle _ _ =>
    match world.phase with
    | .decided _ => true
    | _ => false
  | .tidy | .runOther _ _ | .stop => true
  | _ => false

/-- No attempt files a row while one of an earlier attempt was left, and no draft is given up on with a row left. -/
def Clean : FiledEvent -> Prop
  | .file created => created = true -> world.Withdrawn
  | .unfile _ => True
  | .confirm created _ => created = true -> world.current = none -> world.Withdrawn
  | .step event =>
    marksFailed draftId policy world.send event || (isFailed world.send && endsAttempt world.send event) ->
      world.send.history.accepted = [] -> world.Withdrawn ∧ world.current = none

end FiledWorld

end Postio

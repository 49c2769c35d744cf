import Postio.Lib.Run
import Postio.Lib.Table
import Postio.Sync.Drain

set_option autoImplicit false

namespace Postio.Drafts

abbrev Text := List Char

abbrev Raw := List UInt8

/-- A message in the Drafts mailbox on the server. -/
structure ServerCopy where
  id : RemoteId
  raw : Raw
  deleted : Bool
  deriving DecidableEq

structure DraftRow where
  id : DraftId
  text : Text
  remoteId : Option RemoteId
  deriving DecidableEq

/-- A draft as a composer holds it, with where its copy was when it was read. -/
structure Buffer where
  draft : DraftId
  remoteId : Option RemoteId
  deriving DecidableEq

/-- What a queue row asks for. Its target is the draft. -/
inductive Work where
  | saveDraft (draft : DraftId)
  | discardDraft (draft : DraftId) (copy : RemoteId)
  deriving DecidableEq

def Work.target : Work -> DraftId
  | .saveDraft draft => draft
  | .discardDraft draft _ => draft

structure QueueRow where
  id : OperationId
  work : Work
  state : OperationState
  deriving DecidableEq

structure SaveJob where
  draft : DraftId
  raw : Raw
  previous : Option RemoteId
  deriving DecidableEq

/-- For what a copy is removed: another of the draft has replaced it, or the draft was discarded. -/
inductive Cause where
  | replaced (draft : DraftId)
  | discarded (draft : DraftId)
  deriving DecidableEq

def Cause.draft : Cause -> DraftId
  | .replaced draft | .discarded draft => draft

/-- What the drainer does next for the rows of its step. -/
inductive Stage where
  | idle
  | appending (rows : List OperationId) (job : SaveJob)
  | recording (rows : List OperationId) (job : SaveJob) (location : Option RemoteId)
  | removing (rows : List OperationId) (cause : Cause) (copy : RemoteId) (marked : Bool)
  | settling (rows : List OperationId) (outcome : Outcome)
  deriving DecidableEq

/-- An upload the server took. It is recorded once the draft's row says where it landed, and named if the server had told. -/
structure Landing where
  draft : DraftId
  copy : RemoteId
  raw : Raw
  recorded : Bool
  named : Bool
  deriving DecidableEq

/-- One account's drafts and its Drafts mailbox on the server. The program reads none of the last three. -/
structure World where
  server : List ServerCopy
  nextCopy : Nat
  resync : Bool
  drafts : Table DraftRow (fun row => row.id.get)
  buffers : List Buffer
  queue : Table QueueRow (fun row => row.id.get)
  stage : Stage
  -- The newest first.
  landings : List Landing
  -- The operations whose upload was recorded, with what was uploaded.
  uploaded : List (OperationId × Raw)
  -- The operations in hand when a pass was cut short.
  stopped : List OperationId

structure BackendError where
  reason : String
  transient : Bool
  fullResync : Bool
  retryAfter : Option Nat
  deriving DecidableEq

def fromError (error : BackendError) : Outcome :=
  if error.fullResync then .failed error.reason
  else if error.transient then .retry error.reason error.retryAfter
  else .failed error.reason

/-- Why a step is not begun. -/
inductive Hindrance where
  | gone (reason : String)
  | later (reason : String)
  | impossible (reason : String)
  deriving DecidableEq

def Hindrance.outcome : Hindrance -> Outcome
  | .gone reason => .obsolete reason
  | .later reason => .retry reason none
  | .impossible reason => .failed reason

inductive AppendAnswer where
  | landed (tells : Bool)
  -- The message may be there all the same.
  | failed (landed : Bool) (error : BackendError)
  deriving DecidableEq

inductive WireAnswer where
  | done
  | failed (took : Bool) (error : BackendError)
  deriving DecidableEq

/-- How the two writes of `set_server_copy` go: both, neither, or only the one of the draft's own row. -/
inductive RecordAnswer where
  | written
  | unwritten
  | halfway
  deriving DecidableEq

inductive Event where
  | compose (text : Text)
  | reopen (draft : DraftId)
  | save (buffer : Nat) (text : Text)
  | discard (draft : DraftId)
  | delete (draft : DraftId)
  | take (rows : List OperationId) (hindrance : Option Hindrance)
  | append (answer : AppendAnswer)
  | record (answer : RecordAnswer)
  | store (uidPlus : Bool) (answer : WireAnswer)
  | expunge (answer : WireAnswer)
  | settle (exhausted : Bool)
  | stop
  | requeue
  | arrive (raw : Raw)
  | sweep
  | renumber
  deriving DecidableEq

namespace World

variable (buildDraft : DraftId -> Text -> Raw)

def initial : World where
  server := []
  nextCopy := 1
  resync := false
  drafts := Table.empty _
  buffers := []
  queue := Table.empty _
  stage := .idle
  landings := []
  uploaded := []
  stopped := []

/-! ### The composer -/

variable (world : World)

def enqueue (work : Work) : World :=
  { world with queue := world.queue.insert (fun id => { id := ⟨id⟩, work, state := .pending }) (fun _ => rfl) }

def compose (text : Text) : World :=
  { world with
    drafts := world.drafts.insert (fun id => { id := ⟨id⟩, text, remoteId := none }) (fun _ => rfl)
    buffers := { draft := ⟨world.drafts.nextId⟩, remoteId := none } :: world.buffers
    : World }.enqueue (.saveDraft ⟨world.drafts.nextId⟩)

def reopen (draft : DraftId) : World :=
  match world.drafts.get draft.get with
  | some row => { world with buffers := { draft, remoteId := row.remoteId } :: world.buffers }
  | none => world

def written (text : Text) (remoteId : Option RemoteId) (row : DraftRow) : DraftRow :=
  { row with text, remoteId := remoteId.or row.remoteId }

def save (buffer : Nat) (text : Text) : World :=
  match world.buffers[buffer]? with
  | none => world
  | some held =>
    match world.drafts.get held.draft.get with
    | none => world
    | some _ =>
      { world with
        drafts := world.drafts.updateAt held.draft.get (written text held.remoteId) (fun _ => rfl)
        : World }.enqueue (.saveDraft held.draft)

def delete (draft : DraftId) : World :=
  { world with drafts := world.drafts.removeAt draft.get }

def discard (draft : DraftId) : World :=
  match world.drafts.get draft.get with
  | none => world
  | some row =>
    match row.remoteId with
    | some copy => (world.delete draft).enqueue (.discardDraft draft copy)
    | none => world.delete draft

/-! ### The drainer -/

def setState (operation : OperationId) (state : OperationState) : World :=
  { world with queue := world.queue.updateAt operation.get (fun row => { row with state }) (fun _ => rfl) }

def isPending (target : DraftId) (operation : OperationId) : Bool :=
  (world.queue.get operation.get).any (fun row => row.state = .pending && row.work.target = target)

def take (rows : List OperationId) (hindrance : Option Hindrance) : World :=
  -- The step's operation is that of its first row. The others were folded into it.
  match world.stage, rows with
  | .idle, head :: _ =>
    match world.queue.get head.get with
    | none => world
    | some row =>
      if rows.all (world.isPending row.work.target) then
        let held := rows.foldl (fun world operation => world.setState operation .inFlight) world
        match hindrance, row.work with
        | some hindrance, _ => { held with stage := .settling rows hindrance.outcome }
        | none, .discardDraft draft copy => { held with stage := .removing rows (.discarded draft) copy false }
        | none, .saveDraft draft =>
          match world.drafts.get draft.get with
          | none => { held with stage := .settling rows (.obsolete "the draft is no longer in the local store") }
          | some saved =>
            { held with
              stage := .appending rows { draft, raw := buildDraft draft saved.text, previous := saved.remoteId } }
      else world
  | _, _ => world

def arrive (raw : Raw) : World :=
  -- The server takes a message under an identity it has not used.
  { world with
    server := world.server ++ [{ id := ⟨world.nextCopy⟩, raw, deleted := false }]
    nextCopy := world.nextCopy + 1 }

def land (job : SaveJob) : World :=
  { world.arrive job.raw with
    landings :=
      { draft := job.draft, copy := ⟨world.nextCopy⟩, raw := job.raw, recorded := false, named := false } :: world.landings }

def append (answer : AppendAnswer) : World :=
  match world.stage with
  | .appending rows job =>
    match answer with
    | .landed true => { world.land job with stage := .recording rows job (some ⟨world.nextCopy⟩) }
    -- The folder is flagged, for the next save cannot remove this copy.
    | .landed false => { world.land job with stage := .recording rows job none, resync := true }
    | .failed landed error =>
      { (if landed then world.land job else world) with
        stage := .settling rows (fromError error), resync := world.resync || error.fullResync }
  | _ => world

def markRecorded (draft : DraftId) (named : Bool) : List Landing -> List Landing
  | [] => []
  | landing :: rest =>
    if landing.draft = draft then { landing with recorded := true, named } :: rest
    else landing :: markRecorded draft named rest

def located (rows : List OperationId) (job : SaveJob) (location : Option RemoteId) : World :=
  -- What is told of where the copy landed is on the draft's row.
  { world with
    drafts := world.drafts.updateAt job.draft.get (fun row => { row with remoteId := location }) (fun _ => rfl)
    landings := markRecorded job.draft location.isSome world.landings
    uploaded := rows.map (fun operation => (operation, job.raw)) ++ world.uploaded }

def wentAway : Outcome := .obsolete "the draft went away while it was being uploaded"

def record (answer : RecordAnswer) : World :=
  match world.stage with
  | .recording rows job location =>
    match world.drafts.get job.draft.get, answer with
    | none, _ => { world with stage := .settling rows wentAway, resync := true }
    | some _, .unwritten => { world with stage := .settling rows wentAway, resync := true }
    | some _, .halfway =>
      { world.located rows job location with stage := .settling rows wentAway, resync := true }
    | some _, .written =>
      { world.located rows job location with
        stage :=
          match job.previous with
          | none => .settling rows .applied
          | some previous => .removing rows (.replaced job.draft) previous false }
  | _ => world

def marked (server : List ServerCopy) (id : RemoteId) : List ServerCopy :=
  server.map (fun copy => if copy.id = id then { copy with deleted := true } else copy)

def gone : Cause -> Outcome
  | .replaced _ => .applied
  | .discarded _ => .obsolete "the draft was no longer in the Drafts mailbox on the server"

/-- The new copy is up, so that a leftover one is no reason to save again. -/
def unremoved (error : BackendError) : Cause -> Outcome
  | .replaced _ => .applied
  | .discarded _ =>
    if error.fullResync then .obsolete "the Drafts mailbox has been renumbered since the draft was uploaded"
    else fromError error

def unremovedResync (error : BackendError) : Cause -> Bool
  | .replaced _ => true
  | .discarded _ => error.fullResync

def store (uidPlus : Bool) (answer : WireAnswer) : World :=
  match world.stage with
  | .removing rows cause copy false =>
    match answer with
    | .done =>
      if world.server.any (fun held => held.id = copy) then
        if uidPlus then { world with server := marked world.server copy, stage := .removing rows cause copy true }
        else { world with server := marked world.server copy, stage := .settling rows .applied, resync := true }
      else { world with stage := .settling rows (gone cause) }
    | .failed took error =>
      { world with
        server := if took then marked world.server copy else world.server
        stage := .settling rows (unremoved error cause)
        resync := world.resync || unremovedResync error cause }
  | _ => world

def expunge (answer : WireAnswer) : World :=
  match world.stage with
  | .removing rows cause copy true =>
    let left := world.server.filter (fun held => held.id ≠ copy)
    match answer with
    | .done => { world with server := left, stage := .settling rows .applied }
    | .failed took error =>
      { world with
        server := if took then left else world.server
        stage := .settling rows (unremoved error cause)
        resync := world.resync || unremovedResync error cause }
  | _ => world

def settledState (exhausted : Bool) : Outcome -> OperationState
  | .applied | .obsolete _ | .uncertain _ => .done
  | .retry _ _ => if exhausted then .failed else .pending
  | .failed _ => .failed

def settle (exhausted : Bool) : World :=
  -- Row after row.
  match world.stage with
  | .settling (operation :: rest) outcome =>
    { world.setState operation (settledState exhausted outcome) with
      stage := if rest = [] then .idle else .settling rest outcome }
  | .settling [] _ => { world with stage := .idle }
  | _ => world

def inHand : Stage -> List OperationId
  | .idle => []
  | .appending rows _ | .recording rows _ _ | .removing rows _ _ _ | .settling rows _ => rows

def stop : World := { world with stage := .idle, stopped := inHand world.stage ++ world.stopped }

def requeued (row : QueueRow) : QueueRow := if row.state = .inFlight then { row with state := .pending } else row

theorem requeued_id (row : QueueRow) : (requeued row).id = row.id := by
  unfold requeued
  split
  next => rfl
  next => rfl

def requeue : World :=
  match world.stage with
  | .idle => { world with queue := world.queue.update requeued (fun row => congrArg OperationId.get (requeued_id row)) }
  | _ => world

/-! ### The mailbox -/

def sweep : World := { world with server := world.server.filter (fun copy => !copy.deleted) }

def shifted (offset : Nat) (id : RemoteId) : RemoteId := ⟨id.get + offset⟩

def renumber : World :=
  -- Every message gets an identity no message had before.
  { world with
    server := world.server.map (fun copy => { copy with id := shifted world.nextCopy copy.id })
    nextCopy := world.nextCopy + world.nextCopy
    landings := world.landings.map (fun landing => { landing with copy := shifted world.nextCopy landing.copy }) }

def step : Event -> World
  | .compose text => world.compose text
  | .reopen draft => world.reopen draft
  | .save buffer text => world.save buffer text
  | .discard draft => world.discard draft
  | .delete draft => world.delete draft
  | .take rows hindrance => world.take buildDraft rows hindrance
  | .append answer => world.append answer
  | .record answer => world.record answer
  | .store uidPlus answer => world.store uidPlus answer
  | .expunge answer => world.expunge answer
  | .settle exhausted => world.settle exhausted
  | .stop => world.stop
  | .requeue => world.requeue
  | .arrive raw => world.arrive raw
  | .sweep => world.sweep
  | .renumber => world.renumber

end World

end Postio.Drafts

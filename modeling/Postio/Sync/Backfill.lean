import Mathlib.Algebra.Group.Nat.Defs
import Mathlib.Data.List.Sort
import Mathlib.Logic.Function.Basic
import Postio.Lib.Run
import Postio.Model.Ids

set_option autoImplicit false

namespace Postio.Bodies

/-- How eagerly bodies are pulled ahead of being asked for. -/
structure BackfillPolicy where
  background : Bool
  maxBodyBytes : Option Nat
  pauseOnMetered : Bool
  pauseWhenActive : Bool
  maxBacklog : Nat
  deriving DecidableEq

abbrev Section := List Char

/-- Which bytes of a message one request is after. -/
inductive Want where
  | text
  | payloads (parts : List Section)
  | whole
  | headerBlock
  deriving DecidableEq

structure BodyRequest where
  message : MessageId
  uid : Nat
  size : Nat
  textSize : Nat
  rank : Nat
  receivedAt : Int
  want : Want
  deriving DecidableEq

inductive Priority where
  | interactive
  | fresh
  | background
  deriving DecidableEq

/-- Where a message sits right now. -/
inductive Lane where
  | background
  | fresh
  | interactive
  | inFlight
  deriving DecidableEq

structure Claim where
  request : BodyRequest
  priority : Priority
  -- Which of the backfill's cancel tokens it carries.
  cancel : Nat
  deriving DecidableEq

inductive Outcome where
  | stored (bytes : Nat)
  | gone
  | failed
  | interrupted
  deriving DecidableEq

structure BackfillProgress where
  pending : Nat
  inFlight : Nat
  stored : Nat
  skipped : Nat
  gone : Nat
  failed : Nat
  bytes : Nat
  deriving DecidableEq

structure Backfill where
  policy : BackfillPolicy
  interactive : List BodyRequest
  fresh : List BodyRequest
  followups : MessageId -> Option BodyRequest
  -- The greatest entry first. Entries the order does not tell apart may come out in any order.
  background : List BodyRequest
  lanes : MessageId -> Option Lane
  progress : BackfillProgress
  metered : Bool
  diskFull : Bool
  userActive : Bool
  cancelToken : Nat
  cancelled : Bool
  setAside : MessageId -> Bool
  -- How many times in a row, and the earliest a message may be offered again.
  interrupted : MessageId -> Option (Nat × Nat)
  deferred : MessageId -> Option BodyRequest

namespace Want

def absorb (mine other : Want) : Want :=
  -- Folds another request for the same message into this one.
  if mine = other then mine
  else
    match mine, other with
    | payloads parts, payloads theirs =>
      payloads (theirs.foldl (fun parts part => if part ∈ parts then parts else parts ++ [part]) parts)
    | _, _ => whole

def isPayloads : Want -> Bool
  | payloads _ => true
  | _ => false

end Want

namespace BodyRequest

def fetchedBytes (request : BodyRequest) : Nat :=
  match request.want with
  | .text => request.textSize
  | _ => request.size

def Sooner (first second : BodyRequest) : Prop :=
  -- Whether an entry of the backlog is fetched no later than another.
  first.rank < second.rank ∨ first.rank = second.rank ∧
    (second.receivedAt < first.receivedAt ∨ first.receivedAt = second.receivedAt ∧
      (second.uid < first.uid ∨ first.uid = second.uid ∧ first.message.get ≤ second.message.get))

instance (first second : BodyRequest) : Decidable (first.Sooner second) := by
  unfold Sooner
  infer_instance

def absorb (request other : BodyRequest) : BodyRequest := { request with want := request.want.absorb other.want }

end BodyRequest

def retryBase : Nat := 5000

def retryCap : Nat := 300000

def batchLen : Nat := 50

def batchBytes : Nat := 8 * 1024 * 1024 / 2

def firstIn (lanes : MessageId -> Option Lane) (lane : Lane) : List BodyRequest -> Option (BodyRequest × List BodyRequest)
  | [] => none
  | request :: rest => if lanes request.message = some lane then some (request, rest) else firstIn lanes lane rest

namespace Backfill

def new (policy : BackfillPolicy) : Backfill :=
  { policy := policy, interactive := [], fresh := [], followups := fun _ => none, background := [],
    lanes := fun _ => none,
    progress := { pending := 0, inFlight := 0, stored := 0, skipped := 0, gone := 0, failed := 0, bytes := 0 },
    metered := false, diskFull := false, userActive := false, cancelToken := 0, cancelled := false,
    setAside := fun _ => false, interrupted := fun _ => none, deferred := fun _ => none }

variable (backfill : Backfill) (message : MessageId) (request : BodyRequest)

def backgroundRuns : Bool :=
  backfill.policy.background && !backfill.diskFull && !(backfill.policy.pauseOnMetered && backfill.metered) &&
    !(backfill.policy.pauseWhenActive && backfill.userActive)

def putLane (lane : Option Lane) : Backfill :=
  { backfill with lanes := Function.update backfill.lanes message lane }

def addPending : Backfill :=
  { backfill with progress := { backfill.progress with pending := backfill.progress.pending + 1 } }

def pushBackground : Backfill :=
  { backfill with background := backfill.background.orderedInsert BodyRequest.Sooner request }

def overCap : Bool :=
  match backfill.policy.maxBodyBytes with
  | some cap => cap < request.fetchedBytes
  | none => false

def waitsOut (now : Nat) : Bool :=
  -- Whether a message still waits out the backoff of an interruption.
  match backfill.interrupted message with
  | some (_, retryAt) => now < retryAt
  | none => false

def enqueueAt (now : Nat) : Backfill × Bool :=
  if backfill.cancelled || (backfill.lanes request.message).isSome || backfill.setAside request.message ||
      backfill.waitsOut request.message now then
    (backfill, false)
  else if backfill.overCap request then
    ({ backfill with
        progress := { backfill.progress with skipped := backfill.progress.skipped + 1 }
        setAside := Function.update backfill.setAside request.message true }, false)
  else if backfill.policy.maxBacklog ≤ backfill.background.length then (backfill, false)
  else if !backfill.backgroundRuns && backfill.diskFull then (backfill, false)
  else (((backfill.putLane request.message (some .background)).pushBackground request).addPending, true)

def pushInteractive : Backfill :=
  { backfill.putLane request.message (some .interactive) with interactive := backfill.interactive ++ [request] }

def requestNow : Backfill :=
  if backfill.cancelled then backfill
  else
    match backfill.lanes request.message with
    -- On the wire: it waits for that fetch to settle.
    | some .inFlight =>
      let held := match backfill.deferred request.message with
        | some held => held.absorb request
        | none => request
      { backfill with deferred := Function.update backfill.deferred request.message (some held) }
    | some .interactive =>
      { backfill with
        interactive := backfill.interactive.map
          (fun queued => if queued.message = request.message then queued.absorb request else queued) }
    -- Promoted. The entry it had goes stale.
    | some .background => backfill.pushInteractive request
    | some .fresh => backfill.pushInteractive request
    | none => (backfill.pushInteractive request).addPending

def queueFresh : Backfill × Bool :=
  -- Puts a request on the fresh lane, promoting it out of the backlog.
  let pushed (backfill : Backfill) : Backfill :=
    { backfill.putLane request.message (some .fresh) with fresh := backfill.fresh ++ [request] }
  match backfill.lanes request.message with
  | some .inFlight => (backfill, false)
  | some .interactive => (backfill, false)
  | some .fresh => (backfill, false)
  | some .background => (pushed backfill, true)
  | none => (pushed backfill.addPending, true)

def putFollowup (payloads : Option BodyRequest) : Backfill :=
  match payloads with
  | some payloads => { backfill with followups := Function.update backfill.followups message (some payloads) }
  | none => backfill

def arrived (text payloads : Option BodyRequest) : Backfill × Bool :=
  if backfill.cancelled || !backfill.policy.background || backfill.diskFull then (backfill, false)
  else
    match (text.or payloads).map (fun request => request.message) with
    | none => (backfill, false)
    | some message =>
      match text.filter (fun request => request.want = .text ∨ ¬ backfill.overCap request) with
      | none =>
        match payloads with
        | some payloads => backfill.queueFresh payloads
        | none => (backfill, false)
      | some text =>
        match backfill.lanes message with
        | some .inFlight => (backfill.putFollowup message payloads, false)
        | some .interactive => (backfill.putFollowup message payloads, false)
        | some .fresh => (backfill.putFollowup message payloads, false)
        | _ =>
          ({ backfill with
              setAside := Function.update backfill.setAside message false
              interrupted := Function.update backfill.interrupted message none }.putFollowup message payloads).queueFresh
            text

def claim (priority : Priority) : Backfill × Claim :=
  ({ backfill.putLane request.message (some .inFlight) with
      progress := { backfill.progress with
        pending := backfill.progress.pending - 1
        inFlight := backfill.progress.inFlight + 1 } },
    { request := request, priority := priority, cancel := backfill.cancelToken })

def takeInteractive : Backfill × Option BodyRequest :=
  match firstIn backfill.lanes .interactive backfill.interactive with
  | some (request, rest) => ({ backfill with interactive := rest }, some request)
  | none => ({ backfill with interactive := [] }, none)

def heldBack : Bool :=
  backfill.policy.pauseOnMetered && backfill.metered && request.want.isPayloads

def takeFresh : Backfill × Option BodyRequest :=
  let goes (request : BodyRequest) : Bool :=
    backfill.lanes request.message = some .fresh && !backfill.heldBack request
  match backfill.fresh.find? goes with
  | none => (backfill, none)
  | some request =>
    ({ backfill with
        fresh := (backfill.fresh.eraseP goes).filter (fun queued => backfill.lanes queued.message = some .fresh) },
      some request)

def takeBackground : Backfill × Option BodyRequest :=
  match firstIn backfill.lanes .background backfill.background with
  | some (request, rest) => ({ backfill with background := rest }, some request)
  | none => ({ backfill with background := [] }, none)

def claimed (taken : Backfill × Option BodyRequest) (priority : Priority) : Backfill × Option Claim :=
  match taken with
  | (backfill, some request) => ((backfill.claim request priority).1, some (backfill.claim request priority).2)
  | (backfill, none) => (backfill, none)

def nextInteractiveBody : Backfill × Option Claim :=
  if backfill.cancelled then (backfill, none)
  else
    match claimed backfill.takeInteractive .interactive with
    | (backfill, some claim) => (backfill, some claim)
    | (backfill, none) => claimed backfill.takeFresh .fresh

def nextBody : Backfill × Option Claim :=
  if backfill.cancelled then (backfill, none)
  else
    match backfill.nextInteractiveBody with
    | (backfill, some claim) => (backfill, some claim)
    | (backfill, none) =>
      if backfill.backgroundRuns then claimed backfill.takeBackground .background else (backfill, none)

/-- Up to a number of bodies of the lanes that do not wait. -/
def batchInteractive (backfill : Backfill) : Nat -> Backfill × List Claim
  | 0 => (backfill, [])
  | room + 1 =>
    match backfill.nextInteractiveBody with
    | (backfill, none) => (backfill, [])
    | (backfill, some claim) =>
      ((batchInteractive backfill room).1, claim :: (batchInteractive backfill room).2)

/-- Up to a number of bodies, until their bytes reach the batch's. -/
def batchBodies (backfill : Backfill) (bytes : Nat) : Nat -> Backfill × List Claim
  | 0 => (backfill, [])
  | room + 1 =>
    if bytes < batchBytes then
      match backfill.nextBody with
      | (backfill, none) => (backfill, [])
      | (backfill, some claim) =>
        ((batchBodies backfill (bytes + claim.request.fetchedBytes) room).1,
          claim :: (batchBodies backfill (bytes + claim.request.fetchedBytes) room).2)
    else (backfill, [])

def nextBatch : Backfill × List Claim :=
  match backfill.batchInteractive batchLen with
  | (backfill, []) => backfill.batchBodies 0 batchLen
  | (backfill, batch) => (backfill, batch)

def release (claim : Claim) : Backfill :=
  -- Hands a claim back unfetched, to the front of the line it came from.
  let message := claim.request.message
  if backfill.lanes message ≠ some .inFlight then backfill
  else
    let counted := { backfill with
      progress := { backfill.progress with
        inFlight := backfill.progress.inFlight - 1
        pending := backfill.progress.pending + 1 } }
    if backfill.cancelled then
      { counted.putLane message none with
        progress := { counted.progress with pending := counted.progress.pending - 1 } }
    else
      match claim.priority with
      | .background => (counted.putLane message (some .background)).pushBackground claim.request
      | .interactive =>
        { counted.putLane message (some .interactive) with interactive := claim.request :: counted.interactive }
      | .fresh => { counted.putLane message (some .fresh) with fresh := claim.request :: counted.fresh }

def dropFollowup : Backfill :=
  { backfill with followups := Function.update backfill.followups message none }

def setAsideNow : Backfill :=
  { backfill with setAside := Function.update backfill.setAside message true }

def retryWait (tries : Nat) : Nat := min (retryBase * 2 ^ min tries 16) retryCap

def settle (outcome : Outcome) (now : Nat) : Backfill :=
  -- What an outcome does, once the message has left its lane.
  match outcome with
  | .stored bytes =>
    let stored := { backfill with
      interrupted := Function.update backfill.interrupted message none
      progress := { backfill.progress with
        stored := backfill.progress.stored + 1
        bytes := backfill.progress.bytes + bytes } }
    match backfill.followups message with
    | some payloads => ((stored.dropFollowup message).queueFresh payloads).1
    | none => stored
  | .gone =>
    { (backfill.dropFollowup message).setAsideNow message with
      progress := { backfill.progress with gone := backfill.progress.gone + 1 } }
  | .failed =>
    { (backfill.dropFollowup message).setAsideNow message with
      progress := { backfill.progress with failed := backfill.progress.failed + 1 } }
  | .interrupted =>
    let tries := match backfill.interrupted message with
      | some (tries, _) => tries
      | none => 0
    { backfill.dropFollowup message with
      progress := { backfill.progress with failed := backfill.progress.failed + 1 }
      interrupted := Function.update backfill.interrupted message (some (tries + 1, now + retryWait tries)) }

def offerDeferred : Backfill :=
  -- Whatever was asked for while the message was on the wire is asked for again.
  match backfill.deferred message with
  | some held => { backfill with deferred := Function.update backfill.deferred message none }.requestNow held
  | none => backfill

def finishedAt (outcome : Outcome) (now : Nat) : Backfill :=
  let left := backfill.putLane message none
  if backfill.lanes message ≠ some .inFlight then left
  else
    let counted := { left with progress := { left.progress with inFlight := left.progress.inFlight - 1 } }
    (counted.settle message outcome now).offerDeferred message

def cancel : Backfill :=
  { backfill with
    cancelled := true, interactive := [], fresh := [], followups := fun _ => none, background := [],
    lanes := fun _ => none, deferred := fun _ => none
    progress := { backfill.progress with pending := 0, inFlight := 0 } }

def reconnected : Backfill := { backfill with interrupted := fun _ => none }

def restart : Backfill :=
  { backfill with cancelled := false, cancelToken := backfill.cancelToken + 1 }

end Backfill

/-- A backfill with the claims it handed out, in order, and the places of those that are neither handed back nor
reported since the last cancel. -/
structure Session where
  backfill : Backfill
  claims : List Claim
  live : List Nat

inductive Event where
  | enqueue (request : BodyRequest) (now : Nat)
  | requestNow (request : BodyRequest)
  | arrived (text payloads : Option BodyRequest)
  | nextBody
  | nextInteractiveBody
  | nextBatch
  | release (ticket : Nat)
  | finished (ticket : Nat) (outcome : Outcome) (now : Nat)
  -- A report nobody holds a claim for.
  | reported (message : MessageId) (outcome : Outcome) (now : Nat)
  | cancel
  | reconnected
  | restart
  | setMetered (metered : Bool)
  | setUserActive (active : Bool)
  | setDiskFull (full : Bool)
  deriving DecidableEq

namespace Session

def new (policy : BackfillPolicy) : Session := { backfill := Backfill.new policy, claims := [], live := [] }

def handOut (session : Session) (backfill : Backfill) (claims : List Claim) : Session :=
  { backfill := backfill
    claims := session.claims ++ claims
    live := session.live ++ List.range' session.claims.length claims.length }

def step (session : Session) : Event -> Session
  | .enqueue request now => { session with backfill := (session.backfill.enqueueAt request now).1 }
  | .requestNow request => { session with backfill := session.backfill.requestNow request }
  | .arrived text payloads => { session with backfill := (session.backfill.arrived text payloads).1 }
  | .nextBody => session.handOut session.backfill.nextBody.1 session.backfill.nextBody.2.toList
  | .nextInteractiveBody =>
    session.handOut session.backfill.nextInteractiveBody.1 session.backfill.nextInteractiveBody.2.toList
  | .nextBatch => session.handOut session.backfill.nextBatch.1 session.backfill.nextBatch.2
  | .release ticket =>
    match session.claims[ticket]? with
    | none => session
    | some claim =>
      { session with backfill := session.backfill.release claim, live := session.live.erase ticket }
  | .finished ticket outcome now =>
    match session.claims[ticket]? with
    | none => session
    | some claim =>
      { session with
        backfill := session.backfill.finishedAt claim.request.message outcome now
        live := session.live.erase ticket }
  | .reported message outcome now =>
    { session with backfill := session.backfill.finishedAt message outcome now }
  | .cancel => { session with backfill := session.backfill.cancel, live := [] }
  | .reconnected => { session with backfill := session.backfill.reconnected }
  | .restart => { session with backfill := session.backfill.restart }
  | .setMetered metered => { session with backfill := { session.backfill with metered := metered } }
  | .setUserActive active => { session with backfill := { session.backfill with userActive := active } }
  | .setDiskFull full => { session with backfill := { session.backfill with diskFull := full } }

end Session

end Postio.Bodies

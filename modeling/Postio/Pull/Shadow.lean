import Postio.Pull.Marker

set_option autoImplicit false

namespace Postio.Pull

/-- What a queue row holds to from the moment it is written. -/
structure Pledge where
  target : OperationTarget
  operation : Operation
  mailboxId : Option MailboxId
  sourceRemoteId : Option RemoteId
  deriving DecidableEq

def pledge (queued : QueuedOperation) : Pledge :=
  { target := queued.target, operation := queued.operation, mailboxId := queued.mailboxId
    sourceRemoteId := queued.sourceRemoteId }

/-- A move or delete of a message out of a mailbox. -/
structure Pledge.Leaves (held : Pledge) (id : MessageId) (mailboxId : MailboxId) : Prop where
  target : held.target = .message id
  operation : Store.leaves held.operation = true
  mailboxId : held.mailboxId = some mailboxId

structure Mirror where
  store : Store
  copy : MailboxId -> RemoteId -> Option MessageId

/-- A step of the client's, or of the server's: it lists a copy of a row under a name, or lists a name no more. The name
a move's answer gives is written to the row. -/
inductive Change where
  | here (event : Event)
  | adopts (id : MessageId) (mailboxId : MailboxId) (uid : Uid) (uidValidity : Generation) (remoteId : RemoteId)
  | lists (mailboxId : MailboxId) (remoteId : RemoteId) (id : MessageId)
  | drops (mailboxId : MailboxId) (remoteId : RemoteId)

namespace Mirror

variable (store : Store) (mirror : Mirror) (queue : OperationQueue) (copy : MailboxId -> RemoteId -> Option MessageId)
    (mailboxId : MailboxId) (batch : List Mail) (landed : MessageId × Mail)

def setCopy (remoteId : RemoteId) (id : Option MessageId) : MailboxId -> RemoteId -> Option MessageId :=
  fun mailbox remote => if mailbox = mailboxId ∧ remote = remoteId then id else copy mailbox remote

def attributed :
    MailboxId -> RemoteId -> Option MessageId :=
  -- A message the server lists, and no row has had yet, is from now on the row's it is written to.
  match landed.2.server.remoteId with
  | none => copy
  | some remoteId =>
    if (copy landed.2.mailboxId remoteId).isSome then copy
    else setCopy copy landed.2.mailboxId remoteId (some landed.1)

def placed : List (MessageId × Mail) :=
  if (store.upsertBatch batch).isSome then store.landings (batch.filter store.retained) else []

def step (mirror : Mirror) : Change -> Mirror
  | .here (.pull batch) =>
    { store := mirror.store.step (.pull batch)
      copy := (placed mirror.store batch).foldl attributed mirror.copy }
  | .here event => { mirror with store := mirror.store.step event }
  | .adopts id mailboxId uid uidValidity remoteId =>
    { mirror with store := mirror.store.adoptMovedIdentity id mailboxId uid uidValidity remoteId }
  | .lists mailboxId remoteId id => { mirror with copy := setCopy mirror.copy mailboxId remoteId (some id) }
  | .drops mailboxId remoteId => { mirror with copy := setCopy mirror.copy mailboxId remoteId none }

/-! ### What a step opens -/

/-- The pledges a step makes, or takes up again. -/
def opened : Event -> List Pledge
  | .enqueue _ target operation _ _ =>
    [{ target, operation, mailboxId := operation.mailbox, sourceRemoteId := store.sourceOf target }]
  | .enqueueSet _ set operation _ =>
    (store.messages.rows.filter set).map (fun row =>
      { target := .message row.id, operation, mailboxId := operation.mailbox, sourceRemoteId := row.server.remoteId })
  | .enqueueMany _ ids operation _ =>
    (store.messages.rows.filter (fun row => row.id ∈ ids)).map (fun row =>
      { target := .message row.id, operation, mailboxId := operation.mailbox, sourceRemoteId := row.server.remoteId })
  | .mark id state _ _ _ => if state.isSettled then [] else (store.queue.get id).toList.map pledge
  | .defer id _ _ => (store.queue.get id).toList.map pledge
  | _ => []

def Accounted (before after : OperationQueue) (opens : List Pledge) : Prop :=
  ∀ queued ∈ after.rows, queued.unsettled = true ->
    (∃ earlier ∈ before.rows, earlier.unsettled = true ∧ pledge earlier = pledge queued) ∨ pledge queued ∈ opens

theorem accounted_same (opens : List Pledge) : Accounted queue queue opens :=
  fun queued member waits => .inl ⟨queued, member, waits, rfl⟩

theorem accounted_removed (gone : QueuedOperation -> Bool) (opens : List Pledge) :
    Accounted queue (queue.remove gone) opens :=
  fun queued member waits => .inl ⟨queued, List.mem_of_mem_filter member, waits, rfl⟩

theorem accounted_enqueueEach (accountId : AccountId) (chosen : Mail -> Bool) (operation : Operation)
    (now : Instant) :
    Accounted store.queue (store.enqueueWhere accountId chosen operation now).queue
      ((store.messages.rows.filter chosen).map (fun row =>
        { target := .message row.id, operation, mailboxId := operation.mailbox
          sourceRemoteId := row.server.remoteId })) := by
  intro queued member waits
  change queued ∈ (store.queue.enqueueEach accountId _ operation now).rows at member
  rw [OperationQueue.enqueueEach_rows] at member
  rcases List.mem_append.mp member with old | new
  next => exact .inl ⟨queued, old, waits, rfl⟩
  next =>
    obtain ⟨message, inside, index, -, -, rfl⟩ := OperationQueue.mem_freshRows _ _ _ _ _ queued new
    obtain ⟨row, taken, rfl⟩ := List.mem_map.mp inside
    exact .inr (List.mem_map.mpr ⟨row, taken, rfl⟩)

theorem accounted_rewritten (after : OperationQueue) (id : OperationId)
    (change : QueuedOperation -> QueuedOperation) (kept : ∀ queued, pledge (change queued) = pledge queued)
    (rows : after.rows = queue.rows.map (fun row => if row.id = id then change row else row)) :
    Accounted queue after ((queue.get id).toList.map pledge) := by
  -- Where one row is rewritten and keeps its pledge, it is the only one that can be opened.
  intro queued member waits
  rw [rows] at member
  obtain ⟨row, inside, rfl⟩ := List.mem_map.mp member
  by_cases same : row.id = id
  next =>
    right
    rw [if_pos same, kept]
    cases held : queue.get id with
    | none => exact absurd same (by simpa using List.find?_eq_none.mp held row inside)
    | some found =>
      obtain ⟨-, -, unique⟩ := Store.queued_unique queue id found held
      rw [unique row inside same]
      simp
  next =>
    rw [if_neg same] at waits ⊢
    exact .inl ⟨row, inside, waits, rfl⟩

def restated (state : OperationState) (now : Instant) (error : Option String) (countAttempt : Bool)
    (row : QueuedOperation) : QueuedOperation :=
  -- How marking leaves a row of the queue.
  { row with
    state
    attempts := row.attempts + countAttempt.toNat
    lastError := error.or row.lastError
    updatedAt := now }

theorem setState_rows (after : OperationQueue) (id : OperationId) (state : OperationState) (now : Instant)
    (error : Option String) (countAttempt : Bool) (done : queue.setState id state now error countAttempt = some after) :
    after.rows = queue.rows.map (fun row => if row.id = id then restated state now error countAttempt row else row) := by
  unfold OperationQueue.setState at done
  split at done
  next =>
    cases done
    rfl
  next => cases done

theorem setState_accounted (id : OperationId) (state : OperationState) (now : Instant)
    (error : Option String) (countAttempt : Bool) :
    Accounted store.queue (store.setState id state now error countAttempt).queue
      (if state.isSettled then [] else (store.queue.get id).toList.map pledge) := by
  unfold Store.setState
  split
  next queued queue held done =>
    have rows := setState_rows store.queue queue id state now error countAttempt done
    split
    next settled =>
      -- a row settled here is not among the unsettled ones afterwards
      intro later member waits
      change later ∈ queue.rows at member
      rw [rows] at member
      obtain ⟨row, inside, rfl⟩ := List.mem_map.mp member
      by_cases same : row.id = id
      next =>
        rw [if_pos same] at waits
        simp [QueuedOperation.unsettled, restated, settled] at waits
      next =>
        rw [if_neg same] at waits ⊢
        exact .inl ⟨row, inside, waits, rfl⟩
    next =>
      exact accounted_rewritten store.queue queue id (restated state now error countAttempt) (fun _ => rfl) rows
  next => exact accounted_same store.queue _

theorem defer_accounted (id : OperationId) (retryAt : Instant) (error : String) :
    Accounted store.queue (store.defer id retryAt error).queue (opened store (.defer id retryAt error)) := by
  unfold Store.defer
  split
  next queue done =>
    apply accounted_rewritten store.queue queue id (fun row =>
      { row with state := .pending, attempts := row.attempts + 1, lastError := some error
                 nextAttemptAt := some retryAt, updatedAt := retryAt }) (fun _ => rfl)
    unfold OperationQueue.defer at done
    split at done
    next =>
      cases done
      rfl
    next => cases done
  next => exact accounted_same store.queue _

theorem requeue_accounted (accountId : AccountId) (now : Instant) (opens : List Pledge) :
    Accounted store.queue (store.requeueInFlight accountId now).queue opens := by
  intro queued member waits
  obtain ⟨row, inside, rfl⟩ := List.mem_map.mp member
  left
  unfold Store.requeued at waits ⊢
  split
  next sent =>
    simp only [Bool.and_eq_true, decide_eq_true_eq] at sent
    exact ⟨row, inside, by simp [QueuedOperation.unsettled, sent.2, OperationState.isSettled], rfl⟩
  next other =>
    rw [if_neg other] at waits
    exact ⟨row, inside, waits, rfl⟩

theorem step_accounted (event : Event) :
    Accounted store.queue (store.step event).queue (opened store event) := by
  cases event with
  | enqueue accountId target operation now notBefore =>
    intro queued member waits
    rcases List.mem_append.mp member with old | new
    next => exact .inl ⟨queued, old, waits, rfl⟩
    next =>
      cases List.mem_singleton.mp new
      exact .inr (List.mem_singleton.mpr rfl)
  | enqueueSet accountId set operation now =>
    unfold Store.step Store.enqueueSet
    dsimp only
    split
    next => exact accounted_enqueueEach store accountId set operation now
    next => exact accounted_same store.queue _
  | enqueueMany accountId ids operation now =>
    unfold Store.step Store.enqueueMany
    dsimp only
    split
    next => exact accounted_same store.queue _
    next => exact accounted_enqueueEach store accountId (fun row => row.id ∈ ids) operation now
  | mark id state now error countAttempt => exact setState_accounted store id state now error countAttempt
  | defer id retryAt error => exact defer_accounted store id retryAt error
  | requeue accountId now => exact requeue_accounted store accountId now _
  | delete id =>
    unfold Store.step Store.delete
    dsimp only
    split
    next => exact accounted_removed store.queue _ _
    next => exact accounted_same store.queue _
  | prune accountId before => exact accounted_removed store.queue _ _
  | pull batch =>
    unfold Store.step
    dsimp only
    cases done : store.upsertBatch batch with
    | none => exact accounted_same store.queue _
    | some after =>
      rw [Option.getD_some, store.upsertAll_queue (batch.filter store.retained) after done]
      exact accounted_same store.queue _
  | hide ids deleted => exact accounted_same store.queue _
  | moveTo ids mailboxId => exact accounted_same store.queue _
  | moveSet set mailboxId => exact accounted_same store.queue _

/-! ### The shadow names what the server lists -/

def Names (held : Pledge) : Prop :=
  ∀ id mailboxId remoteId, held.Leaves id mailboxId -> copy mailboxId remoteId = some id ->
    held.sourceRemoteId = some remoteId

def Named : Prop :=
  ∀ queued ∈ mirror.store.queue.rows, queued.unsettled = true -> Names mirror.copy (pledge queued)

def Leaving (id : MessageId) (mailboxId : MailboxId) : Prop :=
  ∃ queued ∈ store.queue.rows, queued.unsettled = true ∧ (pledge queued).Leaves id mailboxId

/-- A step under which a shadow keeps hiding what it is there to hide. -/
def Steady : Change -> Prop
  | .here (.pull batch) =>
    ∀ landed ∈ placed mirror.store batch, ∀ remoteId, landed.2.server.remoteId = some remoteId ->
      mirror.copy landed.2.mailboxId remoteId = none -> ¬ Leaving mirror.store landed.1 landed.2.mailboxId
  | .here event => ∀ held ∈ opened mirror.store event, Names mirror.copy held
  | .lists mailboxId remoteId id =>
    ∀ queued ∈ mirror.store.queue.rows, queued.unsettled = true -> (pledge queued).Leaves id mailboxId ->
      queued.sourceRemoteId = some remoteId
  | .adopts _ _ _ _ _ | .drops _ _ => True

/-- No message a pull writes is the copy of a row that something unsettled takes out of that mailbox, and nothing is
shadowed but by what is unsettled. -/
structure Good (mirror : Mirror) (change : Change) : Prop where
  stays : ∀ batch, change = .here (.pull batch) -> ∀ landed ∈ placed mirror.store batch, ∀ remoteId id,
    landed.2.server.remoteId = some remoteId -> mirror.copy landed.2.mailboxId remoteId = some id ->
      ¬ Leaving mirror.store id landed.2.mailboxId
  lifts : ∀ mailboxId remoteId, (mailboxId, remoteId) ∈ (step mirror change).store.shadowed ->
    ∃ queued ∈ (step mirror change).store.queue.rows, queued.unsettled = true ∧ Store.leaves queued.operation = true ∧
      queued.mailboxId = some mailboxId ∧ queued.sourceRemoteId = some remoteId

theorem mem_shadowed (remoteId : RemoteId) : (mailboxId, remoteId) ∈ store.shadowed <->
      ∃ queued ∈ store.queue.rows, queued.unsettled = true ∧ Store.leaves queued.operation = true ∧
        queued.mailboxId = some mailboxId ∧ queued.sourceRemoteId = some remoteId := by
  unfold Store.shadowed
  rw [List.mem_filterMap]
  apply exists_congr
  intro queued
  apply and_congr_right
  intro _
  unfold Store.shadow
  split
  next open_ =>
    simp only [Bool.and_eq_true] at open_
    cases place : queued.mailboxId with
    | none => simp
    | some mailbox =>
      cases name : queued.sourceRemoteId with
      | none => simp
      | some remote => simp [open_]
  next shut =>
    simp only [Bool.and_eq_true, not_and] at shut
    constructor
    next => exact fun none => by cases none
    next => exact fun met => absurd met.2.1 (shut met.1)

theorem landings_mem (member : landed ∈ store.landings batch) : landed.2 ∈ batch := by
  induction batch generalizing store with
  | nil => cases member
  | cons mail rest ih =>
    unfold Store.landings at member
    split at member
    next => cases member
    next next _ =>
      rcases List.mem_cons.mp member with here | later
      next =>
        rw [here]
        exact List.mem_cons_self ..
      next => exact List.mem_cons_of_mem mail (ih next later)

theorem placed_retained (member : landed ∈ placed store batch) : store.retained landed.2 = true := by
  unfold placed at member
  split at member
  next => exact (List.mem_filter.mp (landings_mem store _ landed member)).2
  next => cases member

theorem placed_good (named : Named mirror) (batch : List Mail) (landed : MessageId × Mail)
    (member : landed ∈ placed mirror.store batch) (remoteId : RemoteId) (id : MessageId)
    (name : landed.2.server.remoteId = some remoteId) (copied : mirror.copy landed.2.mailboxId remoteId = some id) :
    ¬ Leaving mirror.store id landed.2.mailboxId := by
  rintro ⟨queued, inside, waits, leaves⟩
  have snapshot := named queued inside waits id landed.2.mailboxId remoteId leaves copied
  have hidden : (landed.2.mailboxId, remoteId) ∈ mirror.store.shadowed :=
    (mem_shadowed mirror.store landed.2.mailboxId remoteId).mpr
      ⟨queued, inside, waits, leaves.operation, leaves.mailboxId, snapshot⟩
  have kept := placed_retained mirror.store batch landed member
  unfold Store.retained at kept
  rw [name] at kept
  simp [hidden] at kept

theorem attributed_spec (landed : List (MessageId × Mail)) (copy : MailboxId -> RemoteId -> Option MessageId)
    (mailboxId : MailboxId) (remoteId : RemoteId) (id : MessageId)
    (copied : landed.foldl attributed copy mailboxId remoteId = some id) :
    copy mailboxId remoteId = some id ∨ copy mailboxId remoteId = none ∧
      ∃ mail, (id, mail) ∈ landed ∧ mail.mailboxId = mailboxId ∧ mail.server.remoteId = some remoteId := by
  induction landed generalizing copy with
  | nil => exact .inl copied
  | cons first rest ih =>
    rw [List.foldl_cons] at copied
    -- an entry already there is kept, and a new one is the first message's
    have here : attributed copy first mailboxId remoteId = copy mailboxId remoteId ∨
        copy mailboxId remoteId = none ∧ attributed copy first mailboxId remoteId = some first.1 ∧
          first.2.mailboxId = mailboxId ∧ first.2.server.remoteId = some remoteId := by
      unfold attributed
      cases name : first.2.server.remoteId with
      | none => exact .inl rfl
      | some remote =>
        dsimp only
        by_cases there : (copy first.2.mailboxId remote).isSome = true
        next =>
          rw [if_pos there]
          exact .inl rfl
        next =>
          rw [if_neg there]
          unfold setCopy
          split
          next same =>
            obtain ⟨rfl, rfl⟩ := same
            exact .inr ⟨by simpa using there, rfl, rfl, rfl⟩
          next => exact .inl rfl
    rcases ih (attributed copy first) copied with old | ⟨missing, mail, member, mailbox, name⟩
    next =>
      rcases here with same | ⟨none, now, mailbox, name⟩
      next => exact .inl (same.symm.trans old)
      next =>
        cases now.symm.trans old
        exact .inr ⟨none, first.2, List.mem_cons_self .., mailbox, name⟩
    next =>
      rcases here with same | ⟨_, now, _, _⟩
      next => exact .inr ⟨same.symm.trans missing, mail, List.mem_cons_of_mem first member, mailbox, name⟩
      next => cases missing.symm.trans now

theorem named_event (event : Event) (named : Named mirror)
    (steady : ∀ held ∈ opened mirror.store event, Names mirror.copy held) :
    Named { mirror with store := mirror.store.step event } := by
  intro queued member waits
  rcases step_accounted mirror.store event queued member waits with ⟨earlier, inside, open_, same⟩ | new
  next =>
    have before := named earlier inside open_
    rw [same] at before
    exact before
  next => exact steady (pledge queued) new

theorem named_pull (named : Named mirror)
    (steady : Steady mirror (.here (.pull batch))) : Named (step mirror (.here (.pull batch))) := by
  have kept := named_event mirror (.pull batch) named (fun _ none => by cases none)
  intro queued member waits id mailboxId remoteId leaves copied
  rcases attributed_spec (placed mirror.store batch) mirror.copy mailboxId remoteId id copied with
    old | ⟨missing, mail, landed, mailbox, name⟩
  next => exact kept queued member waits id mailboxId remoteId leaves old
  next =>
    rcases step_accounted mirror.store (.pull batch) queued member waits with ⟨earlier, inside, open_, same⟩ | new
    next =>
      subst mailbox
      rw [← same] at leaves
      exact absurd ⟨earlier, inside, open_, leaves⟩ (steady (id, mail) landed remoteId name missing)
    next => cases new

theorem named_step (change : Change) (named : Named mirror) (steady : Steady mirror change) :
    Named (step mirror change) := by
  cases change with
  | here event =>
    cases event with
    | pull batch => exact named_pull mirror batch named steady
    | enqueue accountId target operation now notBefore => exact named_event mirror _ named steady
    | enqueueSet accountId set operation now => exact named_event mirror _ named steady
    | enqueueMany accountId ids operation now => exact named_event mirror _ named steady
    | mark id state now error countAttempt => exact named_event mirror _ named steady
    | defer id retryAt error => exact named_event mirror _ named steady
    | requeue accountId now => exact named_event mirror _ named steady
    | delete id => exact named_event mirror _ named steady
    | prune accountId before => exact named_event mirror _ named steady
    | hide ids deleted => exact named_event mirror _ named steady
    | moveTo ids mailboxId => exact named_event mirror _ named steady
    | moveSet set mailboxId => exact named_event mirror _ named steady
  | adopts id mailboxId uid uidValidity remoteId =>
    intro queued member waits
    change queued ∈ (mirror.store.adoptMovedIdentity id mailboxId uid uidValidity remoteId).queue.rows at member
    rw [mirror.store.adoptMovedIdentity_queue] at member
    exact named queued member waits
  | lists mailboxId remoteId id =>
    intro queued member waits other mailbox remote leaves copied
    change setCopy mirror.copy mailboxId remoteId (some id) mailbox remote = some other at copied
    unfold setCopy at copied
    split at copied
    next same =>
      obtain ⟨rfl, rfl⟩ := same
      cases copied
      exact steady queued member waits leaves
    next => exact named queued member waits other mailbox remote leaves copied
  | drops mailboxId remoteId =>
    intro queued member waits other mailbox remote leaves copied
    change setCopy mirror.copy mailboxId remoteId none mailbox remote = some other at copied
    unfold setCopy at copied
    split at copied
    next => cases copied
    next => exact named queued member waits other mailbox remote leaves copied

theorem good_step (change : Change) (named : Named mirror) : Good mirror change := by
  constructor
  next =>
    intro batch _ landed member remoteId id name copied
    exact placed_good mirror named batch landed member remoteId id name copied
  next => exact fun mailboxId remoteId hidden => (mem_shadowed _ mailboxId remoteId).mp hidden

/-- In a run of steady steps, what the user moved away does not come back while the server has not been told, and what
was told of is hidden no longer. -/
theorem shadows_hold (start : Named mirror) (changes : List Change)
    (steady : Run.Along step Steady mirror changes) : Run.Along step Good mirror changes :=
  Run.along_invariant step Named Steady Good named_step (fun state change named _ => good_step state change named) mirror
    changes start steady

/-! ### Moved once, and moved on -/

def unread : Mirror := { store := Store.nothing, copy := fun _ _ => none }

theorem unread_named : Named unread := by
  intro queued member
  cases member

def inMailbox (remoteId : Nat) : Mail := (Store.listing remoteId 1 ∅).intoMessage ⟨1⟩ mailboxId

def movedOnce : List Change :=
  [.here (.pull [inMailbox ⟨1⟩ 1]), .here (.enqueueMany ⟨1⟩ [⟨1⟩] (.move ⟨1⟩ ⟨2⟩) 6), .here (.moveTo [⟨1⟩] ⟨2⟩),
    .here (.pull [inMailbox ⟨1⟩ 1])]

def movedOn : List Change :=
  movedOnce ++ [.here (.mark ⟨1⟩ .done 7 none false), .drops ⟨1⟩ ⟨1⟩, .lists ⟨2⟩ ⟨4⟩ ⟨1⟩,
    .here (.enqueueMany ⟨1⟩ [⟨1⟩] (.move ⟨2⟩ ⟨3⟩) 8), .here (.moveTo [⟨1⟩] ⟨3⟩)]

set_option maxRecDepth 4000 in
theorem shadows_hold_movedOnce : Run.Along step Good unread movedOnce := by
  apply shadows_hold unread unread_named movedOnce
  refine ⟨?_, ?_, ?_, ?_, trivial⟩
  next =>
    rintro landed - remoteId - - ⟨queued, member, -⟩
    cases member
  next =>
    have opens : opened (step unread (.here (.pull [inMailbox ⟨1⟩ 1]))).store
        (.enqueueMany ⟨1⟩ [⟨1⟩] (.move ⟨1⟩ ⟨2⟩) 6) =
          [{ target := .message ⟨1⟩, operation := .move ⟨1⟩ ⟨2⟩, mailboxId := some ⟨1⟩, sourceRemoteId := some ⟨1⟩ }] := by
      decide
    intro held member id mailboxId remoteId leaves copied
    rw [opens] at member
    cases List.mem_singleton.mp member
    change (if mailboxId = ⟨1⟩ ∧ remoteId = ⟨1⟩ then some ⟨1⟩ else none) = some id at copied
    split at copied
    next same => rw [same.2]
    next => cases copied
  next => exact fun _ none => by cases none
  next =>
    intro landed member
    have hidden : placed (Run.run step unread (movedOnce.take 3)).store [inMailbox ⟨1⟩ 1] = [] := by decide
    change landed ∈ placed (Run.run step unread (movedOnce.take 3)).store [inMailbox ⟨1⟩ 1] at member
    rw [hidden] at member
    cases member

set_option maxRecDepth 4000 in
/-- The second move knows no name to hide, and a pull of the middle mailbox brings the message back. -/
theorem moved_comes_back : ¬ ∀ changes : List Change, Run.Along step Good unread changes := by
  intro always
  have whole := always (movedOn ++ [.here (.pull [inMailbox ⟨2⟩ 4])])
  have last := ((Run.along_append step Good unread movedOn _).mp whole).2.1
  have lands : (⟨2⟩, inMailbox ⟨2⟩ 4) ∈ placed (Run.run step unread movedOn).store [inMailbox ⟨2⟩ 4] := by decide
  have copied : (Run.run step unread movedOn).copy ⟨2⟩ ⟨4⟩ = some ⟨1⟩ := by decide
  have leaving : (Run.run step unread movedOn).store.queue.rows.any (fun queued =>
      queued.unsettled && queued.target = .message ⟨1⟩ && Store.leaves queued.operation &&
        queued.mailboxId = some ⟨2⟩) = true := by decide
  apply last.stays _ rfl _ lands ⟨4⟩ ⟨1⟩ rfl copied
  obtain ⟨queued, member, open_⟩ := List.any_eq_true.mp leaving
  simp only [Bool.and_eq_true, decide_eq_true_eq] at open_
  exact ⟨queued, member, open_.1.1.1, ⟨open_.1.1.2, open_.1.2, open_.2⟩⟩

end Mirror

end Postio.Pull

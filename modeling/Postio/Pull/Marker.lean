import Postio.Lib.Run
import Postio.Pull.FlagIntents

set_option autoImplicit false

namespace Postio.Pull

/-- What writes the rows, their marker, or the queue. -/
inductive Event where
  | enqueue (accountId : AccountId) (target : OperationTarget) (operation : Operation) (now : Instant)
      (notBefore : Option Instant)
  | enqueueSet (accountId : AccountId) (set : Mail -> Bool) (operation : Operation) (now : Instant)
  | enqueueMany (accountId : AccountId) (ids : List MessageId) (operation : Operation) (now : Instant)
  | mark (id : OperationId) (state : OperationState) (now : Instant) (error : Option String) (countAttempt : Bool)
  | defer (id : OperationId) (retryAt : Instant) (error : String)
  | requeue (accountId : AccountId) (now : Instant)
  | delete (id : OperationId)
  | prune (accountId : AccountId) (before : Instant)
  | pull (batch : List Mail)
  | hide (ids : List MessageId) (deleted : Bool)
  | moveTo (ids : List MessageId) (mailboxId : MailboxId)
  | moveSet (set : Mail -> Bool) (mailboxId : MailboxId)

namespace Store

variable (store : Store) (queue : OperationQueue) (accountId : AccountId) (id : OperationId) (ids : List MessageId)
    (target : OperationTarget) (queued : QueuedOperation) (row : Mail) (operation : Operation) (now : Instant)

/-- A batch that fails is rolled back. -/
def step : Event -> Store
  | .enqueue accountId target operation now notBefore => store.enqueue accountId target operation now notBefore
  | .enqueueSet accountId set operation now => store.enqueueSet accountId set operation now
  | .enqueueMany accountId ids operation now => store.enqueueMany accountId ids operation now
  | .mark id state now error countAttempt => store.setState id state now error countAttempt
  | .defer id retryAt error => store.defer id retryAt error
  | .requeue accountId now => store.requeueInFlight accountId now
  | .delete id => store.delete id
  | .prune accountId before => store.pruneSettled accountId before
  | .pull batch => (store.upsertBatch batch).getD store
  | .hide ids deleted => store.setDeletedLocally ids deleted
  | .moveTo ids mailboxId => store.moveTo ids mailboxId
  | .moveSet set mailboxId => store.moveSet set mailboxId

def outstanding : Bool :=
  queue.rows.any (fun queued => queued.unsettled && isTarget queued.target row)

def Exact : Prop :=
  ∀ id row, store.get id = some row -> row.sync.hasPendingOperations = outstanding store.queue row

def Undivided : Prop :=
  ∀ id row, store.get id = some row -> isTarget target row = true -> outstanding queue row = true ->
    hasPending queue target = true

/-- When a step leaves the marker exact. -/
def Steady : Event -> Prop
  | .mark id state _ _ _ =>
    state.isSettled = true -> ∀ queued, store.queue.get id = some queued ->
      Undivided store (store.queue.delete id) queued.target
  | .delete id => ∀ queued, store.queue.get id = some queued -> Undivided store (store.queue.delete id) queued.target
  | .defer id _ _ =>
    ∀ queued, store.queue.get id = some queued -> queued.unsettled = false ->
      ∀ other row, store.get other = some row -> isTarget queued.target row = true -> outstanding store.queue row = true
  | .pull batch =>
    (store.upsertBatch batch).isSome = true ->
      ∀ id mail, lastFor id (store.landings (batch.filter store.retained)) = some mail ->
        mail.sync.hasPendingOperations = outstanding store.queue { mail with id }
  | .hide ids deleted => ∀ id row, store.get id = some row -> id ∈ ids -> outstanding store.queue row = deleted
  | .moveTo ids _ => ∀ id row, store.get id = some row -> id ∈ ids -> outstanding store.queue row = true
  | .moveSet set _ => ∀ id row, store.get id = some row -> set row = true -> outstanding store.queue row = true
  | _ => True

/-! ### Which rows a target covers -/

theorem isTarget_congr (other : Mail) (ids : row.id = other.id)
    (threads : row.threadId = other.threadId) : isTarget target row = isTarget target other := by
  unfold isTarget
  rw [ids, threads]

theorem outstanding_congr (other : Mail) (ids : row.id = other.id)
    (threads : row.threadId = other.threadId) : outstanding queue row = outstanding queue other := by
  unfold outstanding
  congr
  funext queued
  rw [isTarget_congr queued.target row other ids threads]

theorem hasPending_outstanding (covered : isTarget target row = true) (pending : hasPending queue target = true) : outstanding queue row = true := by
  obtain ⟨queued, member, named⟩ := List.any_eq_true.mp pending
  simp only [Bool.and_eq_true, decide_eq_true_eq] at named
  apply List.any_eq_true.mpr
  exact ⟨queued, member, by simp [named.1, named.2, covered]⟩

/-! ### A write of the marker -/

theorem rewrite_exact (chosen : Mail -> Bool) (change : Mail -> Mail)
    (kept : ∀ row, (change row).id = row.id) (pending : Mail -> Bool)
    (marks : ∀ row, (change row).sync.hasPendingOperations = pending row)
    (threads : ∀ row, (change row).threadId = row.threadId) (exact : Exact store)
    (past : ∀ id row, store.get id = some row -> chosen row = false ->
      outstanding queue row = outstanding store.queue row) :
    Exact ({ store with queue := queue : Store }.updateWhere chosen change kept) <->
      ∀ id row, store.get id = some row -> chosen row = true -> outstanding queue row = pending row := by
  have rows : ∀ id, ({ store with queue := queue : Store }.updateWhere chosen change kept).get id =
      (store.get id).map (fun row => if chosen row then change row else row) := fun id =>
    ({ store with queue := queue : Store }).get_updateWhere chosen change kept id
  constructor
  next =>
    intro holds id row held taken
    have now := holds id (change row) (by rw [rows, held, Option.map_some, if_pos taken])
    rw [marks] at now
    exact (outstanding_congr queue row (change row) (kept row).symm (threads row).symm).trans now.symm
  next =>
    intro met id later held
    rw [rows] at held
    obtain ⟨row, there, same⟩ := Option.map_eq_some_iff.mp held
    change later.sync.hasPendingOperations = outstanding queue later
    by_cases taken : chosen row = true
    next =>
      rw [if_pos taken] at same
      subst same
      rw [marks, ← met id row there taken]
      exact outstanding_congr queue row (change row) (kept row).symm (threads row).symm
    next =>
      rw [if_neg taken] at same
      subst same
      rw [past id row there (by simpa using taken)]
      exact exact id row there

theorem requeue_exact (exact : Exact store) :
    Exact { store with queue := queue } <->
      ∀ id row, store.get id = some row -> outstanding queue row = outstanding store.queue row := by
  -- A change of the queue alone.
  constructor
  next =>
    intro holds id row held
    exact (holds id row held).symm.trans (exact id row held)
  next =>
    intro same id row held
    exact (exact id row held).trans (same id row held).symm

theorem refresh_exact (exact : Exact store)
    (past : ∀ row, isTarget target row = false -> outstanding queue row = outstanding store.queue row) :
    Exact ({ store with queue := queue : Store }.refreshPendingFlag target) <-> Undivided store queue target := by
  -- A refresh after a change of the queue that concerns the target alone.
  have written := store.rewrite_exact queue (isTarget target) (marked (hasPending queue target)) (fun _ => rfl)
    (fun _ => hasPending queue target) (fun _ => rfl) (fun _ => rfl) exact (fun _ row _ apart => past row apart)
  refine written.trans ⟨?_, ?_⟩
  next =>
    intro met id row held covered waits
    exact (met id row held covered).symm.trans waits
  next =>
    intro whole id row held covered
    cases pending : hasPending queue target with
    | true => exact hasPending_outstanding queue target row covered pending
    | false =>
      cases waits : outstanding queue row with
      | false => rfl
      | true => exact absurd ((whole id row held covered waits).symm.trans pending) (by decide)

/-! ### Each step -/

theorem enqueueInner_outstanding (notBefore : Option Instant) (remoteId : Option RemoteId) (row : Mail) :
    outstanding (queue.enqueueInner accountId target operation now notBefore remoteId) row =
      (outstanding queue row || isTarget target row) := by
  simp [outstanding, OperationQueue.fresh, QueuedOperation.unsettled, OperationState.isSettled]

theorem enqueue_exact (notBefore : Option Instant) (exact : Exact store) :
    Exact (store.enqueue accountId target operation now notBefore) := by
  apply (store.refresh_exact _ target exact ?_).mpr
  next =>
    intro id row _ _ _
    simp [hasPending, OperationQueue.fresh, QueuedOperation.unsettled, OperationState.isSettled]
  next =>
    intro row apart
    rw [enqueueInner_outstanding, apart, Bool.or_false]

theorem enqueueEach_outstanding (messages : List (MessageId × Option RemoteId)) (operation : Operation) (now : Instant) (row : Mail) :
    outstanding (queue.enqueueEach accountId messages operation now) row =
      (outstanding queue row || messages.any (fun message => row.id = message.1)) := by
  induction messages generalizing queue with
  | nil => simp [OperationQueue.enqueueEach]
  | cons message rest ih =>
    have later := ih (queue.enqueueInner accountId (.message message.1) operation now none message.2)
    simp only [OperationQueue.enqueueEach, List.foldl_cons] at later ⊢
    rw [later, enqueueInner_outstanding, List.any_cons, Bool.or_assoc]
    rfl

theorem enqueueWhere_exact (chosen : Mail -> Bool) (operation : Operation)
    (now : Instant) (exact : Exact store) : Exact (store.enqueueWhere accountId chosen operation now) := by
  have named : ∀ id row, store.get id = some row ->
      ((store.messages.rows.filter chosen).map (fun row => (row.id, row.server.remoteId))).any
        (fun message => row.id = message.1) = chosen row := by
    intro id row held
    rw [Bool.eq_iff_iff, List.any_eq_true]
    constructor
    next =>
      rintro ⟨message, member, same⟩
      obtain ⟨other, inside, rfl⟩ := List.mem_map.mp member
      obtain ⟨there, taken⟩ := List.mem_filter.mp inside
      have ids : row.id = other.id := of_decide_eq_true same
      have one := Table.key_injective store.messages row other (store.get_mem id row held) there
        (congrArg MessageId.get ids)
      rw [one]
      exact taken
    next =>
      intro taken
      exact ⟨_, List.mem_map_of_mem (List.mem_filter.mpr ⟨store.get_mem id row held, taken⟩), by simp⟩
  apply (store.rewrite_exact _ chosen (marked true) (fun _ => rfl) (fun _ => true) (fun _ => rfl) (fun _ => rfl) exact
    ?_).mpr
  next =>
    intro id row held taken
    rw [enqueueEach_outstanding, named id row held, taken, Bool.or_true]
  next =>
    intro id row held past
    rw [enqueueEach_outstanding, named id row held, past, Bool.or_false]

theorem enqueueSet_exact (set : Mail -> Bool) (operation : Operation)
    (now : Instant) (exact : Exact store) : Exact (store.enqueueSet accountId set operation now) := by
  unfold enqueueSet
  split
  next => exact store.enqueueWhere_exact accountId set operation now exact
  next => exact exact

theorem enqueueMany_exact (exact : Exact store) : Exact (store.enqueueMany accountId ids operation now) := by
  unfold enqueueMany
  split
  next => exact exact
  next => exact store.enqueueWhere_exact accountId (fun row => row.id ∈ ids) operation now exact

/-! ### A row of the queue changed, or gone -/

theorem queued_unique (held : queue.get id = some queued) :
    queued ∈ queue.rows ∧ queued.id = id ∧ ∀ other ∈ queue.rows, other.id = id -> other = queued := by
  have member := List.mem_of_find?_eq_some held
  have named : queued.id = id := by simpa using List.find?_some held
  have distinct : (queue.rows.map (fun row => row.id)).Nodup :=
    List.pairwise_map.mpr (queue.ordered.imp (fun less same => by
      rw [same, OperationId.lt_def] at less
      exact Nat.lt_irrefl _ less))
  exact ⟨member, named, fun other there same =>
    List.inj_on_of_nodup_map distinct there member (same.trans named.symm)⟩

theorem any_split (held : queue.get id = some queued) (asks : QueuedOperation -> Bool) :
    queue.rows.any asks = (asks queued || (queue.delete id).rows.any asks) := by
  -- A question asked of the queue is asked of one row and of the queue without it.
  obtain ⟨member, named, unique⟩ := queued_unique queue id queued held
  rw [Bool.eq_iff_iff, Bool.or_eq_true, List.any_eq_true, List.any_eq_true]
  constructor
  next =>
    rintro ⟨other, there, answer⟩
    by_cases same : other.id = id
    next =>
      rw [unique other there same] at answer
      exact .inl answer
    next => exact .inr ⟨other, by simp [OperationQueue.delete, there, same], answer⟩
  next =>
    rintro (answer | ⟨other, there, answer⟩)
    next => exact ⟨queued, member, answer⟩
    next => exact ⟨other, List.mem_of_mem_filter there, answer⟩

theorem any_rewritten (held : queue.get id = some queued) (change : QueuedOperation -> QueuedOperation) (asks : QueuedOperation -> Bool) :
    (queue.rows.map (fun row => if row.id = id then change row else row)).any asks =
      (asks (change queued) || (queue.delete id).rows.any asks) := by
  -- The same, of a queue whose one row was rewritten.
  obtain ⟨member, named, unique⟩ := queued_unique queue id queued held
  rw [Bool.eq_iff_iff, Bool.or_eq_true, List.any_eq_true, List.any_eq_true]
  constructor
  next =>
    rintro ⟨changed, there, answer⟩
    obtain ⟨other, inside, rfl⟩ := List.mem_map.mp there
    by_cases same : other.id = id
    next =>
      rw [if_pos same, unique other inside same] at answer
      exact .inl answer
    next =>
      rw [if_neg same] at answer
      exact .inr ⟨other, by simp [OperationQueue.delete, inside, same], answer⟩
  next =>
    rintro (answer | ⟨other, there, answer⟩)
    next => exact ⟨change queued, List.mem_map.mpr ⟨queued, member, by rw [if_pos named]⟩, answer⟩
    next =>
      obtain ⟨inside, away⟩ := List.mem_filter.mp there
      exact ⟨other, List.mem_map.mpr ⟨other, inside, by rw [if_neg (by simpa using away)]⟩, answer⟩

theorem delete_exact (exact : Exact store) :
    Exact (store.delete id) <-> Steady store (.delete id) := by
  unfold delete Steady
  cases held : store.queue.get id with
  | none =>
    refine ⟨fun _ queued there => (by cases held.symm.trans there), fun _ => exact⟩
  | some queued =>
    have refreshed := store.refresh_exact (store.queue.delete id) queued.target exact (by
      intro row apart
      unfold outstanding
      rw [any_split store.queue id queued held]
      simp [apart])
    refine refreshed.trans ⟨?_, fun whole => whole queued held⟩
    intro whole other same
    cases held.symm.trans same
    exact whole

theorem mark_exact (state : OperationState) (now : Instant) (error : Option String)
    (countAttempt : Bool) (exact : Exact store) :
    Exact (store.setState id state now error countAttempt) <-> Steady store (.mark id state now error countAttempt) := by
  unfold setState Steady
  cases held : store.queue.get id with
  | none => exact ⟨fun _ _ queued there => (by cases held.symm.trans there), fun _ => exact⟩
  | some queued =>
    obtain ⟨member, named, -⟩ := queued_unique store.queue id queued held
    have there : store.queue.rows.any (fun row => row.id = id) = true :=
      List.any_eq_true.mpr ⟨queued, member, by simp [named]⟩
    obtain ⟨queue, done⟩ : ∃ queue, store.queue.setState id state now error countAttempt = some queue := by
      unfold OperationQueue.setState
      rw [if_pos there]
      exact ⟨_, rfl⟩
    rw [done]
    -- any question that reads the target and whether the row is settled
    have asked : ∀ asks : OperationTarget -> Bool, queue.rows.any (fun row => row.unsettled && asks row.target) =
        (!state.isSettled && asks queued.target ||
          (store.queue.delete id).rows.any (fun row => row.unsettled && asks row.target)) := by
      intro asks
      unfold OperationQueue.setState at done
      rw [if_pos there] at done
      cases done
      exact any_rewritten store.queue id queued held _ (fun row => row.unsettled && asks row.target)
    have outstands : ∀ row, outstanding queue row =
        (!state.isSettled && isTarget queued.target row || outstanding (store.queue.delete id) row) := fun row =>
      asked (fun target => isTarget target row)
    have pends : hasPending queue queued.target = (!state.isSettled || hasPending (store.queue.delete id) queued.target) := by
      have answer := asked (fun target => target = queued.target)
      simp only [decide_true, Bool.and_true] at answer
      unfold hasPending
      simp only [Bool.and_comm (decide _)]
      exact answer
    have refreshed := store.refresh_exact queue queued.target exact (by
      intro row apart
      rw [outstands, apart, Bool.and_false, Bool.false_or]
      unfold outstanding
      rw [any_split store.queue id queued held]
      simp [apart])
    refine refreshed.trans ?_
    unfold Undivided
    cases settled : state.isSettled with
    | false => simp [pends, settled]
    | true =>
      simp only [outstands, pends, settled, Bool.not_true, Bool.false_and, Bool.false_or, forall_const]
      refine ⟨?_, fun whole => whole queued held⟩
      intro whole other same
      cases held.symm.trans same
      exact whole

theorem defer_exact (retryAt : Instant) (error : String) (exact : Exact store) :
    Exact (store.defer id retryAt error) <-> Steady store (.defer id retryAt error) := by
  unfold defer Steady
  cases held : store.queue.get id with
  | none =>
    have missing : store.queue.defer id retryAt error = none := by
      unfold OperationQueue.defer
      rw [if_neg]
      rw [Bool.not_eq_true, List.any_eq_false]
      exact List.find?_eq_none.mp held
    rw [missing]
    exact ⟨fun _ queued there => (by cases held.symm.trans there), fun _ => exact⟩
  | some queued =>
    obtain ⟨member, named, -⟩ := queued_unique store.queue id queued held
    have there : store.queue.rows.any (fun row => row.id = id) = true :=
      List.any_eq_true.mpr ⟨queued, member, by simp [named]⟩
    obtain ⟨queue, done⟩ : ∃ queue, store.queue.defer id retryAt error = some queue := by
      unfold OperationQueue.defer
      rw [if_pos there]
      exact ⟨_, rfl⟩
    have after : ∀ row, outstanding queue row =
        (isTarget queued.target row || outstanding (store.queue.delete id) row) := by
      intro row
      unfold OperationQueue.defer at done
      rw [if_pos there] at done
      cases done
      exact any_rewritten store.queue id queued held _ (fun queued => queued.unsettled && isTarget queued.target row)
    have before : ∀ row, outstanding store.queue row =
        (queued.unsettled && isTarget queued.target row || outstanding (store.queue.delete id) row) := fun row =>
      any_split store.queue id queued held (fun queued => queued.unsettled && isTarget queued.target row)
    rw [done]
    refine (store.requeue_exact queue exact).trans ⟨?_, ?_⟩
    next =>
      intro same other again settled id row there covered
      cases held.symm.trans again
      rw [← same id row there, after, covered, Bool.true_or]
    next =>
      intro whole id row there
      rw [after, before]
      cases covered : isTarget queued.target row with
      | false => simp
      | true =>
        cases waits : queued.unsettled with
        | true => rfl
        | false =>
          have outstands := whole queued held waits id row there covered
          rw [before, waits, Bool.false_and, Bool.false_or] at outstands
          simp [outstands]

theorem requeued_outstanding (row : Mail) (kept : ∀ queued, (requeued accountId now queued).id = queued.id) :
    outstanding (queue.update (requeued accountId now) kept) row = outstanding queue row := by
  unfold outstanding
  rw [OperationQueue.update_rows, List.any_map]
  congr
  funext queued
  unfold requeued
  rw [Function.comp_apply]
  split
  next sent =>
    simp only [Bool.and_eq_true, decide_eq_true_eq] at sent
    simp [QueuedOperation.unsettled, sent.2, OperationState.isSettled]
  next => rfl

theorem pruned_outstanding (before : Instant) (row : Mail) :
    outstanding (queue.pruneSettled accountId before) row = outstanding queue row := by
  unfold outstanding
  rw [Bool.eq_iff_iff, List.any_eq_true, List.any_eq_true]
  constructor
  next =>
    rintro ⟨queued, member, waits⟩
    exact ⟨queued, List.mem_of_mem_filter member, waits⟩
  next =>
    rintro ⟨queued, member, waits⟩
    refine ⟨queued, List.mem_filter.mpr ⟨member, ?_⟩, waits⟩
    have open_ : queued.state.isSettled = false := by
      simp only [QueuedOperation.unsettled, Bool.and_eq_true, Bool.not_eq_true'] at waits
      exact waits.1
    simp [open_]

theorem written_sync (mail row : Mail) : (written mail row).sync = mail.sync ∧ (written mail row).id = row.id ∧
    (written mail row).threadId = mail.threadId := by
  unfold written rowValues keepFetchedContent
  split
  next =>
    split
    next => exact ⟨rfl, rfl, rfl⟩
    next => exact ⟨rfl, rfl, rfl⟩
  next => exact ⟨rfl, rfl, rfl⟩

def Landed (id : MessageId) (mail row : Mail) : Prop :=
  row.id = id ∧ row.threadId = mail.threadId ∧ row.sync.hasPendingOperations = mail.sync.hasPendingOperations

theorem pull_exact (batch : List Mail) (exact : Exact store) :
    Exact ((store.upsertBatch batch).getD store) <-> Steady store (.pull batch) := by
  unfold Steady
  cases done : store.upsertBatch batch with
  | none => exact iff_of_true exact (fun through => by simp [done] at through)
  | some after =>
    have queue : after.queue = store.queue := store.upsertAll_queue (batch.filter store.retained) after done
    have landed : ∀ id,
        (lastFor id (store.landings (batch.filter store.retained)) = none -> after.get id = store.get id) ∧
          ∀ mail, lastFor id (store.landings (batch.filter store.retained)) = some mail ->
            ∃ row, after.get id = some row ∧ Landed id mail row := by
      intro id
      refine upsertAll_landed (Landed id) id store.queue False ?_ ?_ (batch.filter store.retained) store after rfl done
        (fun never => never.elim)
      next =>
        intro middle mail row next _ covers
        obtain ⟨sync, ids, threads⟩ := written_sync (middle.reconciled id mail) row
        refine ⟨ids.trans (middle.get_id id row covers.held), threads, ?_⟩
        rw [sync]
        rfl
      next =>
        intro mail _
        exact ⟨rfl, rfl, rfl⟩
    rw [Option.getD_some]
    constructor
    next =>
      intro holds _ id mail ends
      obtain ⟨row, there, ids, threads, marker⟩ := (landed id).2 mail ends
      have now := holds id row there
      rw [queue, marker] at now
      exact now.trans (outstanding_congr store.queue row { mail with id } ids threads)
    next =>
      intro met id row there
      rw [queue]
      cases ends : lastFor id (store.landings (batch.filter store.retained)) with
      | none => exact exact id row (((landed id).1 ends).symm.trans there)
      | some mail =>
        obtain ⟨later, now, ids, threads, marker⟩ := (landed id).2 mail ends
        cases there.symm.trans now
        rw [marker, met (by simp [done]) id mail ends]
        exact (outstanding_congr store.queue row { mail with id } ids threads).symm

theorem hide_exact (deleted : Bool) (exact : Exact store) :
    Exact (store.setDeletedLocally ids deleted) <-> Steady store (.hide ids deleted) := by
  have written := store.rewrite_exact store.queue (fun row => row.id ∈ ids)
    (fun row => { row with sync := { row.sync with deletedLocally := deleted, hasPendingOperations := deleted } })
    (fun _ => rfl) (fun _ => deleted) (fun _ => rfl) (fun _ => rfl) exact (fun _ _ _ _ => rfl)
  refine written.trans ⟨?_, ?_⟩
  next =>
    intro met id row held taken
    exact met id row held (by simpa [store.get_id id row held] using taken)
  next =>
    intro met id row held taken
    exact met id row held (by simpa [store.get_id id row held] using taken)

theorem moveTo_exact (mailboxId : MailboxId) (exact : Exact store) :
    Exact (store.moveTo ids mailboxId) <-> Steady store (.moveTo ids mailboxId) := by
  have written := store.rewrite_exact store.queue (fun row => row.id ∈ ids)
    (fun row => { moved mailboxId row with rfcMessageId := row.rfcMessageId.map lower }) (fun _ => rfl) (fun _ => true)
    (fun _ => rfl) (fun _ => rfl) exact (fun _ _ _ _ => rfl)
  refine written.trans ⟨?_, ?_⟩
  next =>
    intro met id row held taken
    exact met id row held (by simpa [store.get_id id row held] using taken)
  next =>
    intro met id row held taken
    exact met id row held (by simpa [store.get_id id row held] using taken)

theorem moveSet_exact (set : Mail -> Bool) (mailboxId : MailboxId) (exact : Exact store) :
    Exact (store.moveSet set mailboxId) <-> Steady store (.moveSet set mailboxId) :=
  store.rewrite_exact store.queue set (moved mailboxId) (fun _ => rfl) (fun _ => true) (fun _ => rfl) (fun _ => rfl) exact
    (fun _ _ _ _ => rfl)

theorem step_exact (event : Event) (exact : Exact store) :
    Exact (store.step event) <-> Steady store event := by
  -- From an exact marker, a step leaves an exact marker exactly when it is steady.
  cases event with
  | enqueue accountId target operation now notBefore =>
    exact iff_of_true (store.enqueue_exact accountId target operation now notBefore exact) trivial
  | enqueueSet accountId set operation now =>
    exact iff_of_true (store.enqueueSet_exact accountId set operation now exact) trivial
  | enqueueMany accountId ids operation now =>
    exact iff_of_true (store.enqueueMany_exact accountId ids operation now exact) trivial
  | mark id state now error countAttempt => exact store.mark_exact id state now error countAttempt exact
  | defer id retryAt error => exact store.defer_exact id retryAt error exact
  | requeue accountId now =>
    refine iff_of_true ((store.requeue_exact _ exact).mpr ?_) trivial
    intro id row _
    exact requeued_outstanding store.queue accountId now row _
  | delete id => exact store.delete_exact id exact
  | prune accountId before =>
    refine iff_of_true ((store.requeue_exact _ exact).mpr ?_) trivial
    intro id row _
    exact pruned_outstanding store.queue accountId before row
  | pull batch => exact store.pull_exact batch exact
  | hide ids deleted => exact store.hide_exact ids deleted exact
  | moveTo ids mailboxId => exact store.moveTo_exact ids mailboxId exact
  | moveSet set mailboxId => exact store.moveSet_exact set mailboxId exact

/-- A run shows an exact marker after every step exactly when every step of it is steady. -/
theorem marker_exact_iff (start : Exact store) (events : List Event) :
    Run.Along step (fun before event => Exact (before.step event)) store events <->
      Run.Along step Steady store events :=
  Run.along_iff step Exact (fun before event => Exact (before.step event)) Steady
    (fun before event exact steady => (before.step_exact event exact).mpr steady)
    (fun before event exact => before.step_exact event exact) store events start

theorem nothing_exact : Exact nothing := by
  intro id row held
  cases held

def hearing : List Event :=
  [.pull (pulling [listing 1 1 ∅]), .enqueue ⟨1⟩ (.message ⟨1⟩) (.setFlags {.seen}) 6 none,
    .mark ⟨1⟩ .inFlight 7 none false, .requeue ⟨1⟩ 8]

theorem marker_exact_hearing : Run.Along step (fun before event => Exact (before.step event)) nothing hearing := by
  apply (marker_exact_iff nothing nothing_exact hearing).mpr
  refine ⟨?_, trivial, ?_, trivial, trivial⟩
  next =>
    intro _ id mail ends
    have landed : nothing.landings ((pulling [listing 1 1 ∅]).filter nothing.retained) =
        [(⟨1⟩, (listing 1 1 ∅).intoMessage ⟨1⟩ ⟨1⟩)] := rfl
    rw [landed] at ends
    by_cases same : (⟨1⟩ : MessageId) = id
    next =>
      subst same
      rw [lastFor_here] at ends
      cases ends
      rfl
    next =>
      rw [lastFor_other id ⟨1⟩ _ [] same] at ends
      cases ends
  next =>
    intro settled
    cases settled

def overwriting : List Event :=
  [.pull (pulling [listing 1 1 ∅]), .enqueue ⟨1⟩ (.message ⟨1⟩) (.setFlags {.seen}) 6 none,
    .pull (pulling [listing 1 1 ∅])]

set_option maxRecDepth 4000 in
theorem marker_cleared : ¬ Exact (Run.run step nothing overwriting) := by
  intro exact
  obtain ⟨row, held⟩ := Option.isSome_iff_exists.mp
    (show ((Run.run step nothing overwriting).get ⟨1⟩).isSome by decide)
  have marker : ((Run.run step nothing overwriting).get ⟨1⟩).map (fun row => row.sync.hasPendingOperations) =
      some false := by decide
  have waits : ((Run.run step nothing overwriting).get ⟨1⟩).map
      (outstanding (Run.run step nothing overwriting).queue) = some true := by decide
  rw [held, Option.map_some, Option.some.injEq] at marker waits
  exact absurd (marker.symm.trans ((exact ⟨1⟩ row held).trans waits)) (by decide)

end Store

end Postio.Pull

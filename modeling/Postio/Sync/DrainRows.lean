import Postio.Sync.CoalesceRows
import Postio.Sync.Drain

set_option autoImplicit false

namespace Postio

/-! What a write does to the queue: it keeps every row it does not name. -/

structure Touches (queue after : OperationQueue) (ids : List OperationId) : Prop where
  nextId : queue.nextId ≤ after.nextId
  rows : ∀ row ∈ after.rows, queue.nextId ≤ row.id.get ∨
    ∃ old ∈ queue.rows, old.id = row.id ∧ old.target = row.target ∧ old.accountId = row.accountId ∧
      old.operation = row.operation ∧ (row.id ∉ ids -> old = row)

variable (policy : RetryPolicy) (queue : OperationQueue) (accountId : AccountId) (after : OperationQueue)
    (now : Instant) (attempts : Nat) (id : OperationId) (outcome : Outcome)

theorem touches_refl (ids : List OperationId) : Touches queue queue ids :=
  { nextId := Nat.le_refl _
    rows := fun row member => .inr ⟨row, member, rfl, rfl, rfl, rfl, fun _ => rfl⟩ }

theorem touches_trans (first second third : OperationQueue) (ids more : List OperationId)
    (before : Touches first second ids) (after : Touches second third more) :
    Touches first third (ids ++ more) := by
  refine { nextId := Nat.le_trans before.nextId after.nextId, rows := fun row member => ?_ }
  rcases after.rows row member with fresh | ⟨middle, there, id, target, account, operation, same⟩
  · exact .inl (Nat.le_trans before.nextId fresh)
  · rcases before.rows middle there with fresh | ⟨old, found, oldId, oldTarget, oldAccount, oldOperation, unchanged⟩
    · exact .inl (id ▸ fresh)
    · refine .inr ⟨old, found, oldId.trans id, oldTarget.trans target, oldAccount.trans account,
        oldOperation.trans operation, fun outside => ?_⟩
      rw [List.mem_append, not_or] at outside
      rw [← same outside.2]
      exact unchanged (by rw [id]; exact outside.1)

theorem touches_mono (ids more : List OperationId) (touches : Touches queue after ids)
    (inside : ∀ id ∈ ids, id ∈ more) : Touches queue after more :=
  { nextId := touches.nextId
    rows := fun row member =>
      (touches.rows row member).imp_right fun ⟨old, there, id, target, account, operation, same⟩ =>
        ⟨old, there, id, target, account, operation, fun outside => same (fun named => outside (inside _ named))⟩ }

theorem touches_update (change : QueuedOperation -> QueuedOperation)
    (kept : ∀ row, (change row).id = row.id) (target : ∀ row, (change row).target = row.target)
    (account : ∀ row, (change row).accountId = row.accountId)
    (operation : ∀ row, (change row).operation = row.operation) (others : ∀ row, row.id ≠ id -> change row = row) :
    Touches queue (queue.update change kept) [id] := by
  refine { nextId := Nat.le_refl _, rows := fun row member => .inr ?_ }
  obtain ⟨old, there, rfl⟩ := List.mem_map.mp member
  refine ⟨old, there, (kept old).symm, (target old).symm, (account old).symm, (operation old).symm, fun outside => ?_⟩
  rw [List.mem_singleton, kept old] at outside
  exact (others old outside).symm

theorem touches_remove (gone : QueuedOperation -> Bool) (ids : List OperationId) :
    Touches queue (queue.remove gone) ids :=
  { nextId := Nat.le_refl _
    rows := fun row member => .inr ⟨row, List.mem_of_mem_filter member, rfl, rfl, rfl, rfl, fun _ => rfl⟩ }

theorem touches_enqueue (target : OperationTarget)
    (operation : Operation) (now : Instant) (notBefore : Option Instant) (remoteId : Option RemoteId)
    (ids : List OperationId) :
    Touches queue (queue.enqueueInner accountId target operation now notBefore remoteId) ids := by
  refine { nextId := Nat.le_succ _, rows := fun row member => ?_ }
  rcases List.mem_append.mp member with old | new
  · exact .inr ⟨row, old, rfl, rfl, rfl, rfl, fun _ => rfl⟩
  · rw [List.mem_singleton.mp new]
    exact .inl (Nat.le_refl _)

theorem setState_touches (state : OperationState) (now : Instant)
    (error : Option String) (countAttempt : Bool) (done : queue.setState id state now error countAttempt = some after) :
    Touches queue after [id] ∧ ∀ row ∈ after.rows, row.id = id -> row.state = state := by
  unfold OperationQueue.setState at done
  split at done
  next =>
    cases done
    constructor
    · apply touches_update
      · intro row; split <;> rfl
      · intro row; split <;> rfl
      · intro row; split <;> rfl
      · intro row other
        rw [if_neg other]
    · intro row member named
      obtain ⟨old, there, rfl⟩ := List.mem_map.mp member
      by_cases same : old.id = id
      · rw [if_pos same]
      · rw [if_neg same] at named
        exact absurd named same
  next => cases done

theorem defer_touches (retryAt : Instant) (error : String)
    (done : queue.defer id retryAt error = some after) : Touches queue after [id] := by
  unfold OperationQueue.defer at done
  split at done
  next =>
    cases done
    apply touches_update
    · intro row; split <;> rfl
    · intro row; split <;> rfl
    · intro row; split <;> rfl
    · intro row other
      rw [if_neg other]
  next => cases done

theorem note_touches (text : String) (done : queue.note id text = some after) :
    Touches queue after [id] ∧ ∀ row ∈ after.rows, ∃ old ∈ queue.rows, old.id = row.id ∧ old.state = row.state := by
  unfold OperationQueue.note at done
  split at done
  next =>
    cases done
    constructor
    · apply touches_update
      · intro row; split <;> rfl
      · intro row; split <;> rfl
      · intro row; split <;> rfl
      · intro row other
        rw [if_neg other]
    · intro row member
      obtain ⟨old, there, rfl⟩ := List.mem_map.mp member
      exact ⟨old, there, by split <;> rfl, by split <;> rfl⟩
  next => cases done

/-- The row named `id`, if it is still there, is settled. -/
def SettledAt : Prop :=
  ∀ row ∈ queue.rows, row.id = id -> row.unsettled = false

theorem settledAt_of_state (state : OperationState)
    (final : state.isSettled = true) (all : ∀ row ∈ queue.rows, row.id = id -> row.state = state) :
    SettledAt queue id := by
  intro row member named
  simp [QueuedOperation.unsettled, all row member named, final]

theorem doneAndNote_spec (reason : String) (queue after : OperationQueue) (id : OperationId)
    (done : doneAndNote now reason queue id = some after) : Touches queue after [id] ∧ SettledAt after id := by
  rw [doneAndNote, Option.bind_eq_some_iff] at done
  obtain ⟨marked, first, second⟩ := done
  obtain ⟨touched, states⟩ := setState_touches queue marked id _ _ _ _ first
  obtain ⟨noted, kept⟩ := note_touches marked after id reason second
  refine ⟨touches_mono _ _ _ _ (touches_trans _ _ _ _ _ touched noted) (by simp), ?_⟩
  apply settledAt_of_state after id .done rfl
  intro row member named
  obtain ⟨old, there, sameId, sameState⟩ := kept row member
  rw [← sameState]
  exact states old there (sameId.trans named)

theorem settleRow_spec (queue after : OperationQueue) (id : OperationId)
    (done : settleRow policy now attempts outcome queue id = some after) :
    Touches queue after [id] ∧ (outcome.defers policy attempts = false -> SettledAt after id) := by
  have marked (state : OperationState) (error : Option String) (count : Bool) (final : state.isSettled = true)
      (written : queue.setState id state now error count = some after) :
      Touches queue after [id] ∧ (outcome.defers policy attempts = false -> SettledAt after id) := by
    obtain ⟨touched, states⟩ := setState_touches queue after id _ _ _ _ written
    exact ⟨touched, fun _ => settledAt_of_state after id state final states⟩
  cases outcome with
  | applied => exact marked .done none false rfl done
  | obsolete reason | uncertain reason =>
    obtain ⟨touched, settled⟩ := doneAndNote_spec now reason queue after id done
    exact ⟨touched, fun _ => settled⟩
  | failed reason => exact marked .failed (some reason) true rfl done
  | retry reason wait =>
    simp only [settleRow] at done
    split at done
    next exhausted => exact marked .failed _ true rfl done
    next again =>
      refine ⟨defer_touches queue after id _ reason done, fun never => ?_⟩
      simp [Outcome.defers, again] at never

theorem setState_nextId (state : OperationState) (now : Instant)
    (error : Option String) (countAttempt : Bool) (done : queue.setState id state now error countAttempt = some after) :
    after.nextId = queue.nextId := by
  unfold OperationQueue.setState at done
  split at done <;> cases done
  rfl

theorem settleRow_nextId (queue after : OperationQueue) (id : OperationId)
    (done : settleRow policy now attempts outcome queue id = some after) : after.nextId = queue.nextId := by
  have noted (reason : String) (written : doneAndNote now reason queue id = some after) :
      after.nextId = queue.nextId := by
    rw [doneAndNote, Option.bind_eq_some_iff] at written
    obtain ⟨marked, first, second⟩ := written
    unfold OperationQueue.note at second
    split at second <;> cases second
    exact setState_nextId queue marked id _ _ _ _ first
  cases outcome with
  | applied => exact setState_nextId queue after id _ _ _ _ done
  | obsolete reason | uncertain reason => exact noted reason done
  | failed reason => exact setState_nextId queue after id _ _ _ _ done
  | retry reason wait =>
    simp only [settleRow] at done
    split at done
    next => exact setState_nextId queue after id _ _ _ _ done
    next =>
      unfold OperationQueue.defer at done
      split at done <;> cases done
      rfl

theorem eachRow_nextId (queue : OperationQueue) (rows : List OperationId) :
    (eachRow (settleRow policy now attempts outcome) queue rows).1.nextId = queue.nextId := by
  induction rows generalizing queue with
  | nil => rfl
  | cons id rest ih =>
    rw [eachRow]
    cases written : settleRow policy now attempts outcome queue id with
    | none => rfl
    | some middle => exact (ih middle).trans (settleRow_nextId policy now attempts outcome queue middle id written)

theorem eachRow_spec (queue : OperationQueue) (rows : List OperationId) :
    Touches queue (eachRow (settleRow policy now attempts outcome) queue rows).1 rows ∧
      ((eachRow (settleRow policy now attempts outcome) queue rows).2 = true ->
        outcome.defers policy attempts = false ->
          ∀ id ∈ rows, SettledAt (eachRow (settleRow policy now attempts outcome) queue rows).1 id) := by
  induction rows generalizing queue with
  | nil => exact ⟨touches_refl queue [], by simp⟩
  | cons id rest ih =>
    rw [eachRow]
    cases written : settleRow policy now attempts outcome queue id with
    | none => exact ⟨touches_refl queue _, by simp⟩
    | some middle =>
      obtain ⟨first, settled⟩ := settleRow_spec policy now attempts outcome queue middle id written
      obtain ⟨touched, later⟩ := ih middle
      refine ⟨touches_trans _ _ _ _ _ first touched, fun finished final other member => ?_⟩
      by_cases again : other ∈ rest
      · exact later finished final other again
      · obtain rfl := (List.mem_cons.mp member).resolve_right again
        -- The rows after it leave a settled row alone.
        intro row there named
        rcases touched.rows row there with fresh | ⟨old, found, sameId, -, -, -, same⟩
        · have issued := (eachRow (settleRow policy now attempts outcome) middle rest).1.issued row there
          rw [eachRow_nextId] at issued
          omega
        · rw [← same (by rw [named]; exact again)]
          exact settled final old found (sameId.trans named)

/-! What a pass under way knows about its rows. -/

def Pass.ids (pass : Pass) : List OperationId := pass.obsolete ++ pass.steps.flatMap Step.rows

theorem mem_pass_ids (pass : Pass) (step : Step) (id : OperationId) (member : step ∈ pass.steps)
    (inside : id ∈ step.rows) : id ∈ pass.ids :=
  List.mem_append_right _ (List.mem_flatMap.mpr ⟨step, member, inside⟩)

structure PassRows (queue : OperationQueue) (accountId : AccountId) (pass : Pass) : Prop where
  distinct : pass.ids.Nodup
  issued : ∀ id ∈ pass.ids, id.get < queue.nextId
  waiting : ∀ row ∈ queue.rows, row.id ∈ pass.ids -> row.accountId = accountId ∧ row.unsettled = true
  carried : ∀ step ∈ pass.steps, ∀ row ∈ queue.rows, row.id ∈ step.rows ->
    row.target = step.target ∧ Carries step row

theorem passRows_write (accountId : AccountId) (pass next : Pass)
    (ids : List OperationId) (rows : PassRows queue accountId pass) (touches : Touches queue after ids)
    (fewer : next.ids.Sublist pass.ids) (steps : ∀ step ∈ next.steps, step ∈ pass.steps)
    (apart : ∀ row ∈ queue.rows, row.id ∈ ids -> row.id ∉ next.ids) : PassRows after accountId next := by
  -- A later pass over fewer of the same rows, none of them written.
  have found_before (row : QueuedOperation) (there : row ∈ after.rows) (member : row.id ∈ next.ids) :
      row ∈ queue.rows := by
    rcases touches.rows row there with fresh | ⟨old, found, sameId, -, -, -, same⟩
    · have bound := rows.issued row.id (fewer.subset member)
      omega
    · have named := apart old found
      rw [sameId] at named
      rw [← same (fun inside => named inside member)]
      exact found
  exact
    { distinct := rows.distinct.sublist fewer
      issued := fun id member => Nat.lt_of_lt_of_le (rows.issued id (fewer.subset member)) touches.nextId
      waiting := fun row there member => rows.waiting row (found_before row there member) (fewer.subset member)
      carried := fun step member row there inside =>
        rows.carried step (steps step member) row
          (found_before row there (mem_pass_ids next step row.id member inside)) inside }

theorem passRows_elsewhere (accountId : AccountId) (pass : Pass)
    (ids : List OperationId) (rows : PassRows queue accountId pass) (touches : Touches queue after ids)
    (apart : ∀ row ∈ queue.rows, row.id ∈ ids -> row.id ∉ pass.ids) : PassRows after accountId pass :=
  passRows_write queue after accountId pass pass ids rows touches (List.Sublist.refl _) (fun _ member => member) apart

theorem passRows_tidy (accountId : AccountId) (pass : Pass) (id : OperationId)
    (rest : List OperationId) (rows : PassRows queue accountId pass) (first : pass.obsolete = id :: rest)
    (touches : Touches queue after [id]) : PassRows after accountId { pass with obsolete := rest } := by
  have split : pass.ids = id :: (rest ++ pass.steps.flatMap Step.rows) := by simp [Pass.ids, first]
  have distinct := rows.distinct
  rw [split, List.nodup_cons] at distinct
  refine passRows_write queue after accountId pass _ [id] rows touches
    (by rw [split]; exact List.sublist_cons_self _ _) (fun _ member => member) ?_
  intro row there named
  rw [List.mem_singleton.mp named]
  exact distinct.1

theorem passRows_step (accountId : AccountId) (pass : Pass) (step : Step)
    (rest : List Step) (putBack : List OperationTarget) (rows : PassRows queue accountId pass)
    (tidied : pass.obsolete = []) (steps : pass.steps = step :: rest) (touches : Touches queue after step.rows) :
    PassRows after accountId { pass with steps := rest, putBack } := by
  have split : pass.ids = step.rows ++ rest.flatMap Step.rows := by simp [Pass.ids, tidied, steps]
  have remaining : Pass.ids { pass with steps := rest, putBack } = rest.flatMap Step.rows := by simp [Pass.ids, tidied]
  have distinct := rows.distinct
  rw [split] at distinct
  refine passRows_write queue after accountId pass _ step.rows rows touches
    (by rw [split, remaining]; exact List.sublist_append_right _ _)
    (fun other member => by rw [steps]; exact List.mem_cons_of_mem _ member) ?_
  intro row there named
  rw [remaining]
  exact List.disjoint_of_nodup_append distinct named

theorem queue_ids_injective (row other : QueuedOperation) (first : row ∈ queue.rows)
    (second : other ∈ queue.rows) (same : row.id = other.id) : row = other := by
  have distinct : (queue.rows.map QueuedOperation.id).Nodup :=
    List.pairwise_map.mpr (queue.ordered.imp (fun less equal => by
      rw [OperationId.lt_def, equal] at less
      omega))
  exact List.inj_on_of_nodup_map distinct first second same

theorem pending_ordered :
    InQueueOrder (queue.pending accountId now) := queue.ordered.filter _

theorem mem_pending (row : QueuedOperation) (due : row ∈ queue.pending accountId now) :
    row ∈ queue.rows ∧ row.accountId = accountId ∧ row.unsettled = true := by
  simp only [OperationQueue.pending, List.mem_filter, Bool.and_eq_true, decide_eq_true_eq] at due
  obtain ⟨there, ⟨account, state⟩, -⟩ := due
  exact ⟨there, account, by simp [QueuedOperation.unsettled, state, OperationState.isSettled]⟩

theorem passRows_begin :
    PassRows queue accountId
      { now
        obsolete := (coalesce (queue.pending accountId now)).obsolete
        steps := (coalesce (queue.pending accountId now)).steps
        putBack := [] } := by
  have ordered := pending_ordered queue accountId now
  have ids := coalesce_ids (queue.pending accountId now)
  have from_batch (id : OperationId) (member : id ∈ (coalesce (queue.pending accountId now)).ids) :
      ∃ row ∈ queue.pending accountId now, row.id = id := by
    simpa using ids.mem_iff.mp member
  refine
    { distinct := ids.nodup_iff.mpr (List.pairwise_map.mpr (ordered.imp (fun less equal => by
        rw [OperationId.lt_def, equal] at less
        omega)))
      issued := fun id member => ?_
      waiting := fun row there member => ?_
      carried := fun step member row there inside => ?_ }
  · obtain ⟨row, due, rfl⟩ := from_batch id member
    exact queue.issued row (mem_pending queue accountId now row due).1
  · obtain ⟨due, listed, sameId⟩ := from_batch row.id member
    have known := mem_pending queue accountId now due listed
    rw [← queue_ids_injective queue due row known.1 there sameId]
    exact known.2
  · obtain ⟨due, listed, sameId, carried⟩ := coalesce_step_rows _ ordered step member row.id inside
    rw [← queue_ids_injective queue due row (mem_pending queue accountId now due listed).1 there sameId]
    exact carried

end Postio

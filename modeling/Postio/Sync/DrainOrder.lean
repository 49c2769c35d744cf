import Postio.Lib.Run
import Postio.Sync.DrainRows

set_option autoImplicit false

namespace Postio

variable (policy : RetryPolicy) (queue : OperationQueue) (state : DrainState) (after : OperationQueue)
    (accountId : AccountId) (pass : Pass)

/-- A pass starts on every unsettled row older than one it is given, for the same target; and it does not go on
with a target it has put back. -/
def LeavesNoneBehind : DrainEvent -> Prop
  | .begin accountId now =>
    ∀ due ∈ state.queue.pending accountId now, ∀ row ∈ state.queue.rows, row.unsettled = true ->
      row.target = due.target -> row.id < due.id -> row ∈ state.queue.pending accountId now
  | .runStep accountId true _ _ =>
    ∀ pass step rest, state.passes accountId = some pass -> pass.steps = step :: rest ->
      step.target ∉ pass.putBack
  | _ => True

/-- The server applies no step while an older row of its target, not folded into it, is unsettled. -/
def AppliesInOrder : DrainEvent -> Prop
  | .runStep accountId true _ _ =>
    ∀ pass step rest, state.passes accountId = some pass -> pass.obsolete = [] -> pass.steps = step :: rest ->
      ∀ row ∈ state.queue.rows, row.unsettled = true -> row.target = step.target -> row.id ∉ step.rows ->
        ∀ id ∈ step.rows, ¬ row.id < id
  | _ => True

def StandsAhead : Prop :=
  -- An unsettled row older than a step of its target is still ahead of that step, or its target was put back.
  ∀ before step after, pass.steps = before ++ step :: after ->
    ∀ row ∈ queue.rows, row.unsettled = true -> row.target = step.target -> row.id ∉ step.rows ->
      (∃ id ∈ step.rows, row.id < id) ->
        row.id ∈ pass.obsolete ∨ (∃ earlier ∈ before, row.id ∈ earlier.rows) ∨ step.target ∈ pass.putBack

structure PassInvariant (queue : OperationQueue) (accountId : AccountId) (pass : Pass) : Prop where
  rows : PassRows queue accountId pass
  ahead : StandsAhead queue pass

def DrainInvariant : Prop :=
  ∀ accountId pass, state.passes accountId = some pass -> PassInvariant state.queue accountId pass

theorem older_row (ids : List OperationId)
    (step : Step) (row : QueuedOperation) (rows : PassRows queue accountId pass)
    (touches : Touches queue after ids) (live : ∀ old ∈ queue.rows, old.id ∈ ids -> old.unsettled = true)
    (member : step ∈ pass.steps) (there : row ∈ after.rows) (unsettled : row.unsettled = true)
    (older : ∃ id ∈ step.rows, row.id < id) :
    ∃ old ∈ queue.rows, old.id = row.id ∧ old.target = row.target ∧ old.unsettled = true := by
  -- A row older than one of a step's was in the queue before the write, and was waiting.
  rcases touches.rows row there with fresh | ⟨old, found, sameId, sameTarget, -, -, same⟩
  · obtain ⟨id, inside, less⟩ := older
    have bound := rows.issued id (mem_pass_ids pass step id member inside)
    rw [OperationId.lt_def] at less
    omega
  · refine ⟨old, found, sameId, sameTarget, ?_⟩
    by_cases named : row.id ∈ ids
    · exact live old found (by rwa [sameId])
    · rwa [same named]

theorem passInvariant_elsewhere (ids : List OperationId) (invariant : PassInvariant queue accountId pass) (touches : Touches queue after ids)
    (apart : ∀ row ∈ queue.rows, row.id ∈ ids -> row.id ∉ pass.ids)
    (live : ∀ row ∈ queue.rows, row.id ∈ ids -> row.unsettled = true) : PassInvariant after accountId pass := by
  -- A pass is not disturbed by writes to other rows, none of which takes a settled row back.
  refine
    { rows := passRows_elsewhere queue after accountId pass ids invariant.rows touches apart
      ahead := fun before step rest split row there unsettled target outside older => ?_ }
  obtain ⟨old, found, sameId, sameTarget, was⟩ :=
    older_row queue after accountId pass ids step row invariant.rows touches live (by simp [split]) there unsettled older
  have kept := invariant.ahead before step rest split old found was (sameTarget.trans target)
  rw [sameId] at kept
  exact kept outside older

theorem applies_in_order (event : DrainEvent) (invariant : DrainInvariant state)
    (allowed : LeavesNoneBehind state event) : AppliesInOrder state event := by
  cases event with
  | runStep accountId applied outcome cut =>
    cases applied with
    | false => trivial
    | true =>
      intro pass step rest under tidied steps row there unsettled target outside id inside less
      have kept := (invariant accountId pass under).ahead [] step rest steps row there unsettled target outside
        ⟨id, inside, less⟩
      have fresh := allowed pass step rest under steps
      simp [tidied, fresh] at kept
  | _ => trivial

theorem passInvariant_begin (now : Instant)
    (complete : ∀ due ∈ queue.pending accountId now, ∀ row ∈ queue.rows, row.unsettled = true ->
      row.target = due.target -> row.id < due.id -> row ∈ queue.pending accountId now) :
    PassInvariant queue accountId
      { now
        obsolete := (coalesce (queue.pending accountId now)).obsolete
        steps := (coalesce (queue.pending accountId now)).steps
        putBack := [] } := by
  have ordered := pending_ordered queue accountId now
  have begun := passRows_begin queue accountId now
  refine
    { rows := begun
      ahead := fun before step after split row there unsettled target outside older => ?_ }
  obtain ⟨id, inside, less⟩ := older
  change (coalesce (queue.pending accountId now)).steps = before ++ step :: after at split
  have member : step ∈ (coalesce (queue.pending accountId now)).steps := by simp [split]
  obtain ⟨due, listed, rfl, dueTarget, -⟩ := coalesce_step_rows _ ordered step member id inside
  have batched := complete due listed row there unsettled (target.trans dueTarget.symm) less
  have accounted : row.id ∈ (coalesce (queue.pending accountId now)).ids :=
    (coalesce_ids _).mem_iff.mpr (List.mem_map.mpr ⟨row, batched, rfl⟩)
  rcases List.mem_append.mp accounted with folded | stepped
  · exact .inl folded
  · obtain ⟨holder, held, within⟩ := List.mem_flatMap.mp stepped
    have holderTarget := (begun.carried holder held row there within).1
    -- The step that holds the older row stands before this one.
    have ascending := coalesce_steps_ascend (queue.pending accountId now) ordered
    rw [split] at held ascending
    rcases List.mem_append.mp held with earlier | here
    · exact .inr (.inl ⟨holder, earlier, within⟩)
    · rcases List.mem_cons.mp here with rfl | later
      · exact absurd within outside
      · obtain ⟨-, pairs, -⟩ := List.pairwise_append.mp ascending
        have reversed := (List.pairwise_cons.mp pairs).1 holder later (target.symm.trans holderTarget) due.id inside row.id
          within
        rw [OperationId.lt_def] at reversed less
        omega

theorem passInvariant_tidy (id : OperationId)
    (rest : List OperationId) (invariant : PassInvariant queue accountId pass) (first : pass.obsolete = id :: rest)
    (touches : Touches queue after [id]) (settled : SettledAt after id) :
    PassInvariant after accountId { pass with obsolete := rest } := by
  have live (row : QueuedOperation) (there : row ∈ queue.rows) (named : row.id ∈ [id]) : row.unsettled = true := by
    rw [List.mem_singleton] at named
    exact (invariant.rows.waiting row there (by rw [Pass.ids, first, named]; simp)).2
  refine
    { rows := passRows_tidy queue after accountId pass id rest invariant.rows first touches
      ahead := fun before step others parts row there unsettled target outside older => ?_ }
  obtain ⟨old, found, sameId, sameTarget, was⟩ := older_row queue after accountId pass [id] step row invariant.rows
    touches live (by simp [show pass.steps = before ++ step :: others from parts]) there unsettled older
  have kept := invariant.ahead before step others parts old found was (sameTarget.trans target)
  rw [sameId, first] at kept
  refine (kept outside older).imp_left fun listed => (List.mem_cons.mp listed).resolve_left fun same => ?_
  rw [settled row there same] at unsettled
  cases unsettled

theorem passInvariant_step (step : Step)
    (rest : List Step) (putBack : List OperationTarget) (invariant : PassInvariant queue accountId pass)
    (tidied : pass.obsolete = []) (steps : pass.steps = step :: rest) (touches : Touches queue after step.rows)
    (kept : ∀ target ∈ pass.putBack, target ∈ putBack)
    (settled : step.target ∈ putBack ∨ ∀ id ∈ step.rows, SettledAt after id) :
    PassInvariant after accountId { pass with steps := rest, putBack } := by
  have live (row : QueuedOperation) (there : row ∈ queue.rows) (named : row.id ∈ step.rows) : row.unsettled = true :=
    (invariant.rows.waiting row there (mem_pass_ids pass step row.id (by simp [steps]) named)).2
  refine
    { rows := passRows_step queue after accountId pass step rest putBack invariant.rows tidied steps touches
      ahead := fun before other others parts row there unsettled target outside older => ?_ }
  change rest = before ++ other :: others at parts
  have whole : pass.steps = (step :: before) ++ other :: others := by rw [steps, parts]; rfl
  obtain ⟨old, found, sameId, sameTarget, was⟩ := older_row queue after accountId pass step.rows other row
    invariant.rows touches live (by simp [whole]) there unsettled older
  have before_it := invariant.ahead (step :: before) other others whole old found was (sameTarget.trans target)
  rw [sameId, tidied] at before_it
  rcases before_it outside older with none | ⟨earlier, member, inside⟩ | again
  · exact absurd none List.not_mem_nil
  · rcases List.mem_cons.mp member with rfl | between
    · rcases settled with deferred | final
      · -- The row belongs to the step just put back, so its target is that step's.
        have same := (invariant.rows.carried earlier (by simp [steps]) old found (by rwa [sameId])).1
        exact .inr (.inr (by rw [← target, ← sameTarget, same]; exact deferred))
      · rw [final row.id inside row there rfl] at unsettled
        cases unsettled
    · exact .inr (.inl ⟨earlier, between, inside⟩)
  · exact .inr (.inr (kept _ again))

/-! One event, then every run. -/

theorem setPass_passes (other : AccountId) (pass : Option Pass) :
    (state.setPass accountId pass).passes other = if other = accountId then pass else state.passes other := by
  simp [DrainState.setPass, Function.update_apply]

theorem drainInvariant_queue (invariant : DrainInvariant state)
    (touches : Touches state.queue after []) : DrainInvariant { state with queue := after } :=
  fun accountId pass under => passInvariant_elsewhere state.queue after accountId pass []
    (invariant accountId pass under) touches (by simp) (by simp)

theorem drainInvariant_write (next : Option Pass) (ids : List OperationId) (invariant : DrainInvariant state)
    (under : state.passes accountId = some pass) (touches : Touches state.queue after ids)
    (own : ∀ id ∈ ids, id ∈ pass.ids) (stands : ∀ new, next = some new -> PassInvariant after accountId new) :
    DrainInvariant ({ state with queue := after }.setPass accountId next) := by
  -- The other accounts' passes stand after a pass writes its own rows.
  intro other others held
  rw [setPass_passes] at held
  split at held
  next same =>
    subst same
    exact stands others held
  next apart =>
    have mine := invariant accountId pass under
    have theirs := invariant other others held
    refine passInvariant_elsewhere state.queue after other others ids theirs touches ?_ ?_
    · intro row there named listed
      have first := (mine.rows.waiting row there (own row.id named)).1
      have second := (theirs.rows.waiting row there listed).1
      exact apart (second.symm.trans first)
    · intro row there named
      exact (mine.rows.waiting row there (own row.id named)).2

theorem drainInvariant_runStep (step : Step) (rest : List Step) (outcome : Outcome) (cut : Option Nat) (invariant : DrainInvariant state)
    (under : state.passes accountId = some pass) (tidied : pass.obsolete = []) (steps : pass.steps = step :: rest) :
    DrainInvariant (runStep policy state accountId pass step rest outcome cut) := by
  have own (id : OperationId) (member : id ∈ step.rows) : id ∈ pass.ids :=
    mem_pass_ids pass step id (by simp [steps]) member
  have written := eachRow_spec policy pass.now (attemptsOf state.queue step.rows) outcome state.queue
  cases cut with
  | some count =>
    exact drainInvariant_write state _ accountId pass none (step.rows.take count) invariant under
      (written (step.rows.take count)).1 (fun id member => own id (List.mem_of_mem_take member)) (by simp)
  | none =>
    obtain ⟨touches, settled⟩ := written step.rows
    refine drainInvariant_write state _ accountId pass _ step.rows invariant under touches own ?_
    intro new same
    split at same
    next finished =>
      cases same
      refine passInvariant_step state.queue _ accountId pass step rest _ (invariant accountId pass under) tidied steps
        touches ?_ ?_
      · intro target member
        split
        · exact List.mem_cons_of_mem _ member
        · exact member
      · cases deferred : outcome.defers policy (attemptsOf state.queue step.rows) with
        | true => exact .inl (by simp)
        | false => exact .inr (settled finished deferred)
    next => cases same

theorem drainInvariant_next (event : DrainEvent)
    (invariant : DrainInvariant state) (allowed : LeavesNoneBehind state event) :
    DrainInvariant (state.next policy event) := by
  cases event with
  | enqueue accountId target operation now notBefore remoteId =>
    exact drainInvariant_queue state _ invariant (touches_enqueue ..)
  | withdraw id => exact drainInvariant_queue state _ invariant (touches_remove ..)
  | prune accountId before => exact drainInvariant_queue state _ invariant (touches_remove ..)
  | begin accountId now =>
    simp only [DrainState.next]
    split
    next => exact invariant
    next =>
      simp only [beginPass]
      split
      next => exact invariant
      next =>
        intro other others held
        rw [setPass_passes] at held
        split at held
        next same =>
          subst same
          cases held
          exact passInvariant_begin state.queue other now allowed
        next => exact invariant other others held
  | tidy accountId =>
    simp only [DrainState.next]
    split
    next pass under =>
      split
      next => exact invariant
      next id rest first =>
        unfold tidyRow
        split
        next =>
          exact drainInvariant_write state state.queue accountId pass none [] invariant under (touches_refl _ _)
            (by simp) (by simp)
        next queue done =>
          obtain ⟨touches, settled⟩ := doneAndNote_spec _ _ _ _ _ done
          refine drainInvariant_write state queue accountId pass _ [id] invariant under touches
            (by simp [Pass.ids, first]) ?_
          rintro new same
          cases same
          exact passInvariant_tidy state.queue queue accountId pass id rest (invariant accountId pass under) first
            touches settled
    next => exact invariant
  | runStep accountId applied outcome cut =>
    simp only [DrainState.next]
    split
    next pass under =>
      split
      next step rest tidied steps =>
        exact drainInvariant_runStep policy state accountId pass step rest outcome cut invariant under tidied steps
      next => exact invariant
    next => exact invariant
  | stop accountId =>
    intro other others held
    rw [DrainState.next, setPass_passes] at held
    split at held
    next => cases held
    next => exact invariant other others held

theorem drain_keeps_target_order (events : List DrainEvent)
    (allowed : Run.Along (DrainState.next policy) LeavesNoneBehind (DrainState.idle queue) events) :
    Run.Along (DrainState.next policy) AppliesInOrder (DrainState.idle queue) events := by
  apply Run.along_invariant _ DrainInvariant LeavesNoneBehind AppliesInOrder (drainInvariant_next policy)
    applies_in_order _ _ _ allowed
  intro accountId pass under
  cases under

def enqueueFor (message : MessageId) (operation : Operation) (now : Instant) : DrainEvent :=
  .enqueue ⟨1⟩ (.message message) operation now none none

def backedOff : List DrainEvent :=
  -- The flag change is put back for two seconds; a pass one second later sees only the move.
  [enqueueFor ⟨7⟩ (.setFlags {.seen}) 0,
    .begin ⟨1⟩ 0,
    .runStep ⟨1⟩ false (.retry "connection lost" none) none,
    .stop ⟨1⟩,
    enqueueFor ⟨7⟩ (.move ⟨1⟩ ⟨2⟩) 500,
    .begin ⟨1⟩ 1000,
    .runStep ⟨1⟩ true .applied none]

theorem backed_off_row_overtaken :
    ¬ Run.Along (DrainState.next RetryPolicy.standard) AppliesInOrder (DrainState.idle OperationQueue.empty) backedOff := by
  rintro ⟨-, -, -, -, -, -, last, -⟩
  have kept := last _ _ _ rfl rfl rfl (OperationQueue.fresh ⟨1⟩ (.message ⟨7⟩) (.setFlags {.seen}) 0 none none ⟨1⟩ |>
    fun row => { row with attempts := 1, lastError := some "connection lost", nextAttemptAt := some 2000, updatedAt := 2000 })
    (by decide) rfl rfl (by decide) ⟨2⟩ (by decide)
  exact kept (by decide)

theorem two_moves_in_order :
    Run.Along (DrainState.next RetryPolicy.standard) AppliesInOrder (DrainState.idle OperationQueue.empty)
      [enqueueFor ⟨7⟩ (.setFlags {.seen}) 0, enqueueFor ⟨7⟩ (.move ⟨1⟩ ⟨2⟩) 0, .begin ⟨1⟩ 0,
        .runStep ⟨1⟩ true .applied none, .runStep ⟨1⟩ true .applied none] := by
  apply drain_keeps_target_order
  refine ⟨trivial, trivial, by unfold LeavesNoneBehind; decide, ?_, ?_, trivial⟩
  · rintro pass step rest under steps
    cases under
    exact List.not_mem_nil
  · rintro pass step rest under steps
    cases under
    exact List.not_mem_nil

end Postio

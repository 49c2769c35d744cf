import Postio.Lib.Run
import Postio.Send.SendMachine
import Postio.Sync.DrainRows

set_option autoImplicit false

namespace Postio

namespace SendWorld

variable (accountId : AccountId) (draftId : DraftId) (policy : RetryPolicy)

variable (world : SendWorld) (queue : OperationQueue) (job : SendJob) (after : SendWorld) (pass : Pass) (step : Step)
    (rest : List Step) (outcome : Outcome)

def unread : List Step :=
  -- The steps of the pass whose draft has not been read yet.
  match world.pass with
  | none => []
  | some pass => if world.phase = .between then pass.steps else pass.steps.tail

def NeverSubmitsCancelled : SendEvent -> Prop
  | .submit _ => ∀ job, world.phase = .marked job -> job.queueing ∉ world.history.cancelled
  | _ => True

/-- A cancel that is reported takes the only send there is: no pass has it still to run, no job of the text is
in hand, and the row it deletes is the only one that sends the draft. -/
def CancelsCleanly : SendEvent -> Prop
  | .cancelSend => (cancelSend draftId world).1 = .cancelled ->
      (∀ step ∈ world.unread, step.operation ≠ .send draftId) ∧
        (∀ job draft, world.phase = .resolved job ∨ world.phase = .opened job -> world.draft = some draft ->
          job.queueing ≠ draft.queueing) ∧
        ∀ row ∈ world.queue.rows, row.operation = .send draftId -> row.unsettled = true ->
          world.queue.pendingFor (.draft draftId) = some row
  | _ => True

structure Quiet (world : SendWorld) : Prop where
  rows : ∀ row ∈ world.queue.rows, row.operation = .send draftId -> row.unsettled = false
  steps : ∀ step ∈ world.unread, step.operation ≠ .send draftId

structure CancelInvariant (world : SendWorld) : Prop where
  known : ∀ draft, world.draft = some draft -> ∀ number ∈ world.history.cancelled, number ≤ draft.queueing
  quiet : ∀ draft, world.draft = some draft -> draft.queueing ∈ world.history.cancelled -> Quiet draftId world
  job : ∀ job, world.phase.job = some job ->
    job.queueing ∉ world.history.cancelled ∧ ∀ draft, world.draft = some draft -> job.queueing ≤ draft.queueing
  marked : ∀ job, world.phase = .marked job -> ∀ draft, world.draft = some draft ->
    draft.queueing = job.queueing -> draft.state = .sending
  pass : ∀ pass, world.pass = some pass -> PassRows world.queue accountId pass

theorem cancelInvariant_initial : CancelInvariant accountId draftId (initial queue) := by
  constructor <;> simp [initial, SendPhase.job]

theorem cancelInvariant_kept (invariant : CancelInvariant accountId draftId world)
    (draft : ∀ new, after.draft = some new -> ∃ old, world.draft = some old ∧ old.queueing = new.queueing)
    (cancelled : after.history.cancelled = world.history.cancelled)
    (quiet : Quiet draftId world -> Quiet draftId after)
    (job : ∀ job, after.phase.job = some job ->
      job.queueing ∉ world.history.cancelled ∧ ∀ old, world.draft = some old -> job.queueing ≤ old.queueing)
    (marked : ∀ job, after.phase = .marked job -> ∀ new, after.draft = some new ->
      new.queueing = job.queueing -> new.state = .sending)
    (pass : ∀ pass, after.pass = some pass -> PassRows after.queue accountId pass) :
    CancelInvariant accountId draftId after := by
  -- Every step but `queue_send` and `cancel_send` keeps the draft's text.
  refine { known := ?_, quiet := ?_, job := ?_, marked, pass }
  · intro new there number member
    obtain ⟨old, found, same⟩ := draft new there
    rw [cancelled] at member
    rw [← same]
    exact invariant.known old found number member
  · intro new there member
    obtain ⟨old, found, same⟩ := draft new there
    rw [cancelled, ← same] at member
    exact quiet (invariant.quiet old found member)
  · intro held same
    obtain ⟨fresh, under⟩ := job held same
    rw [cancelled]
    refine ⟨fresh, ?_⟩
    intro new there
    obtain ⟨old, found, equal⟩ := draft new there
    rw [← equal]
    exact under old found

theorem draft_kept (same : after.draft = world.draft) (new : Draft)
    (there : after.draft = some new) : ∃ old, world.draft = some old ∧ old.queueing = new.queueing := by
  rw [same] at there
  exact ⟨new, there, rfl⟩

theorem draft_setState (state : DraftState) (new : Draft) (there : (world.setState state).draft = some new) :
    ∃ old, world.draft = some old ∧ old.queueing = new.queueing := by
  rw [setState_draft, Option.map_eq_some_iff] at there
  obtain ⟨old, found, rfl⟩ := there
  exact ⟨old, found, rfl⟩

theorem quiet_phase (queue : after.queue = world.queue) (pass : after.pass = world.pass)
    (onward : world.phase = .between ∨ after.phase ≠ .between) (quiet : Quiet draftId world) :
    Quiet draftId after := by
  -- The queue and the pass stay as they are, and no step becomes unread again.
  refine { rows := by rw [queue]; exact quiet.rows, steps := ?_ }
  intro step member
  apply quiet.steps step
  unfold unread at member ⊢
  rw [pass] at member
  split at member
  next => exact member
  next under found =>
    rcases onward with between | away
    · rw [if_pos between]
      split at member
      · exact member
      · exact List.mem_of_mem_tail member
    · rw [if_neg away] at member
      split
      · exact List.mem_of_mem_tail member
      · exact member

theorem quiet_rows (after : OperationQueue) (pass : Pass) (ids : List OperationId)
    (rows : PassRows queue accountId pass) (touches : Touches queue after ids) (own : ∀ id ∈ ids, id ∈ pass.ids)
    (nextId : after.nextId = queue.nextId)
    (quiet : ∀ row ∈ queue.rows, row.operation = .send draftId -> row.unsettled = false) :
    ∀ row ∈ after.rows, row.operation = .send draftId -> row.unsettled = false := by
  -- The drainer writes rows of its own pass only, none of which can be a send once all is quiet.
  intro row there sends
  rcases touches.rows row there with fresh | ⟨old, found, sameId, -, -, operation, same⟩
  · have issued := after.issued row there
    omega
  · have settled := quiet old found (operation.trans sends)
    by_cases written : row.id ∈ ids
    · have waiting := (rows.waiting old found (by rw [sameId]; exact own row.id written)).2
      rw [settled] at waiting
      cases waiting
    · rw [← same written]
      exact settled

theorem cancelInvariant_halt (invariant : CancelInvariant accountId draftId world) :
    CancelInvariant accountId draftId world.halt := by
  refine cancelInvariant_kept accountId draftId world _ invariant (draft_kept world _ rfl) rfl ?_ ?_ ?_ ?_
  · intro quiet
    exact { rows := quiet.rows, steps := by simp [unread, halt] }
  · intro job same
    cases same
  · intro job same
    cases same
  · intro pass same
    cases same

theorem cancelInvariant_queueSend (now : Instant) (notBefore : Option Instant)
    (invariant : CancelInvariant accountId draftId world) :
    CancelInvariant accountId draftId (queueSend accountId draftId world now notBefore) := by
  unfold queueSend
  split
  next => exact invariant
  next draft there =>
    have touched : Touches world.queue _ [] :=
      touches_enqueue world.queue accountId (.draft draftId) (.send draftId) now notBefore none []
    refine { known := ?_, quiet := ?_, job := ?_, marked := ?_, pass := ?_ }
    · intro other same number member
      cases same
      exact Nat.le_succ_of_le (invariant.known draft there number member)
    · intro other same member
      cases same
      exact absurd (invariant.known draft there _ member) (Nat.not_succ_le_self _)
    · intro job holds
      obtain ⟨fresh, under⟩ := invariant.job job holds
      refine ⟨fresh, ?_⟩
      intro other same
      cases same
      exact Nat.le_succ_of_le (under draft there)
    · intro job phase other same named
      cases same
      have under := (invariant.job job (by rw [phase]; rfl)).2 draft there
      dsimp only at named
      omega
    · intro pass under
      exact passRows_elsewhere _ _ accountId pass [] (invariant.pass pass under) touched (by simp)

theorem cancelInvariant_cancelSend (clean : CancelsCleanly draftId world .cancelSend)
    (invariant : CancelInvariant accountId draftId world) :
    CancelInvariant accountId draftId (cancelSend draftId world).2 := by
  rcases cancelSend_cases draftId world with ⟨-, same⟩ | ⟨draft, pending, there, queued, found, reported, changed⟩
  · rw [same]
    exact invariant
  · obtain ⟨steps, apart, alone⟩ := clean reported
    rw [changed]
    refine { known := ?_, quiet := ?_, job := ?_, marked := ?_, pass := ?_ }
    · intro other same number member
      cases same
      rcases List.mem_cons.mp member with rfl | earlier
      · exact Nat.le_refl _
      · exact invariant.known draft there number earlier
    · intro _ _ _
      refine { rows := ?_, steps }
      intro row kept sends
      simp only [OperationQueue.delete, OperationQueue.remove_rows, List.mem_filter] at kept
      by_contra waits
      have only := alone row kept.1 sends (by simpa using waits)
      rw [found, Option.some.injEq] at only
      simp [only] at kept
    · intro job holds
      obtain ⟨fresh, under⟩ := invariant.job job holds
      refine ⟨?_, ?_⟩
      · intro member
        rcases List.mem_cons.mp member with same | earlier
        · -- The mark went on before the payload, so a marked job's draft is not `Queued`.
          cases phase : world.phase with
          | resolved other =>
            rw [phase] at holds
            cases holds
            exact apart job draft (.inl phase) there same
          | opened other =>
            rw [phase] at holds
            cases holds
            exact apart job draft (.inr phase) there same
          | marked other =>
            rw [phase] at holds
            cases holds
            have sending := invariant.marked job phase draft there same.symm
            rw [queued] at sending
            cases sending
          | between | answered | delivered | decided =>
            rw [phase] at holds
            cases holds
        · exact fresh earlier
      · intro other same
        cases same
        exact under draft there
    · intro job phase other same named
      cases same
      have sending := invariant.marked job phase draft there named
      rw [queued] at sending
      cases sending
    · intro pass under
      exact passRows_elsewhere _ _ accountId pass [] (invariant.pass pass under)
        (touches_remove world.queue _ []) (by simp)

theorem cancelInvariant_saveAndSync (mailbox : MailboxId) (now : Instant)
    (invariant : CancelInvariant accountId draftId world) :
    CancelInvariant accountId draftId (saveAndSync accountId draftId world mailbox now) := by
  unfold saveAndSync
  split
  next =>
    have touched : Touches world.queue _ [] :=
      touches_enqueue world.queue accountId (.draft draftId) (.saveDraft mailbox) now none none []
    refine cancelInvariant_kept accountId draftId world _ invariant (draft_kept world _ rfl) rfl ?_ invariant.job
      invariant.marked ?_
    · intro quiet
      refine { rows := ?_, steps := quiet.steps }
      intro row member sends
      rcases List.mem_append.mp member with old | new
      · exact quiet.rows row old sends
      · rw [List.mem_singleton.mp new] at sends
        cases sends
    · intro pass under
      exact passRows_elsewhere _ _ accountId pass [] (invariant.pass pass under) touched (by simp)
  next => exact invariant

theorem coalesce_sends (batch : List QueuedOperation) (ordered : InQueueOrder batch) (step : Step)
    (member : step ∈ (coalesce batch).steps) (sends : step.operation = .send draftId) :
    ∃ row ∈ batch, row.operation = .send draftId := by
  -- Steps that send come from rows that send.
  obtain ⟨row, there, -, -, carries⟩ :=
    coalesce_step_rows batch ordered step member step.head (List.head_mem step.nonempty)
  rcases carries with same | ⟨-, folds⟩
  · exact ⟨row, there, same.trans sends⟩
  · rw [sends] at folds
    cases folds

theorem cancelInvariant_failOrphanedSends (invariant : CancelInvariant accountId draftId world) :
    CancelInvariant accountId draftId (failOrphanedSends draftId world) := by
  rcases failOrphanedSends_cases draftId world with kept | ⟨healed, queueing, there⟩
  · rw [kept]
    exact invariant
  · rw [healed]
    refine cancelInvariant_kept accountId draftId world _ invariant (draft_setState world .failed) rfl ?_ invariant.job
      ?_ invariant.pass
    · intro quiet
      exact { rows := quiet.rows, steps := quiet.steps }
    · intro job phase new changed named
      simp only [setState_draft, there, Option.map_some, Option.some.injEq] at changed
      subst changed
      exact absurd (invariant.marked job phase ⟨.queued, queueing⟩ there named) (by simp)

theorem cancelInvariant_begin (now : Instant) (invariant : CancelInvariant accountId draftId world) :
    CancelInvariant accountId draftId (beginPass accountId draftId world now) := by
  have healed := cancelInvariant_failOrphanedSends accountId draftId world invariant
  unfold beginPass
  dsimp only
  split
  next => exact healed
  next =>
    refine cancelInvariant_kept accountId draftId _ _ healed (draft_kept _ _ rfl) rfl ?_ healed.job healed.marked ?_
    · intro quiet
      refine { rows := quiet.rows, steps := ?_ }
      intro step member sends
      have planned : step ∈ (coalesce ((failOrphanedSends draftId world).queue.pending accountId now)).steps := by
        simp only [unread] at member
        split at member
        · exact member
        · exact List.mem_of_mem_tail member
      obtain ⟨row, due, rowSends⟩ := coalesce_sends draftId _ (pending_ordered _ accountId now) step planned sends
      obtain ⟨there, -, waits⟩ := mem_pending _ accountId now row due
      rw [quiet.rows row there rowSends] at waits
      cases waits
    · intro pass same
      cases same
      exact passRows_begin (failOrphanedSends draftId world).queue accountId now

theorem cancelInvariant_tidy (id : OperationId) (rest : List OperationId)
    (under : world.pass = some pass) (first : pass.obsolete = id :: rest)
    (invariant : CancelInvariant accountId draftId world) :
    CancelInvariant accountId draftId (tidyRow world pass id rest) := by
  have rows := invariant.pass pass under
  unfold tidyRow
  split
  next => exact cancelInvariant_halt accountId draftId world invariant
  next queue done =>
    have touched := (doneAndNote_spec pass.now _ world.queue queue id done).1
    have nextId := settleRow_nextId RetryPolicy.standard pass.now 0 (.obsolete _) world.queue queue id done
    refine cancelInvariant_kept accountId draftId world _ invariant (draft_kept world _ rfl) rfl ?_ invariant.job
      invariant.marked ?_
    · intro quiet
      refine { rows := quiet_rows accountId draftId _ _ pass [id] rows touched ?_ nextId quiet.rows, steps := ?_ }
      · intro other member
        rw [List.mem_singleton.mp member]
        exact List.mem_append_left _ (by simp [first])
      · intro step member
        apply quiet.steps step
        simpa [unread, under] using member
    · intro other same
      cases same
      exact passRows_tidy world.queue queue accountId pass id rest rows first touched

theorem cancelInvariant_settleStep (cut : Option Nat) (under : world.pass = some pass) (tidied : pass.obsolete = [])
    (steps : pass.steps = step :: rest) (invariant : CancelInvariant accountId draftId world) :
    CancelInvariant accountId draftId (settleStep policy world pass step rest outcome cut).1 := by
  have rows := invariant.pass pass under
  obtain ⟨draft, history, phase⟩ := settleStep_same policy world pass step rest outcome cut
  have own (id : OperationId) (member : id ∈ step.rows) : id ∈ pass.ids :=
    mem_pass_ids pass step id (by simp [steps]) member
  have remaining (quiet : Quiet draftId world) (other : Step) (member : other ∈ rest) :
      other.operation ≠ .send draftId := by
    apply quiet.steps other
    simp only [unread, under, steps, List.tail_cons]
    split
    · exact List.mem_cons_of_mem _ member
    · exact member
  refine cancelInvariant_kept accountId draftId world _ invariant (draft_kept world _ draft) (by rw [history]) ?_ ?_ ?_ ?_
  · intro quiet
    unfold settleStep
    split
    next written =>
      obtain ⟨touched, -⟩ := eachRow_spec policy pass.now (attemptsOf world.queue step.rows) outcome world.queue
        (step.rows.take written)
      exact
        { rows := quiet_rows accountId draftId _ _ pass _ rows touched
            (fun id member => own id (List.mem_of_mem_take member)) (eachRow_nextId ..) quiet.rows
          steps := by simp [unread, halt] }
    next =>
      obtain ⟨touched, -⟩ := eachRow_spec policy pass.now (attemptsOf world.queue step.rows) outcome world.queue step.rows
      have kept := quiet_rows accountId draftId _ _ pass _ rows touched own (eachRow_nextId ..) quiet.rows
      dsimp only
      split
      · exact { rows := kept, steps := remaining quiet }
      · exact { rows := kept, steps := by simp [unread, halt] }
  · intro job holds
    rw [phase] at holds
    cases holds
  · intro job same
    rw [phase] at same
    cases same
  · intro next same
    unfold settleStep at same ⊢
    split at same
    next => cases same
    next =>
      obtain ⟨touched, -⟩ := eachRow_spec policy pass.now (attemptsOf world.queue step.rows) outcome world.queue step.rows
      dsimp only at same ⊢
      split at same
      next finished =>
        cases same
        rw [if_pos finished]
        exact passRows_step world.queue _ accountId pass step rest pass.putBack rows tidied steps touched
      next => cases same

theorem cancelInvariant_settleSend (cut : Option Nat) (markedFailed : Bool) (under : world.pass = some pass)
    (tidied : pass.obsolete = []) (steps : pass.steps = step :: rest)
    (invariant : CancelInvariant accountId draftId world) :
    CancelInvariant accountId draftId (settleSend policy world pass step rest outcome cut markedFailed) := by
  have settled := cancelInvariant_settleStep accountId draftId policy world pass step rest outcome cut under tidied
    steps invariant
  obtain ⟨-, -, phase⟩ := settleStep_same policy world pass step rest outcome cut
  unfold settleSend
  dsimp only
  split
  next =>
    refine cancelInvariant_kept accountId draftId _ _ settled (draft_setState _ .failed) rfl ?_ settled.job ?_ settled.pass
    · intro quiet
      exact { rows := quiet.rows, steps := quiet.steps }
    · intro job same
      rw [setState_phase, phase] at same
      cases same
  next => exact settled

theorem cancelInvariant_decided (invariant : CancelInvariant accountId draftId world) :
    CancelInvariant accountId draftId { world with phase := .decided outcome } := by
  -- The drainer let go of the job it had, if it had one.
  refine cancelInvariant_kept accountId draftId world _ invariant (draft_kept world _ rfl) rfl
    (quiet_phase draftId world _ rfl rfl (.inr (by simp))) ?_ ?_ invariant.pass
  · intro job same
    cases same
  · intro job same
    cases same

theorem cancelInvariant_setState (state : DraftState) (jobless : world.phase.job = none)
    (invariant : CancelInvariant accountId draftId world) : CancelInvariant accountId draftId (world.setState state) := by
  refine cancelInvariant_kept accountId draftId world _ invariant (draft_setState world state) rfl ?_ invariant.job ?_
    invariant.pass
  · intro quiet
    exact { rows := quiet.rows, steps := quiet.steps }
  · intro job same
    rw [setState_phase] at same
    rw [same] at jobless
    cases jobless

theorem cancelInvariant_resolve (blocked : Option String) (promoted : Bool) (between : world.phase = .between) (under : world.pass = some pass)
    (steps : pass.steps = step :: rest) (sends : step.operation = .send draftId)
    (invariant : CancelInvariant accountId draftId world) :
    CancelInvariant accountId draftId (resolve world blocked promoted) := by
  have decided (outcome : Outcome) := cancelInvariant_decided accountId draftId world outcome invariant
  have fresh (draft : Draft) (there : world.draft = some draft) :
      CancelInvariant accountId draftId { world with phase := .resolved { queueing := draft.queueing } } := by
    -- The step being run is itself a send still unread, so the draft's text was not cancelled.
    have wanted : draft.queueing ∉ world.history.cancelled := by
      intro member
      have quiet := invariant.quiet draft there member
      exact quiet.steps step (by simp [unread, under, between, steps]) sends
    refine cancelInvariant_kept accountId draftId world _ invariant (draft_kept world _ rfl) rfl
      (quiet_phase draftId world _ rfl rfl (.inl between)) ?_ ?_ invariant.pass
    · intro job same
      cases same
      refine ⟨wanted, ?_⟩
      intro old found
      rw [there, Option.some.injEq] at found
      subst found
      exact Nat.le_refl _
    · intro job same
      cases same
  unfold resolve
  split
  next => exact decided _
  next draft there =>
    split
    next => exact decided _
    next =>
      split
      next =>
        have jobless : SendPhase.job world.phase = none := by rw [between]; rfl
        exact cancelInvariant_decided accountId draftId _ _
          (cancelInvariant_setState accountId draftId world .unconfirmed jobless invariant)
      next => exact cancelInvariant_halt accountId draftId world invariant
    next => exact decided _
    all_goals
      cases blocked with
      | some reason => exact decided (.failed reason)
      | none => exact fresh draft there

theorem cancelInvariant_openSession (failure : Option Outcome)
    (resolved : world.phase = .resolved job) (invariant : CancelInvariant accountId draftId world) :
    CancelInvariant accountId draftId (openSession world job failure) := by
  unfold openSession
  split
  next =>
    refine cancelInvariant_kept accountId draftId world _ invariant (draft_kept world _ rfl) rfl
      (quiet_phase draftId world _ rfl rfl (.inr (by simp))) ?_ ?_ invariant.pass
    · intro other same
      cases same
      exact invariant.job job (by rw [resolved]; rfl)
    · intro other same
      cases same
  next => exact cancelInvariant_decided accountId draftId world _ invariant
  next => exact cancelInvariant_decided accountId draftId world _ invariant
  next => exact invariant

theorem cancelInvariant_mark (written : Bool) (opened : world.phase = .opened job)
    (invariant : CancelInvariant accountId draftId world) :
    CancelInvariant accountId draftId (markSending world job written) := by
  unfold markSending
  split
  next =>
    refine cancelInvariant_kept accountId draftId world _ invariant (draft_setState world .sending) rfl ?_ ?_ ?_
      invariant.pass
    · exact quiet_phase draftId world _ rfl rfl (.inr (by simp))
    · intro other same
      cases same
      exact invariant.job job (by rw [opened]; rfl)
    · intro other same new there _
      simp only [setState_draft, Option.map_eq_some_iff] at there
      obtain ⟨old, found, rfl⟩ := there
      rfl
  next => exact cancelInvariant_decided accountId draftId world _ invariant

theorem cancelInvariant_submit (reply : Reply)
    (invariant : CancelInvariant accountId draftId world) : CancelInvariant accountId draftId (submit world job reply) := by
  refine cancelInvariant_kept accountId draftId world _ invariant (draft_kept world _ rfl) rfl
    (quiet_phase draftId world _ rfl rfl (.inr (by simp [submit]))) ?_ ?_ invariant.pass
  · intro other same
    cases same
  · intro other same
    cases same

theorem cancelInvariant_record (reply : Reply) (written : Bool)
    (answered : world.phase = .answered job reply) (invariant : CancelInvariant accountId draftId world) :
    CancelInvariant accountId draftId (record world job reply written) := by
  have jobless : world.phase.job = none := by rw [answered]; rfl
  have marked (state : DraftState) :
      CancelInvariant accountId draftId (if written then world.setState state else world) := by
    split
    · exact cancelInvariant_setState accountId draftId world state jobless invariant
    · exact invariant
  unfold record
  dsimp only
  split
  next =>
    refine cancelInvariant_kept accountId draftId _ _ (marked .sent) (draft_kept _ _ rfl) rfl
      (quiet_phase draftId _ _ rfl rfl (.inr (by simp))) ?_ ?_ (marked .sent).pass
    · intro other same
      cases same
    · intro other same
      cases same
  next =>
    split
    · exact cancelInvariant_decided accountId draftId _ _ (marked .unconfirmed)
    · exact cancelInvariant_decided accountId draftId _ _ (marked .queued)

theorem cancelInvariant_confirm (deleted : Bool) (invariant : CancelInvariant accountId draftId world) :
    CancelInvariant accountId draftId
      { world with draft := if deleted then none else world.draft, phase := .decided .applied } := by
  refine cancelInvariant_kept accountId draftId world _ invariant ?_ rfl
    (quiet_phase draftId world _ rfl rfl (.inr (by simp))) ?_ ?_ invariant.pass
  · intro new there
    cases deleted with
    | false => exact ⟨new, there, rfl⟩
    | true => cases there
  · intro other same
    cases same
  · intro other same
    cases same

theorem cancelInvariant_atSend (act : Pass -> Step -> List Step -> SendWorld)
    (invariant : CancelInvariant accountId draftId world)
    (acts : ∀ pass step rest, world.pass = some pass -> pass.obsolete = [] -> pass.steps = step :: rest ->
      step.operation = .send draftId -> CancelInvariant accountId draftId (act pass step rest)) :
    CancelInvariant accountId draftId (atSend draftId world act) := by
  rcases atSend_cases draftId world act with same | ⟨pass, step, rest, under, tidied, steps, sends, same⟩
  · rw [same]
    exact invariant
  · rw [same]
    exact acts pass step rest under tidied steps sends

theorem cancelInvariant_step (event : SendEvent)
    (invariant : CancelInvariant accountId draftId world) (clean : CancelsCleanly draftId world event) :
    CancelInvariant accountId draftId (next accountId draftId policy world event) := by
  unfold next
  split
  next now notBefore => exact cancelInvariant_queueSend accountId draftId world now notBefore invariant
  next => exact cancelInvariant_cancelSend accountId draftId world clean invariant
  next mailbox now => exact cancelInvariant_saveAndSync accountId draftId world mailbox now invariant
  next now =>
    split
    · exact invariant
    · exact cancelInvariant_begin accountId draftId world now invariant
  next =>
    split
    next pass under =>
      split
      next => exact invariant
      next first => exact cancelInvariant_tidy accountId draftId world pass _ _ under first invariant
    next => exact invariant
  next outcome cut =>
    split
    next pass under =>
      split
      next step rest tidied steps =>
        split
        · exact invariant
        · exact cancelInvariant_settleStep accountId draftId policy world pass step rest outcome cut under tidied steps
            invariant
      next => exact invariant
    next => exact invariant
  next impossible reason =>
    refine cancelInvariant_atSend accountId draftId world _ invariant fun _ _ _ _ _ _ _ => ?_
    split
    next =>
      unfold carry
      split
      next =>
        split
        · exact invariant
        · exact cancelInvariant_decided accountId draftId world _ invariant
      next => exact invariant
    next => exact invariant
  next blocked promoted =>
    refine cancelInvariant_atSend accountId draftId world _ invariant fun pass step rest under _ steps sends => ?_
    split
    next between =>
      exact cancelInvariant_resolve accountId draftId world pass step rest blocked promoted between under steps sends
        invariant
    next => exact invariant
  next failure =>
    refine cancelInvariant_atSend accountId draftId world _ invariant fun _ _ _ _ _ _ _ => ?_
    split
    next job phase => exact cancelInvariant_openSession accountId draftId world job failure phase invariant
    next => exact invariant
  next written =>
    refine cancelInvariant_atSend accountId draftId world _ invariant fun _ _ _ _ _ _ _ => ?_
    split
    next job phase => exact cancelInvariant_mark accountId draftId world job written phase invariant
    next => exact invariant
  next reply =>
    refine cancelInvariant_atSend accountId draftId world _ invariant fun _ _ _ _ _ _ _ => ?_
    split
    next job phase => exact cancelInvariant_submit accountId draftId world job reply invariant
    next => exact invariant
  next written =>
    refine cancelInvariant_atSend accountId draftId world _ invariant fun _ _ _ _ _ _ _ => ?_
    split
    next job reply phase => exact cancelInvariant_record accountId draftId world job reply written phase invariant
    next => exact invariant
  next deleted =>
    refine cancelInvariant_atSend accountId draftId world _ invariant fun _ _ _ _ _ _ _ => ?_
    split
    · exact cancelInvariant_confirm accountId draftId world deleted invariant
    · exact invariant
  next cut markedFailed =>
    refine cancelInvariant_atSend accountId draftId world _ invariant fun pass step rest under tidied steps _ => ?_
    split
    next outcome phase =>
      exact cancelInvariant_settleSend accountId draftId policy world pass step rest outcome cut markedFailed under
        tidied steps invariant
    next => exact invariant
  next => exact cancelInvariant_halt accountId draftId world invariant

theorem cancelled_never_submitted (events : List SendEvent)
    (clean : Run.Along (next accountId draftId policy) (CancelsCleanly draftId) (initial queue) events) :
    Run.Along (next accountId draftId policy) NeverSubmitsCancelled (initial queue) events := by
  apply Run.along_invariant _ (CancelInvariant accountId draftId) (CancelsCleanly draftId) NeverSubmitsCancelled
    (cancelInvariant_step accountId draftId policy) _ _ _ (cancelInvariant_initial accountId draftId queue) clean
  intro world event invariant _
  cases event with
  | submit reply =>
    intro job phase
    exact (invariant.job job (by rw [phase]; rfl)).1
  | _ => trivial

def cancelledInHand : List SendEvent :=
  [.queueSend 0 none, .begin 0, .resolve none true, .cancelSend, .openSession none, .mark true, .submit .ok]

theorem cancelled_in_hand_submitted :
    ¬ Run.Along (next ⟨1⟩ ⟨3⟩ RetryPolicy.standard) NeverSubmitsCancelled (initial OperationQueue.empty)
      cancelledInHand := by
  rintro ⟨-, -, -, -, -, -, last, -⟩
  exact last ⟨1⟩ (by decide) (by decide)

theorem cancelled_in_time_never_submitted :
    Run.Along (next ⟨1⟩ ⟨3⟩ RetryPolicy.standard) NeverSubmitsCancelled (initial OperationQueue.empty)
      [.queueSend 0 none, .cancelSend, .begin 0, .queueSend 5 none, .begin 5, .resolve none true, .openSession none,
        .mark true, .submit .ok] := by
  apply cancelled_never_submitted
  refine ⟨trivial, ?_, trivial, trivial, trivial, trivial, trivial, trivial, trivial, trivial⟩
  intro _
  refine ⟨by decide, ?_, by decide⟩
  rintro job draft (resolved | opened)
  · cases resolved
  · cases opened

end SendWorld

end Postio

import Postio.Sync.DrainReport

set_option autoImplicit false

namespace Postio

/-! ### What the books of a pass come to -/

/-- While a pass is under way each row it took is settled once or still ahead, and a count says what is settled. -/
structure Balanced (policy : RetryPolicy) (pass : Pass) (books : Books) : Prop where
  distinct : books.taken.Nodup
  ids : (books.log.map Prod.fst ++ pass.ids).Perm books.taken
  counts : ∀ tally, books.report.count tally =
    books.log.countP (fun entry => entry.2.tally policy = tally) + if tally = .coalesced then pass.obsolete.length else 0

/-- What a pass that returned has settled: every row it took, once. -/
structure Closed (policy : RetryPolicy) (books : Books) : Prop where
  distinct : books.taken.Nodup
  ids : (books.log.map Prod.fst).Perm books.taken
  counts : ∀ tally, books.report.count tally = books.log.countP (fun entry => entry.2.tally policy = tally)

structure Partial (books : Books) : Prop where
  distinct : (books.log.map Prod.fst).Nodup
  taken : ∀ id ∈ books.log.map Prod.fst, id ∈ books.taken

variable (policy : RetryPolicy) (queue : OperationQueue) (run : DrainRun) (pass : Pass) (books : Books)
    (accountId : AccountId)

theorem opened_balanced (now : Instant) :
    Balanced policy
      { now
        obsolete := (coalesce (queue.pending accountId now)).obsolete
        steps := (coalesce (queue.pending accountId now)).steps
        putBack := [] }
      (DrainRun.opened (queue.pending accountId now)) := by
  have ids := coalesce_ids (queue.pending accountId now)
  refine ⟨ids.nodup_iff.mp (passRows_begin queue accountId now).distinct, ids, fun tally => ?_⟩
  cases tally <;> simp [DrainRun.opened, DrainReport.standard, DrainReport.count, DrainReport.rowsOf]

theorem nothingDue_closed : Closed policy DrainRun.nothingDue := by
  refine ⟨List.nodup_nil, List.Perm.refl _, fun tally => ?_⟩
  cases tally <;> simp [DrainRun.nothingDue, DrainReport.standard, DrainReport.count, DrainReport.rowsOf]

theorem Balanced.part (balanced : Balanced policy pass books) :
    Partial books := by
  have whole := balanced.ids.nodup_iff.mpr balanced.distinct
  exact ⟨(List.nodup_append.mp whole).1, fun id member => balanced.ids.mem_iff.mp (List.mem_append_left _ member)⟩

theorem Balanced.closed (balanced : Balanced policy pass books)
    (tidied : pass.obsolete = []) (done : pass.steps = []) : Closed policy books := by
  have ids := balanced.ids
  have counts := balanced.counts
  simp only [Pass.ids, tidied, done, List.flatMap_nil, List.append_nil, List.length_nil, ite_self, Nat.add_zero]
    at ids counts
  exact ⟨balanced.distinct, ids, counts⟩

theorem tidy_balanced (id : OperationId) (rest : List OperationId)
    (balanced : Balanced policy pass books) (front : pass.obsolete = id :: rest) :
    Balanced policy { pass with obsolete := rest } { books with log := books.log ++ [(id, .coalesced)] } := by
  refine ⟨balanced.distinct, ?_, fun tally => ?_⟩
  next =>
    have ids := balanced.ids
    simp only [Pass.ids, front] at ids ⊢
    simpa using ids
  next =>
    have count := balanced.counts tally
    rw [front] at count
    rw [count, List.countP_append, List.countP_singleton]
    by_cases mine : tally = .coalesced
    next =>
      subst mine
      simp only [if_true, List.length_cons, Settlement.tally, decide_true]
      omega
    next =>
      have other : ¬ decide (Settlement.tally policy .coalesced = tally) = true := by
        rw [decide_eq_true_eq]
        exact Ne.symm mine
      rw [if_neg mine, if_neg mine, if_neg other]

theorem step_balanced (step : Step)
    (rest : List Step) (outcome : Outcome) (putBack : List OperationTarget) (balanced : Balanced policy pass books)
    (tidied : pass.obsolete = []) (front : pass.steps = step :: rest)
    (written : (settle policy pass.now queue step.rows outcome).2 = true) :
    Balanced policy { pass with steps := rest, putBack }
      (DrainRun.stepBooks policy queue pass.now step outcome none books) := by
  have all := rowsWritten_all _ queue step.rows written
  unfold DrainRun.stepBooks
  dsimp only
  rw [all]
  refine ⟨balanced.distinct, ?_, fun tally => ?_⟩
  next =>
    have ids := balanced.ids
    simp only [Pass.ids, tidied, front, List.nil_append, List.flatMap_cons] at ids ⊢
    simpa [List.map_append, List.map_map, Function.comp_def] using ids
  next =>
    have count := balanced.counts tally
    rw [DrainReport.count_settle, count, List.countP_append, tidied, List.countP_map]
    have rows : step.rows.countP ((fun entry : OperationId × Settlement => decide (entry.2.tally policy = tally)) ∘
        fun id => (id, Settlement.stepped outcome (attemptsOf queue step.rows))) =
          if (Settlement.stepped outcome (attemptsOf queue step.rows)).tally policy = tally then step.rows.length
          else 0 := by
      split
      next mine => simp [Function.comp_def, mine]
      next other => simp [Function.comp_def, other]
    rw [rows]
    simp only [List.length_nil, ite_self, Nat.add_zero]

theorem step_part (step : Step)
    (rest : List Step) (outcome : Outcome) (cut : Option Nat) (balanced : Balanced policy pass books)
    (tidied : pass.obsolete = []) (front : pass.steps = step :: rest) :
    Partial (DrainRun.stepBooks policy queue pass.now step outcome cut books) := by
  have within : ∀ rows : List OperationId, rows.Sublist step.rows ->
      (books.log.map Prod.fst ++ rows).Nodup ∧ ∀ id ∈ books.log.map Prod.fst ++ rows, id ∈ books.taken := by
    intro rows inside
    have whole := balanced.ids
    simp only [Pass.ids, tidied, front, List.nil_append, List.flatMap_cons] at whole
    have shorter : (books.log.map Prod.fst ++ rows).Sublist
        (books.log.map Prod.fst ++ (step.rows ++ rest.flatMap Step.rows)) :=
      (List.Sublist.refl _).append (inside.trans (List.sublist_append_left _ _))
    exact ⟨(whole.nodup_iff.mpr balanced.distinct).sublist shorter,
      fun id member => whole.mem_iff.mp (shorter.subset member)⟩
  unfold DrainRun.stepBooks
  dsimp only
  constructor
  next =>
    rw [List.map_append, List.map_map]
    simp only [Function.comp_def, List.map_id']
    apply (within _ _).1
    cases cut with
    | none => exact rowsWritten_sublist _ queue step.rows
    | some count => exact (rowsWritten_sublist _ queue _).trans (List.take_sublist count step.rows)
  next =>
    rw [List.map_append, List.map_map]
    simp only [Function.comp_def, List.map_id']
    apply (within _ _).2
    cases cut with
    | none => exact rowsWritten_sublist _ queue step.rows
    | some count => exact (rowsWritten_sublist _ queue _).trans (List.take_sublist count step.rows)

/-! ### Every run of passes -/

structure Accounted (policy : RetryPolicy) (run : DrainRun) : Prop where
  underway : ∀ accountId pass, run.state.passes accountId = some pass ->
    ∃ books, run.underway accountId = some books ∧ Balanced policy pass books
  returned : ∀ books ∈ run.returned, Closed policy books
  cutShort : ∀ books ∈ run.cutShort, Partial books

theorem idle_accounted : Accounted policy (DrainRun.idle queue) :=
  { underway := fun _ _ under => nomatch under
    returned := fun _ member => nomatch member
    cutShort := fun _ member => nomatch member }

theorem keep_accounted (after : DrainState) (accounted : Accounted policy run)
    (same : after.passes = run.state.passes) : Accounted policy (run.keep after) := by
  refine ⟨fun accountId pass under => ?_, accounted.returned, accounted.cutShort⟩
  change after.passes accountId = some pass at under
  rw [same] at under
  exact accounted.underway accountId pass under

section

variable (policy : RetryPolicy) (run : DrainRun) (after : DrainState) (accountId : AccountId) (books : Books)

theorem proceed_accounted (pass : Pass) (accounted : Accounted policy run)
    (passes : after.passes = Function.update run.state.passes accountId (some pass))
    (balanced : Balanced policy pass books) : Accounted policy (run.proceed after accountId books) := by
  refine ⟨fun other found under => ?_, accounted.returned, accounted.cutShort⟩
  change after.passes other = some found at under
  change ∃ books', Function.update run.underway accountId (some books) other = some books' ∧ _
  rw [passes] at under
  by_cases same : other = accountId
  next =>
    subst same
    rw [Function.update_self] at under ⊢
    cases under
    exact ⟨books, rfl, balanced⟩
  next =>
    rw [Function.update_of_ne same] at under ⊢
    exact accounted.underway other found under

theorem ended_underway (accounted : Accounted policy run)
    (passes : after.passes = Function.update run.state.passes accountId none) (other : AccountId) (pass : Pass)
    (under : after.passes other = some pass) :
    ∃ books, Function.update run.underway accountId none other = some books ∧ Balanced policy pass books := by
  rw [passes] at under
  by_cases same : other = accountId
  next =>
    subst same
    rw [Function.update_self] at under
    cases under
  next =>
    rw [Function.update_of_ne same] at under ⊢
    exact accounted.underway other pass under

theorem giveUp_accounted (accounted : Accounted policy run)
    (passes : after.passes = Function.update run.state.passes accountId none) (part : Partial books) :
    Accounted policy (run.giveUp after accountId books) := by
  refine ⟨ended_underway policy run after accountId accounted passes, accounted.returned, fun other member => ?_⟩
  rcases List.mem_append.mp member with old | new
  next => exact accounted.cutShort other old
  next => exact List.mem_singleton.mp new ▸ part

theorem finish_accounted (accounted : Accounted policy run)
    (passes : after.passes = Function.update run.state.passes accountId none) (closed : Closed policy books) :
    Accounted policy (run.finish after accountId books) := by
  refine ⟨ended_underway policy run after accountId accounted passes, fun other member => ?_, accounted.cutShort⟩
  rcases List.mem_append.mp member with old | new
  next => exact accounted.returned other old
  next => exact List.mem_singleton.mp new ▸ closed

end

theorem begin_accounted (now : Instant)
    (accounted : Accounted policy run) : Accounted policy (run.next policy (.begin accountId now)) := by
  unfold DrainRun.next DrainState.next
  dsimp only
  cases under : run.state.passes accountId with
  | some pass => exact keep_accounted policy run _ accounted rfl
  | none =>
    dsimp only
    unfold beginPass
    by_cases due : (run.state.queue.pending accountId now).isEmpty = true
    next =>
      rw [if_pos due, if_pos due]
      refine ⟨accounted.underway, fun books member => ?_, accounted.cutShort⟩
      rcases List.mem_append.mp member with old | new
      next => exact accounted.returned books old
      next => exact List.mem_singleton.mp new ▸ nothingDue_closed policy
    next =>
      rw [if_neg due, if_neg due]
      exact proceed_accounted policy run _ accountId _ _ accounted rfl (opened_balanced policy run.state.queue accountId now)

theorem tidy_accounted (accounted : Accounted policy run) : Accounted policy (run.next policy (.tidy accountId)) := by
  unfold DrainRun.next DrainState.next
  dsimp only
  cases under : run.state.passes accountId with
  | none => exact keep_accounted policy run _ accounted rfl
  | some pass =>
    obtain ⟨books, kept, balanced⟩ := accounted.underway accountId pass under
    rw [kept]
    dsimp only
    cases front : pass.obsolete with
    | nil => exact keep_accounted policy run _ accounted rfl
    | cons id rest =>
      dsimp only
      unfold tidyRow
      cases doneAndNote pass.now "folded into an operation that undid it" run.state.queue id with
      | none => exact giveUp_accounted policy run _ accountId books accounted rfl balanced.part
      | some queue =>
        exact proceed_accounted policy run _ accountId _ _ accounted rfl
          (tidy_balanced policy pass books id rest balanced front)

theorem runStep_accounted (applied : Bool) (outcome : Outcome) (cut : Option Nat) (accounted : Accounted policy run) :
    Accounted policy (run.next policy (.runStep accountId applied outcome cut)) := by
  unfold DrainRun.next DrainState.next
  dsimp only
  cases under : run.state.passes accountId with
  | none => exact keep_accounted policy run _ accounted rfl
  | some pass =>
    obtain ⟨books, kept, balanced⟩ := accounted.underway accountId pass under
    rw [kept]
    dsimp only
    cases tidied : pass.obsolete with
    | cons id rest => exact keep_accounted policy run _ accounted rfl
    | nil =>
      cases front : pass.steps with
      | nil => exact keep_accounted policy run _ accounted rfl
      | cons step rest =>
        dsimp only
        unfold DrainRun.carryOn runStep
        have part := step_part policy run.state.queue pass books step rest outcome cut balanced tidied front
        cases cut with
        | some written =>
          dsimp only [DrainState.setPass]
          rw [Function.update_self]
          exact giveUp_accounted policy run _ accountId _ accounted rfl part
        | none =>
          dsimp only [DrainState.setPass]
          rw [Function.update_self]
          cases written : (settle policy pass.now run.state.queue step.rows outcome).2 with
          | false => exact giveUp_accounted policy run _ accountId _ accounted rfl part
          | true =>
            exact proceed_accounted policy run _ accountId _ _ accounted rfl
              (step_balanced policy run.state.queue pass books step rest outcome _ balanced tidied front written)

theorem stop_accounted (accounted : Accounted policy run) : Accounted policy (run.next policy (.stop accountId)) := by
  unfold DrainRun.next DrainState.next
  dsimp only
  cases under : run.state.passes accountId with
  | none =>
    refine keep_accounted policy run _ accounted ?_
    exact (Function.update_eq_self_iff).mpr under.symm
  | some pass =>
    obtain ⟨books, kept, balanced⟩ := accounted.underway accountId pass under
    rw [kept]
    dsimp only
    cases tidied : pass.obsolete with
    | cons id rest => exact giveUp_accounted policy run _ accountId books accounted rfl balanced.part
    | nil =>
      cases done : pass.steps with
      | nil => exact finish_accounted policy run _ accountId books accounted rfl (balanced.closed policy pass books tidied done)
      | cons step rest => exact giveUp_accounted policy run _ accountId books accounted rfl balanced.part

theorem next_accounted (event : DrainEvent) (accounted : Accounted policy run) :
    Accounted policy (run.next policy event) := by
  cases event with
  | enqueue accountId target operation now notBefore remoteId => exact keep_accounted policy run _ accounted rfl
  | withdraw id => exact keep_accounted policy run _ accounted rfl
  | prune accountId before => exact keep_accounted policy run _ accounted rfl
  | begin accountId now => exact begin_accounted policy run accountId now accounted
  | tidy accountId => exact tidy_accounted policy run accountId accounted
  | runStep accountId applied outcome cut => exact runStep_accounted policy run accountId applied outcome cut accounted
  | stop accountId => exact stop_accounted policy run accountId accounted

theorem run_accounted (events : List DrainEvent) (run : DrainRun)
    (accounted : Accounted policy run) : Accounted policy (Run.run (DrainRun.next policy) run events) := by
  induction events generalizing run with
  | nil => exact accounted
  | cons event rest ih => exact ih (run.next policy event) (next_accounted policy run event accounted)

/-! ### What a report tells -/

/-- Each row is settled by one outcome, the counts come to what was taken, and the report is idle when nothing was. -/
structure Tells (books : Books) : Prop where
  once : ∀ id ∈ books.taken, (books.log.map Prod.fst).count id = 1
  only : ∀ id ∈ books.log.map Prod.fst, id ∈ books.taken
  total : books.report.total = books.taken.length
  idle : books.report.isIdle = true <-> books.taken = []

theorem Closed.length (closed : Closed policy books) :
    books.log.length = books.taken.length := by
  have length := closed.ids.length_eq
  rwa [List.length_map] at length

theorem tallies_total (log : List (OperationId × Settlement)) :
    log.countP (fun entry => entry.2.tally policy = .applied) + log.countP (fun entry => entry.2.tally policy = .coalesced) +
      log.countP (fun entry => entry.2.tally policy = .obsolete) +
      log.countP (fun entry => entry.2.tally policy = .deferred) +
      log.countP (fun entry => entry.2.tally policy = .failed) +
      log.countP (fun entry => entry.2.tally policy = .uncertain) = log.length := by
  induction log with
  | nil => rfl
  | cons entry rest ih =>
    simp only [List.countP_cons, List.length_cons]
    cases kind : entry.2.tally policy <;> simp only [reduceCtorEq, decide_false, decide_true, if_true, Bool.false_eq_true,
      if_false] <;> omega

theorem tally_uncertain (settlement : Settlement) :
    settlement.tally policy = .uncertain <-> settlement.isUncertain = true := by
  cases settlement with
  | coalesced => simp [Settlement.tally, Settlement.isUncertain]
  | stepped outcome attempts =>
    cases outcome with
    | applied => simp [Settlement.tally, Settlement.isUncertain]
    | obsolete reason => simp [Settlement.tally, Settlement.isUncertain]
    | failed reason => simp [Settlement.tally, Settlement.isUncertain]
    | uncertain reason => simp [Settlement.tally, Settlement.isUncertain]
    | retry reason after =>
      simp only [Settlement.tally, Settlement.isUncertain]
      split <;> simp

theorem Closed.total (closed : Closed policy books) :
    books.report.total = books.taken.length := by
  have tallies := tallies_total policy books.log
  rw [← closed.counts, ← closed.counts, ← closed.counts, ← closed.counts, ← closed.counts, ← closed.counts,
    closed.length] at tallies
  exact tallies

theorem Closed.idle_iff (closed : Closed policy books) :
    books.report.isIdle = true <-> ∀ entry ∈ books.log, entry.2.isUncertain = true := by
  -- The report is idle exactly when every row of the pass was left uncertain.
  have total := closed.total policy books
  have uncertain := closed.counts .uncertain
  have idle : books.report.isIdle = true <-> DrainReport.rowsOf books.report.uncertain = books.report.total := by
    unfold DrainReport.isIdle DrainReport.settled DrainReport.total
    rw [Bool.and_eq_true, decide_eq_true_eq, decide_eq_true_eq]
    constructor
    next =>
      rintro ⟨settled, deferred⟩
      omega
    next =>
      intro same
      constructor <;> omega
  rw [idle, total, ← closed.length]
  change books.report.count .uncertain = _ <-> _
  rw [uncertain, List.countP_eq_length]
  simp only [decide_eq_true_eq, tally_uncertain]

theorem Closed.tells_iff (closed : Closed policy books) :
    Tells books <-> books.taken = [] ∨ ∃ entry ∈ books.log, entry.2.isUncertain = false := by
  have emptied : books.taken = [] <-> books.log = [] := by
    rw [← List.length_eq_zero_iff, ← List.length_eq_zero_iff, closed.length]
  constructor
  next =>
    intro tells
    by_contra neither
    push Not at neither
    have idle := (closed.idle_iff policy books).mpr (fun entry member => by simpa using neither.2 entry member)
    exact neither.1 (tells.idle.mp idle)
  next =>
    intro told
    refine ⟨fun id member => ?_, fun id member => closed.ids.mem_iff.mp member, closed.total policy books, ?_⟩
    next =>
      rw [closed.ids.count_eq]
      exact List.count_eq_one_of_mem closed.distinct member
    next =>
      rw [closed.idle_iff policy books]
      constructor
      next =>
        intro all
        rcases told with none | ⟨entry, member, certain⟩
        next => exact none
        next =>
          rw [all entry member] at certain
          cases certain
      next =>
        intro none entry member
        rw [emptied.mp none] at member
        cases member

/-- A report that is returned accounts for the pass exactly when some row of it came out other than uncertain, or none was
taken; a pass cut short has settled no row twice. -/
theorem reports_account (events : List DrainEvent) :
    (∀ books ∈ (Run.run (DrainRun.next policy) (DrainRun.idle queue) events).returned,
      (Tells books <-> books.taken = [] ∨ ∃ entry ∈ books.log, entry.2.isUncertain = false)) ∧
    ∀ books ∈ (Run.run (DrainRun.next policy) (DrainRun.idle queue) events).cutShort,
      (books.log.map Prod.fst).Nodup ∧ ∀ id ∈ books.log.map Prod.fst, id ∈ books.taken := by
  have accounted := run_accounted policy events (DrainRun.idle queue) (idle_accounted policy queue)
  constructor
  next => exact fun books member => (accounted.returned books member).tells_iff policy books
  next =>
    intro books member
    have part := accounted.cutShort books member
    exact ⟨part.distinct, part.taken⟩

def unknownSend : List DrainEvent :=
  -- A send nobody can say the fate of, alone in its pass.
  [.enqueue ⟨1⟩ (.draft ⟨7⟩) (.send ⟨7⟩) 0 none none,
    .begin ⟨1⟩ 0,
    .runStep ⟨1⟩ false (.uncertain "the connection was lost after the message was sent") none,
    .stop ⟨1⟩]

theorem unknown_send_idle :
    ∃ books ∈ (Run.run (DrainRun.next RetryPolicy.standard) (DrainRun.idle OperationQueue.empty) unknownSend).returned,
      books.taken = [⟨1⟩] ∧ books.report.isIdle = true ∧ ¬ Tells books := by
  refine ⟨{
    taken := [⟨1⟩]
    log := [(⟨1⟩, .stepped (.uncertain "the connection was lost after the message was sent") 0)]
    report := { DrainReport.standard with
      uncertain := [{
        rows := [⟨1⟩]
        target := .draft ⟨7⟩
        opType := "send"
        reason := "the connection was lost after the message was sent" }] } }, by decide, rfl, by decide, ?_⟩
  intro tells
  have taken := tells.idle.mp (by decide)
  cases taken

end Postio

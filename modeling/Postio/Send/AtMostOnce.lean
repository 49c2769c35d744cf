import Postio.Lib.Run
import Postio.Send.SendMachine

set_option autoImplicit false

namespace Postio

namespace SendWorld

variable (accountId : AccountId) (draftId : DraftId) (policy : RetryPolicy)

def Readable (_ : SendWorld) : SendEvent -> Prop
  | .submit (.unreadable true _) => False
  | _ => True

variable (world : SendWorld) (state : DraftState) (job : SendJob) (after : SendWorld) (pass : Pass) (reply : Reply)
    (step : Step) (outcome : Outcome)

def NeverAgain : SendEvent -> Prop
  | .submit _ => ∀ job, world.phase = .marked job -> job.queueing ∉ world.history.unrefused
  | _ => True

def Committed : Prop := state = .sending ∨ state = .sent ∨ state = .unconfirmed

def mayFail : Outcome -> Bool
  | .failed _ | .retry _ _ => true
  | _ => false

def Behind : Prop :=
  ∀ number ∈ world.history.unrefused, ∀ draft, world.draft = some draft -> number < draft.queueing

structure OnceInvariant (world : SendWorld) : Prop where
  known : ∀ number ∈ world.history.unrefused, ∀ draft, world.draft = some draft -> number ≤ draft.queueing
  held : ∀ draft, world.draft = some draft -> draft.queueing ∈ world.history.unrefused -> Committed draft.state
  job : ∀ job, world.phase.job = some job ->
    (∀ number ∈ world.history.unrefused, number < job.queueing) ∧
      ∀ draft, world.draft = some draft -> job.queueing ≤ draft.queueing
  marked : ∀ job, world.phase = .marked job -> ∀ draft, world.draft = some draft ->
    draft.queueing = job.queueing -> Committed draft.state
  answered : ∀ job reply, world.phase = .answered job reply -> reply ≠ .ok ->
    reply.submissionIsIndeterminate = false -> Behind world
  failing : ∀ outcome, world.phase = .decided outcome -> mayFail outcome = true -> Behind world
  taken : ∀ number ∈ world.history.accepted, number ∈ world.history.unrefused
  once : world.history.accepted.Nodup

theorem once_initial (queue : OperationQueue) : OnceInvariant (initial queue) := by
  constructor <;> simp [initial, SendPhase.job]

theorem once_settled (invariant : OnceInvariant world)
    (history : after.history = world.history) (phase : after.phase.job = none)
    (answered : ∀ job reply, after.phase ≠ .answered job reply)
    (failing : ∀ outcome, after.phase = .decided outcome -> mayFail outcome = true -> Behind after)
    (known : ∀ number ∈ world.history.unrefused, ∀ draft, after.draft = some draft -> number ≤ draft.queueing)
    (held : ∀ draft, after.draft = some draft -> draft.queueing ∈ world.history.unrefused -> Committed draft.state) :
    OnceInvariant after :=
  { known := by rw [history]; exact known
    held := by rw [history]; exact held
    job := fun job same => by rw [phase] at same; cases same
    marked := fun job same => by rw [same] at phase; cases phase
    answered := fun job reply same => absurd same (answered job reply)
    failing
    taken := by rw [history]; exact invariant.taken
    once := by rw [history]; exact invariant.once }

theorem held_setState (invariant : OnceInvariant world) (allowed : Committed state ∨ Behind world) :
    (∀ number ∈ world.history.unrefused, ∀ draft, (world.setState state).draft = some draft ->
      number ≤ draft.queueing) ∧
      ∀ draft, (world.setState state).draft = some draft -> draft.queueing ∈ world.history.unrefused ->
        Committed draft.state := by
  -- Only the mark on the draft changed, and not away from a commitment.
  simp only [setState_draft, Option.map_eq_some_iff]
  constructor
  · rintro number member draft ⟨before, there, rfl⟩
    exact invariant.known number member before there
  · rintro draft ⟨before, there, rfl⟩ member
    rcases allowed with committed | behind
    · exact committed
    · have less := behind before.queueing member before there
      omega

theorem behind_of_uncommitted (draft : Draft) (invariant : OnceInvariant world)
    (there : world.draft = some draft) (uncommitted : ¬ Committed draft.state) : Behind world := by
  intro number member other same
  rw [there, Option.some.injEq] at same
  subst same
  have below := invariant.known number member draft there
  rcases Nat.lt_or_eq_of_le below with less | equal
  · exact less
  · subst equal
    exact absurd (invariant.held draft there member) uncommitted

theorem behind_of_job (invariant : OnceInvariant world) (holds : world.phase.job = some job) : Behind world:= by
  obtain ⟨above, below⟩ := invariant.job job holds
  intro number member draft there
  have first := above number member
  have second := below draft there
  omega

theorem once_redraft (draft new : Draft) (invariant : OnceInvariant world)
    (there : world.draft = some draft) (changed : after.draft = some new) (phase : after.phase = world.phase)
    (unrefused : after.history.unrefused = world.history.unrefused)
    (accepted : after.history.accepted = world.history.accepted)
    (ahead : ∀ number ∈ world.history.unrefused, number < new.queueing) (onward : draft.queueing ≤ new.queueing)
    (marked : ∀ job, world.phase = .marked job -> new.queueing ≠ job.queueing) : OnceInvariant after := by
  -- The draft was rewritten, ahead of every unrefused payload.
  have behind : Behind after := by
    intro number member other same
    rw [unrefused] at member
    rw [changed, Option.some.injEq] at same
    subst same
    exact ahead number member
  refine
    { known := fun number member other same => Nat.le_of_lt (behind number member other same)
      held := ?_, job := ?_, marked := ?_
      answered := fun _ _ _ _ _ => behind
      failing := fun _ _ _ => behind
      taken := ?_, once := ?_ }
  · intro other same member
    exact absurd (behind other.queueing member other same) (Nat.lt_irrefl _)
  · rw [phase, unrefused]
    intro job holds
    obtain ⟨above, under⟩ := invariant.job job holds
    refine ⟨above, ?_⟩
    intro other same
    rw [changed, Option.some.injEq] at same
    subst same
    exact Nat.le_trans (under draft there) onward
  · rw [phase]
    intro job holds other same named
    rw [changed, Option.some.injEq] at same
    subst same
    exact absurd named (marked job holds)
  · rw [accepted, unrefused]
    exact invariant.taken
  · rw [accepted]
    exact invariant.once

theorem once_queueSend (now : Instant) (notBefore : Option Instant)
    (invariant : OnceInvariant world) : OnceInvariant (queueSend accountId draftId world now notBefore) := by
  unfold queueSend
  split
  next => exact invariant
  next draft there =>
    refine once_redraft world _ draft ⟨.queued, draft.queueing + 1⟩ invariant there rfl rfl rfl rfl ?_
      (Nat.le_succ _) ?_
    · intro number member
      exact Nat.lt_succ_of_le (invariant.known number member draft there)
    · intro job phase same
      -- A job in hand is of a queueing the draft already had.
      have under := (invariant.job job (by rw [phase]; rfl)).2 draft there
      dsimp only at same
      omega

theorem once_cancelSend (invariant : OnceInvariant world) :
    OnceInvariant (cancelSend draftId world).2 := by
  rcases cancelSend_cases draftId world with ⟨-, same⟩ | ⟨draft, pending, there, queued, -, -, changed⟩
  · rw [same]
    exact invariant
  · have uncommitted : ¬ Committed draft.state := by simp [Committed, queued]
    have behind := behind_of_uncommitted world draft invariant there uncommitted
    rw [changed]
    refine once_redraft world _ draft ⟨.editing, draft.queueing⟩ invariant there rfl rfl rfl rfl ?_ (Nat.le_refl _) ?_
    · intro number member
      exact behind number member draft there
    · intro job phase named
      exact uncommitted (invariant.marked job phase draft there named)

theorem once_begin (now : Instant) (invariant : OnceInvariant world) :
    OnceInvariant (beginPass accountId draftId world now) := by
  obtain ⟨pass, same⟩ := beginPass_cases accountId draftId world now
  rw [same]
  rcases failOrphanedSends_cases draftId world with kept | ⟨healed, queueing, there⟩
  · rw [kept]
    exact
      { known := invariant.known, held := invariant.held, job := invariant.job, marked := invariant.marked
        answered := invariant.answered, failing := invariant.failing, taken := invariant.taken
        once := invariant.once }
  · have uncommitted : ¬ Committed DraftState.queued := by simp [Committed]
    have behind := behind_of_uncommitted world ⟨.queued, queueing⟩ invariant there uncommitted
    have after : (world.setState .failed).draft = some ⟨.failed, queueing⟩ := by simp [there]
    rw [healed]
    refine once_redraft world _ ⟨.queued, queueing⟩ ⟨.failed, queueing⟩ invariant there after rfl rfl rfl ?_
      (Nat.le_refl _) ?_
    · intro number member
      exact behind number member ⟨.queued, queueing⟩ there
    · intro job phase named
      exact uncommitted (invariant.marked job phase ⟨.queued, queueing⟩ there named)

theorem once_between (invariant : OnceInvariant world)
    (draft : after.draft = world.draft) (history : after.history = world.history) (phase : after.phase = .between) :
    OnceInvariant after := by
  refine once_settled world after invariant history (by rw [phase]; rfl) (by simp [phase]) (by simp [phase]) ?_ ?_
  · rw [draft]
    exact invariant.known
  · rw [draft]
    exact invariant.held

theorem once_decided (invariant : OnceInvariant world) (behind : mayFail outcome = true -> Behind world) :
    OnceInvariant { world with phase := .decided outcome } := by
  -- What the drainer decided before any payload went out.
  refine once_settled world _ invariant rfl rfl ?_ ?_ invariant.known invariant.held
  · intro job reply same
    cases same
  · intro other same fails number member
    cases same
    exact behind fails number member

theorem once_marked (invariant : OnceInvariant world)
    (allowed : Committed state ∨ Behind world) (behind : mayFail outcome = true -> Behind world) :
    OnceInvariant { world.setState state with phase := .decided outcome } := by
  obtain ⟨known, held⟩ := held_setState world state invariant allowed
  refine once_settled world _ invariant rfl rfl ?_ ?_ known held
  · intro job reply same
    cases same
  · intro other same fails number member draft there
    cases same
    simp only [setState_draft, Option.map_eq_some_iff] at there
    obtain ⟨before, found, rfl⟩ := there
    exact behind fails number member before found

theorem once_tidy (id : OperationId) (rest : List OperationId)
    (invariant : OnceInvariant world) : OnceInvariant (tidyRow world pass id rest) := by
  unfold tidyRow
  split
  next => exact once_between world _ invariant rfl rfl rfl
  next =>
    exact
      { known := invariant.known, held := invariant.held, job := invariant.job, marked := invariant.marked
        answered := invariant.answered, failing := invariant.failing, taken := invariant.taken
        once := invariant.once }

theorem once_settleStep (rest : List Step) (outcome : Outcome) (cut : Option Nat) (invariant : OnceInvariant world) :
    OnceInvariant (settleStep policy world pass step rest outcome cut).1 := by
  obtain ⟨draft, history, phase⟩ := settleStep_same policy world pass step rest outcome cut
  exact once_between world _ invariant draft history phase

theorem mayFail_of_gaveUp (gave : gaveUp policy world step outcome = true) : mayFail outcome = true := by
  cases outcome <;> simp_all [gaveUp, mayFail]

theorem once_settle (rest : List Step) (outcome : Outcome)
    (cut : Option Nat) (markedFailed : Bool) (decided : world.phase = .decided outcome)
    (invariant : OnceInvariant world) :
    OnceInvariant (settleSend policy world pass step rest outcome cut markedFailed) := by
  have settled := once_settleStep policy world pass step rest outcome cut invariant
  obtain ⟨draft, history, phase⟩ := settleStep_same policy world pass step rest outcome cut
  unfold settleSend
  dsimp only
  split
  next written =>
    simp only [Bool.and_eq_true] at written
    have fails := mayFail_of_gaveUp policy world step outcome written.1.2
    -- A `Send` gives up only where every unrefused payload is of an earlier queueing.
    have behind : Behind (settleStep policy world pass step rest outcome cut).1 := by
      intro number member other there
      rw [history] at member
      rw [draft] at there
      exact invariant.failing outcome decided fails number member other there
    obtain ⟨known, held⟩ := held_setState _ .failed settled (.inr behind)
    refine once_settled _ _ settled rfl (by simp [phase, SendPhase.job]) (by simp [phase]) (by simp [phase]) known held
  next => exact settled

theorem once_carry (impossible : Bool) (reason : String) (invariant : OnceInvariant world) :
    OnceInvariant (carry world impossible reason) := by
  unfold carry
  split
  next draft there =>
    split
    next => exact invariant
    next uncommitted =>
      refine once_decided world _ invariant fun _ => behind_of_uncommitted world draft invariant there ?_
      rintro (sending | sent | unconfirmed)
      · exact uncommitted (.inr (.inl sending))
      · exact uncommitted (.inl sent)
      · exact uncommitted (.inr (.inr unconfirmed))
  next => exact invariant

theorem once_resolve (blocked : Option String) (promoted : Bool)
    (invariant : OnceInvariant world) : OnceInvariant (resolve world blocked promoted) := by
  have calm (outcome : Outcome) (quiet : mayFail outcome = false) :
      OnceInvariant { world with phase := .decided outcome } :=
    once_decided world outcome invariant fun fails => by simp [quiet] at fails
  have refused (draft : Draft) (there : world.draft = some draft) (uncommitted : ¬ Committed draft.state)
      (reason : String) : OnceInvariant { world with phase := .decided (.failed reason) } :=
    once_decided world (.failed reason) invariant fun _ => behind_of_uncommitted world draft invariant there uncommitted
  have fresh (draft : Draft) (there : world.draft = some draft) (uncommitted : ¬ Committed draft.state) :
      OnceInvariant { world with phase := .resolved { queueing := draft.queueing } } := by
    have behind := behind_of_uncommitted world draft invariant there uncommitted
    refine
      { known := invariant.known, held := invariant.held, job := ?_, marked := ?_, answered := ?_, failing := ?_
        taken := invariant.taken, once := invariant.once }
    · intro job holds
      cases holds
      refine ⟨fun number member => behind number member draft there, ?_⟩
      intro other same
      dsimp only at same
      rw [there, Option.some.injEq] at same
      subst same
      exact Nat.le_refl _
    · intro job same
      cases same
    · intro job reply same
      cases same
    · intro outcome same
      cases same
  unfold resolve
  split
  next => exact calm _ rfl
  next draft there =>
    split
    next => exact calm _ rfl
    next =>
      split
      next => exact once_marked world .unconfirmed _ invariant (.inl (.inr (.inr rfl))) (by simp [mayFail])
      next => exact once_between world _ invariant rfl rfl rfl
    next => exact calm _ rfl
    all_goals
      next state =>
        have uncommitted : ¬ Committed draft.state := by simp [Committed, state]
        cases blocked with
        | some reason => exact refused draft there uncommitted reason
        | none => exact fresh draft there uncommitted

theorem once_openSession (failure : Option Outcome)
    (resolved : world.phase = .resolved job) (invariant : OnceInvariant world) :
    OnceInvariant (openSession world job failure) := by
  have holds : world.phase.job = some job := by rw [resolved]; rfl
  have behind := behind_of_job world job invariant holds
  unfold openSession
  split
  next =>
    refine
      { known := invariant.known, held := invariant.held, job := ?_, marked := ?_, answered := ?_, failing := ?_
        taken := invariant.taken, once := invariant.once }
    · intro other same
      cases same
      exact invariant.job job holds
    · intro other same
      cases same
    · intro other reply same
      cases same
    · intro outcome same
      cases same
  next reason delay => exact once_decided world (.retry reason delay) invariant fun _ => behind
  next reason => exact once_decided world (.failed reason) invariant fun _ => behind
  next => exact invariant

theorem once_mark (written : Bool) (opened : world.phase = .opened job)
    (invariant : OnceInvariant world) : OnceInvariant (markSending world job written) := by
  have holds : world.phase.job = some job := by rw [opened]; rfl
  have behind := behind_of_job world job invariant holds
  unfold markSending
  split
  next =>
    obtain ⟨known, held⟩ := held_setState world .sending invariant (.inr behind)
    refine
      { known, held, job := ?_, marked := ?_, answered := ?_, failing := ?_
        taken := invariant.taken, once := invariant.once }
    · intro other same
      cases same
      obtain ⟨above, under⟩ := invariant.job job holds
      refine ⟨above, ?_⟩
      intro draft there
      simp only [setState_draft, Option.map_eq_some_iff] at there
      obtain ⟨before, found, rfl⟩ := there
      exact under before found
    · intro other same draft there _
      simp only [setState_draft, Option.map_eq_some_iff] at there
      obtain ⟨before, found, rfl⟩ := there
      exact .inl rfl
    · intro other reply same
      cases same
    · intro outcome same
      cases same
  next => exact once_decided world _ invariant fun _ => behind

def unrefusedBy : Bool :=
  -- Whether the payload goes on the list of those that met no refusal.
  match reply with
  | .refused _ _ => false
  | _ => reply.begun

theorem submit_unrefused : (submit world job reply).history.unrefused =
      if unrefusedBy reply then job.queueing :: world.history.unrefused else world.history.unrefused := by
  cases reply with
  | ok => rfl
  | refused begun transient => cases begun <;> rfl
  | lost begun accepted => cases begun <;> rfl
  | unreadable begun accepted => cases begun <;> rfl

theorem unrefusedBy_of_accepted (accepted : reply.serverAccepted = true) : unrefusedBy reply = true := by
  cases reply <;> simp_all [Reply.serverAccepted, unrefusedBy, Reply.begun]

theorem not_unrefusedBy (readable : Readable world (.submit reply))
    (failed : reply ≠ .ok) (determined : reply.submissionIsIndeterminate = false) : unrefusedBy reply = false := by
  cases reply with
  | ok => exact absurd rfl failed
  | refused begun transient => rfl
  | lost begun accepted => exact determined
  | unreadable begun accepted =>
    cases begun with
    | true => exact absurd readable id
    | false => rfl

theorem once_submit (marked : world.phase = .marked job)
    (readable : Readable world (.submit reply)) (invariant : OnceInvariant world) :
    OnceInvariant (submit world job reply) := by
  obtain ⟨above, under⟩ := invariant.job job (by rw [marked]; rfl)
  have members (number : Nat) (member : number ∈ (submit world job reply).history.unrefused) :
      number = job.queueing ∨ number ∈ world.history.unrefused := by
    rw [submit_unrefused] at member
    split at member
    · exact List.mem_cons.mp member
    · exact .inr member
  refine { known := ?_, held := ?_, job := ?_, marked := ?_, answered := ?_, failing := ?_, taken := ?_, once := ?_ }
  · intro number member draft there
    rcases members number member with rfl | earlier
    · exact under draft there
    · exact invariant.known number earlier draft there
  · intro draft there member
    rcases members _ member with same | earlier
    · exact invariant.marked job marked draft there same
    · exact invariant.held draft there earlier
  · intro other same
    cases same
  · intro other same
    cases same
  · intro other answer same failed determined number member draft there
    cases same
    -- Only a payload the client knows was refused, or never begun, may be sent again.
    rw [submit_unrefused, not_unrefusedBy world reply readable failed determined] at member
    exact Nat.lt_of_lt_of_le (above number member) (under draft there)
  · intro outcome same
    cases same
  · intro number member
    rw [submit_unrefused]
    dsimp only [submit] at member
    split at member
    next accepted =>
      rw [unrefusedBy_of_accepted reply accepted, if_pos rfl]
      rcases List.mem_cons.mp member with rfl | earlier
      · exact List.mem_cons_self
      · exact List.mem_cons_of_mem _ (invariant.taken number earlier)
    next =>
      have earlier := invariant.taken number member
      split
      · exact List.mem_cons_of_mem _ earlier
      · exact earlier
  · dsimp only [submit]
    split
    next =>
      refine List.nodup_cons.mpr ⟨?_, invariant.once⟩
      intro member
      exact absurd (above job.queueing (invariant.taken job.queueing member)) (Nat.lt_irrefl _)
    next => exact invariant.once

theorem once_record (written : Bool)
    (answered : world.phase = .answered job reply) (invariant : OnceInvariant world) :
    OnceInvariant (record world job reply written) := by
  unfold record
  dsimp only
  split
  next =>
    cases written with
    | false => exact once_settled world _ invariant rfl rfl (by simp) (by simp) invariant.known invariant.held
    | true =>
      obtain ⟨known, held⟩ := held_setState world .sent invariant (.inl (.inr (.inl rfl)))
      exact once_settled world _ invariant rfl rfl (by simp) (by simp) known held
  next failed =>
    split
    next =>
      cases written with
      | false => exact once_decided world _ invariant (by simp [mayFail])
      | true => exact once_marked world .unconfirmed _ invariant (.inl (.inr (.inr rfl))) (by simp [mayFail])
    next determined =>
      have behind := invariant.answered job reply answered failed (by simpa using determined)
      cases written with
      | false => exact once_decided world _ invariant fun _ => behind
      | true => exact once_marked world .queued _ invariant (.inr behind) fun _ => behind

theorem once_confirm (deleted : Bool) (invariant : OnceInvariant world) :
    OnceInvariant { world with draft := if deleted then none else world.draft, phase := .decided .applied } := by
  refine once_settled world _ invariant rfl rfl (by simp) (by simp [mayFail]) ?_ ?_
  · intro number member draft there
    cases deleted with
    | false => exact invariant.known number member draft there
    | true => cases there
  · intro draft there member
    cases deleted with
    | false => exact invariant.held draft there member
    | true => cases there

theorem once_atSend (act : Pass -> Step -> List Step -> SendWorld) (invariant : OnceInvariant world)
    (acts : ∀ pass step rest, OnceInvariant (act pass step rest)) : OnceInvariant (atSend draftId world act) := by
  rcases atSend_cases draftId world act with same | ⟨pass, step, rest, -, -, -, -, same⟩
  · rw [same]
    exact invariant
  · rw [same]
    exact acts pass step rest

theorem once_step (event : SendEvent) (readable : Readable world event)
    (invariant : OnceInvariant world) : OnceInvariant (next accountId draftId policy world event) := by
  unfold next
  split
  next now notBefore => exact once_queueSend accountId draftId world now notBefore invariant
  next => exact once_cancelSend draftId world invariant
  next mailbox now =>
    unfold saveAndSync
    split
    · exact
        { known := invariant.known, held := invariant.held, job := invariant.job, marked := invariant.marked
          answered := invariant.answered, failing := invariant.failing, taken := invariant.taken
          once := invariant.once }
    · exact invariant
  next now =>
    split
    · exact invariant
    · exact once_begin accountId draftId world now invariant
  next =>
    split
    next pass under =>
      split
      · exact invariant
      · exact once_tidy world pass _ _ invariant
    next => exact invariant
  next outcome cut =>
    split
    next pass under =>
      split
      next step rest tidied steps =>
        split
        · exact invariant
        · exact once_settleStep policy world pass step rest outcome cut invariant
      next => exact invariant
    next => exact invariant
  next impossible reason =>
    refine once_atSend draftId world _ invariant fun _ _ _ => ?_
    split
    · exact once_carry world impossible reason invariant
    · exact invariant
  next blocked promoted =>
    refine once_atSend draftId world _ invariant fun _ _ _ => ?_
    split
    · exact once_resolve world blocked promoted invariant
    · exact invariant
  next failure =>
    refine once_atSend draftId world _ invariant fun _ _ _ => ?_
    split
    next job phase => exact once_openSession world job failure phase invariant
    next => exact invariant
  next written =>
    refine once_atSend draftId world _ invariant fun _ _ _ => ?_
    split
    next job phase => exact once_mark world job written phase invariant
    next => exact invariant
  next reply =>
    refine once_atSend draftId world _ invariant fun _ _ _ => ?_
    split
    next job phase => exact once_submit world job reply phase readable invariant
    next => exact invariant
  next written =>
    refine once_atSend draftId world _ invariant fun _ _ _ => ?_
    split
    next job reply phase => exact once_record world job reply written phase invariant
    next => exact invariant
  next deleted =>
    refine once_atSend draftId world _ invariant fun _ _ _ => ?_
    split
    · exact once_confirm world deleted invariant
    · exact invariant
  next cut markedFailed =>
    refine once_atSend draftId world _ invariant fun pass step rest => ?_
    split
    next outcome phase => exact once_settle policy world pass step rest outcome cut markedFailed phase invariant
    next => exact invariant
  next => exact once_between world _ invariant rfl rfl rfl

theorem neverAgain_of_once (event : SendEvent) (invariant : OnceInvariant world) :
    NeverAgain world event := by
  cases event with
  | submit reply =>
    intro job phase member
    have less := (invariant.job job (by rw [phase]; rfl)).1 job.queueing member
    exact absurd less (Nat.lt_irrefl _)
  | _ => trivial

/-- One queueing is accepted at most once, and a payload that met no refusal is not submitted again. -/
theorem send_at_most_once (queue : OperationQueue) (events : List SendEvent)
    (readable : Run.Along (next accountId draftId policy) Readable (initial queue) events) :
    (Run.run (next accountId draftId policy) (initial queue) events).history.accepted.Nodup ∧
      Run.Along (next accountId draftId policy) NeverAgain (initial queue) events := by
  have preserved (world : SendWorld) (event : SendEvent) (invariant : OnceInvariant world)
      (allowed : Readable world event) : OnceInvariant (next accountId draftId policy world event) :=
    once_step accountId draftId policy world event allowed invariant
  have initially := once_initial queue
  constructor
  · exact (Run.run_invariant _ OnceInvariant Readable preserved _ events initially readable).once
  · exact Run.along_invariant _ OnceInvariant Readable NeverAgain preserved
      (fun world event invariant _ => neverAgain_of_once world event invariant) _ events initially readable

def NeverBegunAgain : SendEvent -> Prop
  | .submit _ => ∀ job, world.phase = .marked job -> job.queueing ∉ world.history.begun
  | _ => True

def greylisted : List SendEvent :=
  -- The server answers the whole payload with a 4xx, and the next pass sends it again.
  [.queueSend 0 none, .begin 0, .resolve none true, .openSession none, .mark true, .submit (.refused true true),
    .record true, .settle none true, .stop, .begin 2000, .resolve none true, .openSession none, .mark true,
    .submit .ok]

theorem refused_payload_begun_again :
    ¬ Run.Along (next ⟨1⟩ ⟨3⟩ RetryPolicy.standard) NeverBegunAgain (initial OperationQueue.empty) greylisted := by
  rintro ⟨-, -, -, -, -, -, -, -, -, -, -, -, -, last, -⟩
  exact last ⟨1⟩ (by decide) (by decide)

theorem greylisted_accepted_once :
    (Run.run (next ⟨1⟩ ⟨3⟩ RetryPolicy.standard) (initial OperationQueue.empty) greylisted).history.accepted.Nodup ∧
      Run.Along (next ⟨1⟩ ⟨3⟩ RetryPolicy.standard) NeverAgain (initial OperationQueue.empty) greylisted :=
  send_at_most_once ⟨1⟩ ⟨3⟩ RetryPolicy.standard OperationQueue.empty greylisted (by simp [greylisted, Run.Along, Readable])

end SendWorld

end Postio

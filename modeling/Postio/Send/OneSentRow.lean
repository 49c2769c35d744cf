import Postio.Send.SentRows

set_option autoImplicit false

namespace Postio

namespace FiledWorld

variable (accountId : AccountId) (draftId : DraftId) (policy : RetryPolicy)

theorem isFailed_same (world after : SendWorld) (same : after.draft = world.draft) :
    isFailed after = isFailed world := by
  unfold isFailed
  rw [same]

theorem isFailed_setState (world : SendWorld) (state : DraftState) (other : state ≠ .failed) :
    isFailed (world.setState state) = false := by
  unfold isFailed
  simp only [SendWorld.setState_draft]
  cases world.draft with
  | none => rfl
  | some draft => cases state <;> first | rfl | exact absurd rfl other

theorem isFailed_atSend (world : SendWorld) (act : Pass -> Step -> List Step -> SendWorld) (was : Prop)
    (kept : isFailed world = true -> was)
    (acts : ∀ pass step rest, world.pass = some pass -> pass.steps = step :: rest ->
      isFailed (act pass step rest) = true -> was)
    (failed : isFailed (SendWorld.atSend draftId world act) = true) : was := by
  rcases SendWorld.atSend_cases draftId world act with same | ⟨pass, step, rest, under, -, steps, -, same⟩
  · rw [same] at failed
    exact kept failed
  · rw [same] at failed
    exact acts pass step rest under steps failed

theorem isFailed_next (world : SendWorld) (event : SendEvent)
    (failed : isFailed (world.next accountId draftId policy event) = true) :
    isFailed world = true ∨ marksFailed draftId policy world event = true := by
  -- Nothing but the two writes of `Failed` puts a draft in it.
  cases event with
  | queueSend now notBefore =>
    simp only [SendWorld.next, SendWorld.queueSend] at failed
    split at failed
    next => exact .inl failed
    next => cases failed
  | cancelSend =>
    simp only [SendWorld.next] at failed
    rcases SendWorld.cancelSend_cases draftId world with ⟨-, same⟩ | ⟨draft, pending, -, -, -, -, changed⟩
    · rw [same] at failed
      exact .inl failed
    · rw [changed] at failed
      cases failed
  | saveAndSync mailbox now =>
    simp only [SendWorld.next, SendWorld.saveAndSync] at failed
    split at failed
    next => exact .inl failed
    next => exact .inl failed
  | begin now =>
    simp only [SendWorld.next] at failed
    split at failed
    next => exact .inl failed
    next idle =>
      obtain ⟨pass, same⟩ := SendWorld.beginPass_cases accountId draftId world now
      rw [same] at failed
      have healed : isFailed (SendWorld.failOrphanedSends draftId world) = true := failed
      simp only [SendWorld.failOrphanedSends] at healed
      split at healed
      next queueing draft =>
        split at healed
        next => exact .inl healed
        next orphaned =>
          right
          simp only [marksFailed, idle, draft]
          simpa using orphaned
      next => exact .inl healed
  | tidy =>
    simp only [SendWorld.next] at failed
    split at failed
    next pass under =>
      split at failed
      next => exact .inl failed
      next =>
        simp only [SendWorld.tidyRow] at failed
        split at failed <;> exact .inl failed
    next => exact .inl failed
  | runOther outcome cut =>
    simp only [SendWorld.next] at failed
    split at failed
    next pass under =>
      split at failed
      next step rest tidied steps =>
        split at failed
        next => exact .inl failed
        next =>
          obtain ⟨draft, -, -⟩ := SendWorld.settleStep_same policy world pass step rest outcome cut
          rw [isFailed_same _ _ draft] at failed
          exact .inl failed
      next => exact .inl failed
    next => exact .inl failed
  | carry impossible reason =>
    refine isFailed_atSend draftId world _ _ .inl ?_ failed
    intro pass step rest under steps after
    split at after
    next =>
      simp only [SendWorld.carry] at after
      split at after
      next =>
        split at after <;> exact .inl after
      next => exact .inl after
    next => exact .inl after
  | resolve blocked promoted =>
    refine isFailed_atSend draftId world _ _ .inl ?_ failed
    intro pass step rest under steps after
    split at after
    next =>
      simp only [SendWorld.resolve] at after
      split at after
      next gone => exact .inl after
      next draft there =>
        split at after
        next => exact .inl after
        next =>
          split at after
          next =>
            have never := isFailed_setState world .unconfirmed (by decide)
            exact absurd (after.symm.trans never) (by decide)
          next => exact .inl after
        next => exact .inl after
        all_goals
          split at after <;> exact .inl after
    next => exact .inl after
  | openSession failure =>
    refine isFailed_atSend draftId world _ _ .inl ?_ failed
    intro pass step rest under steps after
    split at after
    next =>
      simp only [SendWorld.openSession] at after
      split at after <;> exact .inl after
    next => exact .inl after
  | mark written =>
    refine isFailed_atSend draftId world _ _ .inl ?_ failed
    intro pass step rest under steps after
    split at after
    next =>
      simp only [SendWorld.markSending] at after
      split at after
      next =>
        have never := isFailed_setState world .sending (by decide)
        exact absurd (after.symm.trans never) (by decide)
      next => exact .inl after
    next => exact .inl after
  | submit reply =>
    refine isFailed_atSend draftId world _ _ .inl ?_ failed
    intro pass step rest under steps after
    split at after <;> exact .inl after
  | record written =>
    refine isFailed_atSend draftId world _ _ .inl ?_ failed
    intro pass step rest under steps after
    -- None of the marks that follow an answer is `Failed`.
    have kept (state : DraftState) (other : state ≠ .failed)
        (failing : isFailed (if written then world.setState state else world) = true) : isFailed world = true := by
      cases written with
      | false => exact failing
      | true => exact absurd (failing.symm.trans (isFailed_setState world state other)) (by decide)
    split at after
    next job reply phase =>
      simp only [SendWorld.record] at after
      split at after
      next => exact .inl (kept .sent (by decide) after)
      next =>
        split at after
        next => exact .inl (kept .unconfirmed (by decide) after)
        next => exact .inl (kept .queued (by decide) after)
    next => exact .inl after
  | confirm deleted =>
    refine isFailed_atSend draftId world _ _ .inl ?_ failed
    intro pass step rest under steps after
    split at after
    next =>
      cases deleted with
      | false => exact .inl after
      | true => cases after
    next => exact .inl after
  | settle cut markedFailed =>
    refine isFailed_atSend draftId world _ _ .inl ?_ failed
    intro pass step rest under steps after
    split at after
    next outcome phase =>
      obtain ⟨draft, -, -⟩ := SendWorld.settleStep_same policy world pass step rest outcome cut
      simp only [SendWorld.settleSend] at after
      split at after
      next written =>
        simp only [Bool.and_eq_true] at written
        obtain ⟨⟨all, gave⟩, marked⟩ := written
        cases cut with
        | none =>
          right
          subst marked
          simp only [marksFailed, phase, under, steps]
          exact gave
        | some number => cases all
      next =>
        rw [isFailed_same _ _ draft] at after
        exact .inl after
    next => exact .inl after
  | stop => exact .inl failed

theorem atSend_phase (world : SendWorld) (act : Pass -> Step -> List Step -> SendWorld) (was : Prop)
    (kept : world.phase = .between -> was) (acts : ∀ pass step rest, (act pass step rest).phase = .between -> was)
    (between : (SendWorld.atSend draftId world act).phase = .between) : was := by
  rcases SendWorld.atSend_cases draftId world act with same | ⟨pass, step, rest, -, -, -, -, same⟩
  · rw [same] at between
    exact kept between
  · rw [same] at between
    exact acts pass step rest between

theorem between_next (world : SendWorld) (event : SendEvent)
    (between : (world.next accountId draftId policy event).phase = .between) :
    world.phase = .between ∨ endsAttempt world event = true := by
  -- An attempt is over only by being settled or cut short.
  cases event with
  | queueSend now notBefore =>
    simp only [SendWorld.next, SendWorld.queueSend] at between
    split at between <;> exact .inl between
  | cancelSend =>
    simp only [SendWorld.next] at between
    rcases SendWorld.cancelSend_cases draftId world with ⟨-, same⟩ | ⟨draft, pending, -, -, -, -, changed⟩
    · rw [same] at between
      exact .inl between
    · rw [changed] at between
      exact .inl between
  | saveAndSync mailbox now =>
    simp only [SendWorld.next, SendWorld.saveAndSync] at between
    split at between <;> exact .inl between
  | begin now =>
    simp only [SendWorld.next] at between
    split at between
    next => exact .inl between
    next =>
      obtain ⟨pass, same⟩ := SendWorld.beginPass_cases accountId draftId world now
      rw [same] at between
      rcases SendWorld.failOrphanedSends_cases draftId world with kept | ⟨healed, -⟩
      · rw [kept] at between
        exact .inl between
      · rw [healed] at between
        exact .inl between
  | tidy => exact .inr rfl
  | runOther outcome cut => exact .inr rfl
  | stop => exact .inr rfl
  | settle cut markedFailed =>
    refine atSend_phase draftId world _ _ .inl ?_ between
    intro pass step rest after
    split at after
    next outcome phase =>
      right
      simp only [endsAttempt, phase]
    next => exact .inl after
  | carry impossible reason =>
    refine atSend_phase draftId world _ _ .inl ?_ between
    intro pass step rest after
    split at after
    next phase => exact .inl phase
    next => exact .inl after
  | resolve blocked promoted =>
    refine atSend_phase draftId world _ _ .inl ?_ between
    intro pass step rest after
    split at after
    next phase => exact .inl phase
    next => exact .inl after
  | openSession failure =>
    refine atSend_phase draftId world _ _ .inl ?_ between
    intro pass step rest after
    split at after
    next =>
      simp only [SendWorld.openSession] at after
      split at after
      next => cases after
      next => cases after
      next => cases after
      next => exact .inl after
    next => exact .inl after
  | mark written =>
    refine atSend_phase draftId world _ _ .inl ?_ between
    intro pass step rest after
    split at after
    next =>
      simp only [SendWorld.markSending] at after
      split at after <;> cases after
    next => exact .inl after
  | submit reply =>
    refine atSend_phase draftId world _ _ .inl ?_ between
    intro pass step rest after
    split at after
    next => cases after
    next => exact .inl after
  | record written =>
    refine atSend_phase draftId world _ _ .inl ?_ between
    intro pass step rest after
    split at after
    next =>
      simp only [SendWorld.record] at after
      split at after
      next => cases after
      next =>
        split at after <;> cases after
    next => exact .inl after
  | confirm deleted =>
    refine atSend_phase draftId world _ _ .inl ?_ between
    intro pass step rest after
    split at after
    next => cases after
    next => exact .inl after

theorem accepted_next (world : SendWorld) (event : SendEvent)
    (never : (world.next accountId draftId policy event).history.accepted = []) : world.history.accepted = [] := by
  -- What the server once took stays on record.
  have atSend (act : Pass -> Step -> List Step -> SendWorld)
      (acts : ∀ pass step rest, (act pass step rest).history = world.history)
      (after : (SendWorld.atSend draftId world act).history.accepted = []) : world.history.accepted = [] := by
    rcases SendWorld.atSend_cases draftId world act with same | ⟨pass, step, rest, -, -, -, -, same⟩
    · rwa [same] at after
    · rwa [same, acts] at after
  cases event with
  | queueSend now notBefore =>
    simp only [SendWorld.next, SendWorld.queueSend] at never
    split at never <;> exact never
  | cancelSend =>
    simp only [SendWorld.next] at never
    rcases SendWorld.cancelSend_cases draftId world with ⟨-, same⟩ | ⟨draft, pending, -, -, -, -, changed⟩
    · rwa [same] at never
    · rwa [changed] at never
  | saveAndSync mailbox now =>
    simp only [SendWorld.next, SendWorld.saveAndSync] at never
    split at never <;> exact never
  | begin now =>
    simp only [SendWorld.next] at never
    split at never
    next => exact never
    next =>
      obtain ⟨pass, same⟩ := SendWorld.beginPass_cases accountId draftId world now
      rw [same] at never
      rcases SendWorld.failOrphanedSends_cases draftId world with kept | ⟨healed, -⟩
      · rwa [kept] at never
      · rwa [healed] at never
  | tidy =>
    simp only [SendWorld.next] at never
    split at never
    next =>
      split at never
      next => exact never
      next =>
        simp only [SendWorld.tidyRow] at never
        split at never <;> exact never
    next => exact never
  | runOther outcome cut =>
    simp only [SendWorld.next] at never
    split at never
    next pass under =>
      split at never
      next step rest tidied steps =>
        split at never
        next => exact never
        next => rwa [(SendWorld.settleStep_same policy world pass step rest outcome cut).2.1] at never
      next => exact never
    next => exact never
  | stop => exact never
  | carry impossible reason =>
    refine atSend _ (fun pass step rest => ?_) never
    split
    next =>
      simp only [SendWorld.carry]
      split
      next =>
        split <;> rfl
      next => rfl
    next => rfl
  | resolve blocked promoted =>
    refine atSend _ (fun pass step rest => ?_) never
    split
    next =>
      simp only [SendWorld.resolve]
      split
      next => rfl
      next =>
        split
        next => rfl
        next =>
          split <;> rfl
        next => rfl
        all_goals
          split <;> rfl
    next => rfl
  | openSession failure =>
    refine atSend _ (fun pass step rest => ?_) never
    split
    next =>
      simp only [SendWorld.openSession]
      split <;> rfl
    next => rfl
  | mark written =>
    refine atSend _ (fun pass step rest => ?_) never
    split
    next =>
      simp only [SendWorld.markSending]
      split <;> rfl
    next => rfl
  | submit reply =>
    rcases SendWorld.atSend_cases draftId world _ with same | ⟨pass, step, rest, -, -, -, -, same⟩
    · exact (congrArg (fun after => after.history.accepted) same).symm.trans never
    · have after := (congrArg (fun after => after.history.accepted) same).symm.trans never
      split at after
      next =>
        dsimp only [SendWorld.submit] at after
        split at after
        next => cases after
        next => exact after
      next => exact after
  | record written =>
    refine atSend _ (fun pass step rest => ?_) never
    split
    next =>
      simp only [SendWorld.record]
      split
      next => cases written <;> rfl
      next =>
        split <;> cases written <;> rfl
    next => rfl
  | confirm deleted =>
    refine atSend _ (fun pass step rest => ?_) never
    split <;> rfl
  | settle cut markedFailed =>
    refine atSend _ (fun pass step rest => ?_) never
    split
    next outcome phase =>
      have kept := (SendWorld.settleStep_same policy world pass step rest outcome cut).2.1
      simp only [SendWorld.settleSend]
      split
      next => exact kept
      next => exact kept
    next => rfl

/-- While every earlier attempt took its row back, the only row is that of the attempt in hand. -/
structure Filed (world : FiledWorld) : Prop where
  withdrawn : world.Withdrawn -> world.rows = world.current.toList
  left : ¬ world.Withdrawn -> world.current = none ∧ world.rows.length ≤ 1
  failed : world.EndedFailed -> world.rows = []
  under : world.filing ≠ none -> world.send.phase ≠ .between

theorem filed_initial (queue : OperationQueue) : Filed (initial queue) :=
  { withdrawn := fun _ => rfl
    left := fun not => absurd (fun _ member => absurd member List.not_mem_nil) not
    failed := fun _ => rfl
    under := fun filing => absurd rfl filing }

variable (world : FiledWorld)

theorem Filed.one (filed : Filed world) : world.rows.length ≤ 1 := by
  by_cases withdrawn : world.Withdrawn
  · rw [filed.withdrawn withdrawn]
    cases world.current <;> simp
  · exact (filed.left withdrawn).2

theorem filed_create (filed : Filed world) (withdrawn : world.Withdrawn)
    (first : world.current = none) (phase : world.send.phase ≠ .between) : Filed world.create := by
  have rows : world.rows = [] := by rw [filed.withdrawn withdrawn, first]; rfl
  exact
    { withdrawn := fun _ => by simp [create, current, rows]
      left := fun not => absurd withdrawn not
      failed := fun ended => nomatch ended.1
      under := fun _ => phase }

theorem filed_file (created : Bool) (clean : created = true -> world.Withdrawn)
    (fresh : world.filing = none) (phase : world.send.phase ≠ .between) (filed : Filed world) :
    Filed (fileSentLocally world created) := by
  have first : world.current = none := by simp [current, fresh]
  cases created with
  | true => exact filed_create world filed (clean rfl) first phase
  | false =>
    exact
      { withdrawn := fun withdrawn => by
          have rows := filed.withdrawn withdrawn
          rw [first] at rows
          exact rows
        left := fun not => ⟨rfl, (filed.left not).2⟩
        failed := fun ended => nomatch ended.1
        under := fun _ => phase }

theorem filed_unfile (row : MessageId) (deleted : Bool) (holds : world.current = some row)
    (phase : world.send.phase ≠ .between) (filed : Filed world) : Filed (unfileSentCopy world row deleted) := by
  -- A row in hand means that every attempt before this one took its own back.
  have withdrawn : world.Withdrawn := by
    by_contra not
    rw [(filed.left not).1] at holds
    cases holds
  have rows : world.rows = [row] := by rw [filed.withdrawn withdrawn, holds]; rfl
  cases deleted with
  | true =>
    exact
      { withdrawn := fun _ => by simp [unfileSentCopy, current, rows]
        left := fun not => (not (List.forall_mem_cons.mpr ⟨rfl, withdrawn⟩)).elim
        failed := fun ended => nomatch ended.1
        under := fun _ => phase }
  | false =>
    exact
      { withdrawn := fun again => nomatch again (.left world.send.phase) List.mem_cons_self
        left := fun _ => ⟨rfl, by simp [unfileSentCopy, rows]⟩
        failed := fun ended => nomatch ended.1
        under := fun _ => phase }

theorem filed_send (send : SendWorld) (filed : Filed world)
    (failing : isFailed send = true -> send.history.accepted = [] -> world.filing = none -> world.rows = [])
    (under : send.phase ≠ .between) : Filed { world with send } :=
  { withdrawn := filed.withdrawn
    left := filed.left
    failed := fun ended => failing ended.2.1 ended.2.2 ended.1
    under := fun _ => under }

theorem rows_of_failed (event : SendEvent) (filed : Filed world) (clean : Clean draftId policy world (.step event))
    (closes : world.filing = none ∨ endsAttempt world.send event = true)
    (failed : isFailed (world.send.next accountId draftId policy event) = true)
    (never : (world.send.next accountId draftId policy event).history.accepted = []) : world.rows = [] := by
  -- A draft is found failed after a step only where the condition answered for its rows, or where it was failed with no
  -- attempt under way.
  have before := accepted_next accountId draftId policy world.send event never
  have answered (met : (marksFailed draftId policy world.send event ||
      (isFailed world.send && endsAttempt world.send event)) = true) : world.rows = [] := by
    obtain ⟨withdrawn, first⟩ := clean met before
    rw [filed.withdrawn withdrawn, first]
    rfl
  rcases isFailed_next accountId draftId policy world.send event failed with was | marks
  · rcases closes with idle | ends
    · exact filed.failed ⟨idle, was, before⟩
    · exact answered (by rw [was, ends]; simp)
  · exact answered (by rw [marks]; rfl)

theorem filed_leave (event : SendEvent) (filed : Filed world) (clean : Clean draftId policy world (.step event)) :
    Filed (leave { world with send := world.send.next accountId draftId policy event } world.send.phase) := by
  unfold leave
  split
  next between =>
    have closes : world.filing = none ∨ endsAttempt world.send event = true := by
      rcases between_next accountId draftId policy world.send event between with idle | ends
      · by_cases fresh : world.filing = none
        · exact .inl fresh
        · exact absurd idle (filed.under fresh)
      · exact .inr ends
    have failing (failed : isFailed (world.send.next accountId draftId policy event) = true)
        (never : (world.send.next accountId draftId policy event).history.accepted = []) : world.rows = [] :=
      rows_of_failed accountId draftId policy world event filed clean closes failed never
    have one := filed.one
    cases holds : world.current with
    | none =>
      have same : (FiledWorld.current { world with send := world.send.next accountId draftId policy event }) = none :=
        holds
      simp only [same, Option.isSome_none, Bool.false_eq_true, if_false]
      exact
        { withdrawn := fun withdrawn => by
            have rows := filed.withdrawn withdrawn
            rw [holds] at rows
            exact rows
          left := fun not => ⟨rfl, (filed.left not).2⟩
          failed := fun ended => failing ended.2.1 ended.2.2
          under := fun filing => absurd rfl filing }
    | some row =>
      have same : (FiledWorld.current { world with send := world.send.next accountId draftId policy event }) =
          some row := holds
      simp only [same, Option.isSome_some, if_true]
      exact
        { withdrawn := fun again => nomatch again (.left world.send.phase) List.mem_cons_self
          left := fun _ => ⟨rfl, one⟩
          failed := fun ended => failing ended.2.1 ended.2.2
          under := fun filing => absurd rfl filing }
  next inside =>
    refine filed_send world _ filed ?_ inside
    intro failed never fresh
    exact rows_of_failed accountId draftId policy world event filed clean (.inl fresh) failed never

theorem filed_confirm (job : SendJob) (created deleted : Bool)
    (phase : world.send.phase = .delivered job) (clean : Clean draftId policy world (.confirm created deleted))
    (filed : Filed world) :
    Filed
      { confirmSentCopy world created with
        send := world.send.next accountId draftId policy (.confirm deleted) } := by
  have inside : world.send.phase ≠ .between := by rw [phase]; nofun
  have still : (world.send.next accountId draftId policy (.confirm deleted)).phase ≠ .between := by
    intro between
    rcases between_next accountId draftId policy world.send (.confirm deleted) between with idle | ends
    · exact inside idle
    · cases ends
  have copied : Filed (confirmSentCopy world created) := by
    unfold confirmSentCopy
    split
    next creates =>
      simp only [Bool.and_eq_true, Option.isNone_iff_eq_none] at creates
      exact filed_create world filed (clean creates.1 creates.2) creates.2 inside
    next => exact filed
  refine filed_send (confirmSentCopy world created) _ copied ?_ still
  intro failed never fresh
  refine copied.failed ⟨fresh, ?_, ?_⟩
  · have sends : (confirmSentCopy world created).send = world.send := by
      unfold confirmSentCopy
      split <;> rfl
    rw [sends]
    rcases isFailed_next accountId draftId policy world.send (.confirm deleted) failed with was | marks
    · exact was
    · cases marks
  · have sends : (confirmSentCopy world created).send = world.send := by
      unfold confirmSentCopy
      split <;> rfl
    rw [sends]
    exact accepted_next accountId draftId policy world.send (.confirm deleted) never

theorem filed_next (event : FiledEvent) (filed : Filed world)
    (clean : Clean draftId policy world event) : Filed (next accountId draftId policy world event) := by
  cases event with
  | file created =>
    simp only [next]
    split
    next job phase fresh => exact filed_file world created clean fresh (by rw [phase]; nofun) filed
    next => exact filed
  | unfile deleted =>
    simp only [next]
    split
    next row failing holds =>
      refine filed_unfile world row deleted holds ?_ filed
      intro between
      rw [between] at failing
      cases failing
    next => exact filed
  | confirm created deleted =>
    simp only [next]
    split
    next job phase => exact filed_confirm accountId draftId policy world job created deleted phase clean filed
    next => exact filed
  | step event =>
    simp only [next]
    split
    next => exact filed
    next => exact filed_leave accountId draftId policy world event filed clean

/-- While each attempt that filed a row and did not deliver takes it back, one row at most stands for the draft, and
none once the draft was given up on. -/
theorem one_sent_row (queue : OperationQueue) (events : List FiledEvent)
    (clean : Run.Along (next accountId draftId policy) (Clean draftId policy) (initial queue) events) :
    OneSentRow (Run.run (next accountId draftId policy) (initial queue) events) ∧
      Run.Along (next accountId draftId policy)
        (fun world event => OneSentRow (next accountId draftId policy world event)) (initial queue) events := by
  have initially := filed_initial queue
  have preserved (world : FiledWorld) (event : FiledEvent) (filed : Filed world)
      (here : Clean draftId policy world event) : Filed (next accountId draftId policy world event) :=
    filed_next accountId draftId policy world event filed here
  have last := Run.run_invariant _ Filed (Clean draftId policy) preserved _ events initially clean
  constructor
  · exact ⟨last.one, last.failed⟩
  · refine Run.along_invariant _ Filed (Clean draftId policy) _ preserved ?_ _ events initially clean
    intro world event filed here
    have after := preserved world event filed here
    exact ⟨after.one, after.failed⟩

def refusedThenTaken : List FiledEvent :=
  -- Refused for good and taken back; the user sends the draft again, and the server takes it.
  [.step (.queueSend 0 none), .step (.begin 0), .step (.resolve none true), .file true, .step (.openSession none),
    .step (.mark true), .step (.submit (.refused true false)), .step (.record true), .unfile true,
    .step (.settle none true), .step .stop, .step (.queueSend 5 none), .step (.begin 5), .step (.resolve none true),
    .file true, .step (.openSession none), .step (.mark true), .step (.submit .ok), .step (.record true),
    .confirm true true, .step (.settle none false)]

instance (world : FiledWorld) : Decidable world.Withdrawn :=
  inferInstanceAs (Decidable (∀ ended ∈ world.ended, ended = .unfiled))

instance (world : FiledWorld) : (event : FiledEvent) -> Decidable (Clean draftId policy world event)
  | .file created => inferInstanceAs (Decidable (created = true -> world.Withdrawn))
  | .unfile _ => isTrue trivial
  | .confirm created _ => inferInstanceAs (Decidable (created = true -> world.current = none -> world.Withdrawn))
  | .step event =>
    inferInstanceAs (Decidable
      (marksFailed draftId policy world.send event || (isFailed world.send && endsAttempt world.send event) ->
        world.send.history.accepted = [] -> world.Withdrawn ∧ world.current = none))

theorem refusedThenTaken_one_row :
    OneSentRow (Run.run (next ⟨1⟩ ⟨3⟩ RetryPolicy.standard) (initial OperationQueue.empty) refusedThenTaken) ∧
      Run.Along (next ⟨1⟩ ⟨3⟩ RetryPolicy.standard)
        (fun world event => OneSentRow (next ⟨1⟩ ⟨3⟩ RetryPolicy.standard world event))
        (initial OperationQueue.empty) refusedThenTaken :=
  one_sent_row ⟨1⟩ ⟨3⟩ RetryPolicy.standard OperationQueue.empty refusedThenTaken (by decide)

def refusedForNow : List FiledEvent :=
  -- Refused for now, and tried again a pass later.
  [.step (.queueSend 0 none), .step (.begin 0), .step (.resolve none true), .file true, .step (.openSession none),
    .step (.mark true), .step (.submit (.refused true true)), .step (.record true), .step (.settle none true),
    .step .stop, .step (.begin 2000), .step (.resolve none true), .file true]

theorem second_row_for_one_draft :
    ¬ OneSentRow (Run.run (next ⟨1⟩ ⟨3⟩ RetryPolicy.standard) (initial OperationQueue.empty) refusedForNow) := by
  rintro ⟨one, -⟩
  exact absurd one (by decide)

end FiledWorld

end Postio

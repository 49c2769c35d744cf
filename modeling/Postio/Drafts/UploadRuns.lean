import Postio.Drafts.UploadKeeps

set_option autoImplicit false

namespace Postio.Drafts.World

variable (buildDraft : DraftId -> Text -> Raw)

/-! ### What is appended again -/

def settlesDone (outcome : Outcome) : Prop := ∀ exhausted, settledState exhausted outcome = .done

def Past : Stage -> OperationId -> Prop
  | .removing rows (.replaced _) _ _, operation => operation ∈ rows
  | .settling rows outcome, operation => operation ∈ rows ∧ settlesDone outcome
  | .removing _ (.discarded _) _ _, _ | .idle, _ | .appending _ _, _ | .recording _ _ _, _ => False

/-- An operation that was recorded is done, or about to be, unless a pass that had it in hand was cut short. -/
structure Spent (world : World) : Prop where
  settled : ∀ operation raw, (operation, raw) ∈ world.uploaded ->
    operation ∈ world.stopped ∨ Past world.stage operation ∨
      ∀ row ∈ world.queue.rows, row.id = operation -> row.state = .done
  issued : ∀ operation raw, (operation, raw) ∈ world.uploaded -> operation.get < world.queue.nextId
  inHand : ∀ operation ∈ World.inHand world.stage, operation.get < world.queue.nextId
  again : ∀ operation ∈ World.inHand world.stage, ∀ raw, (operation, raw) ∈ world.uploaded ->
    operation ∈ world.stopped ∨ Past world.stage operation

variable (world before after : World) (rows : List OperationId)

theorem spent_queue (spent : Spent before) (uploaded : after.uploaded = before.uploaded)
    (stopped : after.stopped = before.stopped) (stage : after.stage = before.stage)
    (issued : before.queue.nextId ≤ after.queue.nextId)
    (rows : ∀ row ∈ after.queue.rows, before.queue.nextId ≤ row.id.get ∨ ∃ old ∈ before.queue.rows, old.id = row.id ∧
      (old.state = .done -> row.state = .done)) : Spent after where
  settled := by
    intro operation raw recorded
    rw [uploaded] at recorded
    rw [stopped, stage]
    rcases spent.settled operation raw recorded with cut | past | done
    next => exact .inl cut
    next => exact .inr (.inl past)
    next =>
      refine .inr (.inr ?_)
      intro row there same
      rcases rows row there with new | ⟨old, held, named, kept⟩
      next =>
        have below := spent.issued operation raw recorded
        rw [← same] at below
        exact absurd below (Nat.not_lt.mpr new)
      next => exact kept (done old held (named.trans same))
  issued := by
    intro operation raw recorded
    rw [uploaded] at recorded
    exact Nat.lt_of_lt_of_le (spent.issued operation raw recorded) issued
  inHand := by
    intro operation there
    rw [stage] at there
    exact Nat.lt_of_lt_of_le (spent.inHand operation there) issued
  again := by
    intro operation there raw recorded
    rw [stage] at there
    rw [uploaded] at recorded
    rw [stopped, stage]
    exact spent.again operation there raw recorded

theorem spent_enqueue (work : Work) (spent : Spent world) : Spent (world.enqueue work) := by
  apply spent_queue world (world.enqueue work) spent rfl rfl rfl (Nat.le_succ _)
  intro row there
  rcases mem_enqueue world work row there with before | fresh
  next => exact .inr ⟨row, before, rfl, id⟩
  next =>
    rw [fresh]
    exact .inl (Nat.le_refl _)

theorem spent_stage (spent : Spent before) (uploaded : after.uploaded = before.uploaded)
    (stopped : after.stopped = before.stopped) (queue : after.queue = before.queue)
    (hands : ∀ operation ∈ inHand after.stage, operation ∈ inHand before.stage)
    (past : ∀ operation, Past before.stage operation -> Past after.stage operation) : Spent after where
  settled := by
    intro operation raw recorded
    rw [uploaded] at recorded
    rw [stopped, queue]
    rcases spent.settled operation raw recorded with cut | there | done
    next => exact .inl cut
    next => exact .inr (.inl (past operation there))
    next => exact .inr (.inr done)
  issued := by
    intro operation raw recorded
    rw [uploaded] at recorded
    rw [queue]
    exact spent.issued operation raw recorded
  inHand := by
    intro operation there
    rw [queue]
    exact spent.inHand operation (hands operation there)
  again := by
    intro operation there raw recorded
    rw [uploaded] at recorded
    rw [stopped]
    rcases spent.again operation (hands operation there) raw recorded with cut | held
    next => exact .inl cut
    next => exact .inr (past operation held)

theorem spent_same (spent : Spent before) (uploaded : after.uploaded = before.uploaded)
    (stopped : after.stopped = before.stopped) (queue : after.queue = before.queue) (stage : after.stage = before.stage) :
    Spent after := by
  apply spent_queue before after spent uploaded stopped stage (Nat.le_of_eq (congrArg Table.nextId queue).symm)
  intro row there
  rw [queue] at there
  exact .inr ⟨row, there, rfl, id⟩

theorem spent_take (hindrance : Option Hindrance) (spent : Spent world) :
    Spent (world.take buildDraft rows hindrance) := by
  unfold take
  split
  next head rest idle =>
    split
    next => exact spent
    next row found =>
      split
      next pending =>
        obtain ⟨queue, same, nextId, kept⟩ := inFlight_queue (head :: rest) world
        rw [same]
        -- an operation that is done is not pending, and is not taken
        have waiting : ∀ operation ∈ head :: rest, ∃ row ∈ world.queue.rows, row.id = operation ∧ row.state = .pending := by
          intro operation there
          have holds := List.all_eq_true.mp pending operation there
          unfold isPending at holds
          obtain ⟨row, held, fits⟩ := (Option.any_eq_true _ _).mp holds
          obtain ⟨member, named⟩ := (world.queue.get_eq_some operation.get row).mp held
          simp only [Bool.and_eq_true, decide_eq_true_eq] at fits
          exact ⟨row, member, OperationId.get_injective named, fits.1⟩
        have cut : ∀ operation ∈ head :: rest, ∀ raw, (operation, raw) ∈ world.uploaded -> operation ∈ world.stopped := by
          intro operation there raw recorded
          obtain ⟨row, member, named, waits⟩ := waiting operation there
          rcases spent.settled operation raw recorded with stopped | past | done
          next => exact stopped
          next =>
            rw [idle] at past
            exact past.elim
          next =>
            rw [done row member named] at waits
            cases waits
        have settled : ∀ operation raw, (operation, raw) ∈ world.uploaded ->
            operation ∈ world.stopped ∨ ∀ row ∈ queue.rows, row.id = operation -> row.state = .done := by
          intro operation raw recorded
          by_cases taken : operation ∈ head :: rest
          next => exact .inl (cut operation taken raw recorded)
          next =>
            rcases spent.settled operation raw recorded with stopped | past | done
            next => exact .inl stopped
            next =>
              rw [idle] at past
              exact past.elim
            next =>
              refine .inr ?_
              intro row there named
              obtain ⟨old, before, id, -, state | ⟨-, among⟩⟩ := kept row there
              next => exact state.trans (done old before (id.trans named))
              next => exact absurd (named ▸ among) taken
        have issued : ∀ operation ∈ head :: rest, operation.get < queue.nextId := by
          intro operation there
          obtain ⟨row, member, named, -⟩ := waiting operation there
          rw [nextId, ← named]
          exact world.queue.issued row member
        have goes : ∀ stage, inHand stage = head :: rest -> Spent { world with queue, stage } := by
          intro stage hand
          constructor
          next =>
            intro operation raw recorded
            rcases settled operation raw recorded with stopped | done
            next => exact .inl stopped
            next => exact .inr (.inr done)
          next =>
            intro operation raw recorded
            change _ < queue.nextId
            rw [nextId]
            exact spent.issued operation raw recorded
          next =>
            intro operation there
            exact issued operation (hand ▸ there)
          next =>
            intro operation there raw recorded
            exact .inl (cut operation (hand ▸ there) raw recorded)
        split
        next => exact goes _ rfl
        next => exact goes _ rfl
        next =>
          split
          next => exact goes _ rfl
          next => exact goes _ rfl
      next => exact spent
  next => exact spent

theorem spent_append (answer : AppendAnswer) (spent : Spent world) : Spent (world.append answer) := by
  unfold append
  split
  next rows job appending =>
    have hand : inHand world.stage = rows := by rw [appending]; rfl
    have none : ∀ operation, ¬ Past world.stage operation := by
      intro operation past
      rw [appending] at past
      exact past
    split
    next =>
      refine spent_stage world _ spent rfl rfl rfl ?_ ?_
      next => exact fun operation there => hand ▸ there
      next => exact fun operation past => absurd past (none operation)
    next =>
      refine spent_stage world _ spent rfl rfl rfl ?_ ?_
      next => exact fun operation there => hand ▸ there
      next => exact fun operation past => absurd past (none operation)
    next landed error =>
      cases landed with
      | true =>
        refine spent_stage world _ spent rfl rfl rfl ?_ ?_
        next => exact fun operation there => hand ▸ there
        next => exact fun operation past => absurd past (none operation)
      | false =>
        refine spent_stage world _ spent rfl rfl rfl ?_ ?_
        next => exact fun operation there => hand ▸ there
        next => exact fun operation past => absurd past (none operation)
  next => exact spent

theorem spent_located (job : SaveJob) (location : Option RemoteId)
    (stage : Stage) (resync : Bool) (spent : Spent world) (recording : world.stage = .recording rows job location)
    (hand : inHand stage = rows) (past : ∀ operation ∈ rows, Past stage operation) :
    Spent { world.located rows job location with stage, resync } := by
  -- What is recorded is on its way to being done.
  have held : ∀ operation ∈ rows, operation.get < world.queue.nextId := by
    intro operation there
    apply spent.inHand operation
    rw [recording]
    exact there
  have recorded : ∀ operation raw, (operation, raw) ∈ (world.located rows job location).uploaded ->
      operation ∈ rows ∨ (operation, raw) ∈ world.uploaded := by
    intro operation raw there
    rcases List.mem_append.mp there with now | before
    next =>
      obtain ⟨other, among, same⟩ := List.mem_map.mp now
      cases same
      exact .inl among
    next => exact .inr before
  constructor
  next =>
    intro operation raw there
    rcases recorded operation raw there with among | before
    next => exact .inr (.inl (past operation among))
    next =>
      rcases spent.settled operation raw before with cut | was | done
      next => exact .inl cut
      next =>
        rw [recording] at was
        exact was.elim
      next => exact .inr (.inr done)
  next =>
    intro operation raw there
    rcases recorded operation raw there with among | before
    next => exact held operation among
    next => exact spent.issued operation raw before
  next => exact fun operation there => held operation (hand ▸ there)
  next => exact fun operation there _ _ => .inr (past operation (hand ▸ there))

theorem settlesDone_applied : settlesDone .applied := fun _ => rfl

theorem settlesDone_wentAway : settlesDone wentAway := fun _ => rfl

theorem spent_record (answer : RecordAnswer) (spent : Spent world) : Spent (world.record answer) := by
  unfold record
  split
  next rows job location recording =>
    have hand : inHand world.stage = rows := by rw [recording]; rfl
    have away : Spent { world with stage := .settling rows wentAway, resync := true } := by
      refine spent_stage world _ spent rfl rfl rfl ?_ ?_
      next => exact fun operation there => hand ▸ there
      next =>
        intro operation past
        rw [recording] at past
        exact past.elim
    split
    next => exact away
    next => exact away
    next =>
      exact spent_located world rows job location _ true spent recording rfl
        (fun operation there => ⟨there, settlesDone_wentAway⟩)
    next =>
      cases job.previous with
      | none =>
        exact spent_located world rows job location _ world.resync spent recording rfl
          (fun operation there => ⟨there, settlesDone_applied⟩)
      | some previous =>
        exact spent_located world rows job location _ world.resync spent recording rfl (fun operation there => there)
  next => exact spent

theorem spent_removed (cause : Cause) (copy : RemoteId) (marked : Bool)
    (outcome : Outcome) (spent : Spent world) (removing : world.stage = .removing rows cause copy marked)
    (stage : after.stage = .settling rows outcome) (uploaded : after.uploaded = world.uploaded)
    (stopped : after.stopped = world.stopped) (queue : after.queue = world.queue)
    (done : ∀ draft, cause = .replaced draft -> outcome = .applied) : Spent after := by
  -- However a removal ends, a save is done.
  apply spent_stage world after spent uploaded stopped queue
  next =>
    intro operation there
    rw [stage] at there
    rw [removing]
    exact there
  next =>
    intro operation past
    rw [removing] at past
    rw [stage]
    cases cause with
    | replaced draft =>
      rw [done draft rfl]
      exact ⟨past, settlesDone_applied⟩
    | discarded draft => exact past.elim

theorem spent_store (uidPlus : Bool) (answer : WireAnswer) (spent : Spent world) :
    Spent (world.store uidPlus answer) := by
  unfold store
  split
  next rows cause copy removing =>
    cases answer with
    | done =>
      dsimp only
      split
      next =>
        split
        next =>
          refine spent_stage world _ spent rfl rfl rfl ?_ ?_
          next =>
            intro operation there
            rw [removing]
            exact there
          next =>
            intro operation past
            rw [removing] at past
            cases cause with
            | replaced draft => exact past
            | discarded draft => exact past.elim
        next => exact spent_removed world _ rows cause copy false _ spent removing rfl rfl rfl rfl (fun _ _ => rfl)
      next =>
        refine spent_removed world _ rows cause copy false _ spent removing rfl rfl rfl rfl ?_
        rintro draft rfl
        rfl
    | failed took error =>
      refine spent_removed world _ rows cause copy false _ spent removing rfl rfl rfl rfl ?_
      rintro draft rfl
      rfl
  next => exact spent

theorem spent_expunge (answer : WireAnswer) (spent : Spent world) : Spent (world.expunge answer) := by
  unfold expunge
  split
  next rows cause copy removing =>
    cases answer with
    | done => exact spent_removed world _ rows cause copy true _ spent removing rfl rfl rfl rfl (fun _ _ => rfl)
    | failed took error =>
      refine spent_removed world _ rows cause copy true _ spent removing rfl rfl rfl rfl ?_
      rintro draft rfl
      rfl
  next => exact spent

theorem spent_settle (exhausted : Bool) (spent : Spent world) : Spent (world.settle exhausted) := by
  unfold settle
  split
  next operation rest outcome settling =>
    have hand : ∀ other ∈ inHand (if rest = [] then Stage.idle else .settling rest outcome), other ∈ rest := by
      intro other there
      split at there
      next => cases there
      next => exact there
    have later : ∀ other ∈ rest, settlesDone outcome ->
        Past (if rest = [] then Stage.idle else .settling rest outcome) other := by
      intro other there done
      rw [if_neg (List.ne_nil_of_mem there)]
      exact ⟨there, done⟩
    -- the row of the operation that is settled, where it had been recorded
    have here : ∀ raw, (operation, raw) ∈ world.uploaded -> operation ∈ world.stopped ∨ settlesDone outcome := by
      intro raw recorded
      have held : operation ∈ inHand world.stage := by
        rw [settling]
        exact List.mem_cons_self ..
      rcases spent.again operation held raw recorded with cut | past
      next => exact .inl cut
      next =>
        rw [settling] at past
        exact .inr past.2
    constructor
    next =>
      intro other raw recorded
      by_cases same : other = operation
      next =>
        subst same
        rcases here raw recorded with cut | done
        next => exact .inl cut
        next =>
          refine .inr (.inr ?_)
          intro row there named
          obtain ⟨old, -, rfl⟩ := mem_setState world other _ row there
          by_cases on : old.id = other
          next =>
            rw [if_pos on]
            exact done exhausted
          next =>
            rw [if_neg on] at named
            exact absurd named on
      next =>
        rcases spent.settled other raw recorded with cut | past | done
        next => exact .inl cut
        next =>
          rw [settling] at past
          rcases List.mem_cons.mp past.1 with equal | among
          next => exact absurd equal same
          next => exact .inr (.inl (later other among past.2))
        next =>
          refine .inr (.inr ?_)
          intro row there named
          obtain ⟨old, before, rfl⟩ := mem_setState world operation _ row there
          by_cases on : old.id = operation
          next =>
            rw [if_pos on] at named
            exact absurd (named.symm.trans on) same
          next =>
            rw [if_neg on] at named ⊢
            exact done old before named
    next => exact spent.issued
    next =>
      intro other there
      apply spent.inHand other
      rw [settling]
      exact List.mem_cons_of_mem _ (hand other there)
    next =>
      intro other there raw recorded
      have among := hand other there
      have held : other ∈ inHand world.stage := by
        rw [settling]
        exact List.mem_cons_of_mem _ among
      rcases spent.again other held raw recorded with cut | past
      next => exact .inl cut
      next =>
        rw [settling] at past
        exact .inr (later other among past.2)
  next outcome settling =>
    refine spent_stage world _ spent rfl rfl rfl ?_ ?_
    next => exact fun operation there => by cases there
    next =>
      intro operation past
      rw [settling] at past
      cases past.1
  next => exact spent

theorem past_inHand (stage : Stage) (operation : OperationId) (past : Past stage operation) :
    operation ∈ inHand stage := by
  cases stage with
  | idle => exact past.elim
  | appending rows job => exact past.elim
  | recording rows job location => exact past.elim
  | settling rows outcome => exact past.1
  | removing rows cause copy marked =>
    cases cause with
    | replaced draft => exact past
    | discarded draft => exact past.elim

theorem spent_stop (spent : Spent world) : Spent world.stop where
  settled := by
    intro operation raw recorded
    rcases spent.settled operation raw recorded with cut | past | done
    next => exact .inl (List.mem_append_right _ cut)
    next => exact .inl (List.mem_append_left _ (past_inHand _ operation past))
    next => exact .inr (.inr done)
  issued := spent.issued
  inHand := fun operation there => by cases there
  again := fun operation there => by cases there

theorem spent_requeue (spent : Spent world) : Spent world.requeue := by
  unfold requeue
  split
  next =>
    refine spent_queue world _ spent rfl rfl rfl (Nat.le_refl _) ?_
    intro row there
    rw [Table.update_rows] at there
    obtain ⟨old, before, rfl⟩ := List.mem_map.mp there
    refine .inr ⟨old, before, (requeued_id old).symm, ?_⟩
    intro done
    unfold requeued
    rw [if_neg (by simp [done])]
    exact done
  next => exact spent

theorem spent_step (event : Event) (spent : Spent world) : Spent (world.step buildDraft event) := by
  cases event with
  | compose text =>
    exact spent_enqueue _ _ (spent_same world { world with drafts := _, buffers := _ } spent rfl rfl rfl rfl)
  | reopen draft =>
    change Spent (world.reopen draft)
    unfold reopen
    split
    next => exact spent_same world _ spent rfl rfl rfl rfl
    next => exact spent
  | save buffer text =>
    change Spent (world.save buffer text)
    unfold save
    split
    next => exact spent
    next =>
      split
      next => exact spent
      next => exact spent_enqueue _ _ (spent_same world { world with drafts := _ } spent rfl rfl rfl rfl)
  | discard draft =>
    have deleted := spent_same world (world.delete draft) spent rfl rfl rfl rfl
    change Spent (world.discard draft)
    unfold discard
    split
    next => exact spent
    next =>
      split
      next => exact spent_enqueue _ _ deleted
      next => exact deleted
  | delete draft => exact spent_same world _ spent rfl rfl rfl rfl
  | take rows hindrance => exact spent_take buildDraft world rows hindrance spent
  | append answer => exact spent_append world answer spent
  | record answer => exact spent_record world answer spent
  | store uidPlus answer => exact spent_store world uidPlus answer spent
  | expunge answer => exact spent_expunge world answer spent
  | settle exhausted => exact spent_settle world exhausted spent
  | stop => exact spent_stop world spent
  | requeue => exact spent_requeue world spent
  | arrive raw => exact spent_same world _ spent rfl rfl rfl rfl
  | sweep => exact spent_same world _ spent rfl rfl rfl rfl
  | renumber => exact spent_same world _ spent rfl rfl rfl rfl

theorem appendsOnce_spent (event : Event) (spent : Spent world) :
    AppendsOnce (fun world operation => operation ∈ world.stopped) world event := by
  intro answer rows job _ appending operation there recorded
  have held : operation ∈ inHand world.stage := by
    rw [appending]
    exact there
  rcases spent.again operation held job.raw recorded with cut | past
  next => exact cut
  next =>
    rw [appending] at past
    exact past.elim

/-! ### Every run -/

def plainDraft : DraftId -> Text -> Raw := fun _ text => text.map (fun char => UInt8.ofNat char.toNat)

def unnamedStart : List Event :=
  [.compose ['a'], .take [⟨1⟩] none, .append (.landed true), .record .written, .settle false, .save 0 ['b'],
    .take [⟨2⟩] none, .append (.landed false), .record .written]

def cutStart : List Event :=
  [.compose ['a'], .take [⟨1⟩] none, .append (.landed true), .record .written, .stop, .requeue, .take [⟨1⟩] none]

end Postio.Drafts.World

import Mathlib.Algebra.Order.BigOperators.Group.List
import Postio.Imap.SlotsConserved

set_option autoImplicit false

namespace Postio.Pool

namespace ConnectionPool

variable (config : PoolConfig) (capacity : LaneKind -> Nat) (pool : ConnectionPool) (place kind : LaneKind)
    (lane : Lane) (priority : Priority) (phase : Phase)

def SteadyCall (call : Call) : CallEvent -> Prop
  | .giveUp => call.phase = .elapsed false -> ∃ priority, call.ticket ∈ (pool.lane call.lane).waiters priority
  | .dropped => call.phase ≠ .handed ∧ call.phase ≠ .opening
  | _ => True

def Steady : Event -> Prop
  | .call ticket event => ∀ call, pool.calls.get ticket = some call -> pool.SteadyCall call event
  | _ => True

/-- What one step leaves, `spare` slots of it owned by nobody. -/
structure Turn (capacity : LaneKind -> Nat) (before after : ConnectionPool) (spare room : LaneKind -> Int) : Prop where
  books : Books capacity after spare room
  waiting : after.Waiting
  served : before.closed = false -> ServedWell before after

def Settled (before after : ConnectionPool) : Prop :=
  Turn capacity before after (fun _ => 0) (fun _ => 0)

theorem settled_of_turn (after : ConnectionPool) (spare room : LaneKind -> Int)
    (turn : Turn capacity pool after spare room) (none : ∀ kind, spare kind = 0) (less : ∀ kind, room kind ≤ 0) :
    Settled capacity pool after := by
  refine ⟨⟨fun kind => ?_, fun kind => ?_⟩, turn.waiting, turn.served⟩
  · have accounted := turn.books.accounted kind
    rw [none] at accounted
    exact accounted
  · have parked := turn.books.parked kind
    have bound := less kind
    omega

theorem turn_figures (after : ConnectionPool) (spare room : LaneKind -> Int)
    (inUse opened : Nat) (turn : Turn capacity { pool with inUse := inUse, opened := opened } after spare room) :
    Turn capacity pool after spare room := by
  -- A turn is about the lanes and the calls, not about the figures kept for show.
  have same (kind : LaneKind) :
      ({ pool with inUse := inUse, opened := opened } : ConnectionPool).lane kind = pool.lane kind := by
    cases kind <;> rfl
  refine ⟨turn.books, turn.waiting, fun open' => ?_⟩
  have served := turn.served open'
  exact ⟨served.best, fun kind => by rw [← same]; exact served.free kind⟩

theorem waiting_figures (inUse opened : Nat) (waiting : pool.Waiting) :
    ({ pool with inUse := inUse, opened := opened } : ConnectionPool).Waiting := by
  refine waiting_congr pool _ waiting rfl rfl (fun kind priority => ?_)
  cases kind <;> rfl

theorem count_nonneg (weight : Phase -> Int) (nonneg : ∀ phase, 0 ≤ weight phase)
    (kind : LaneKind) : 0 ≤ pool.count weight kind := by
  apply List.sum_nonneg
  intro amount member
  obtain ⟨call, -, rfl⟩ := List.mem_map.mp member
  split
  · exact nonneg call.phase
  · exact Int.le_refl 0

theorem putLane_putPhase (ticket : Nat) (phase : Phase) :
    (pool.putLane kind lane).putPhase ticket phase = (pool.putPhase ticket phase).putLane kind lane := by
  cases kind <;> rfl

def joined :
    ConnectionPool :=
  -- The pool once a call took a ticket.
  { pool.putLane place lane with
    calls := pool.calls.insert
      (fun ticket => { ticket := ticket, lane := place, priority := priority, phase := phase }) (fun _ => rfl) }

theorem lane_joined (other : LaneKind) (lane : Lane) (priority : Priority) (phase : Phase) :
    (pool.joined place lane priority phase).lane other = if other = place then lane else pool.lane other := by
  rw [← lane_putLane]
  cases other <;> rfl

theorem count_joined (other : LaneKind) (lane : Lane) (priority : Priority) (phase : Phase)
    (weight : Phase -> Int) :
    (pool.joined place lane priority phase).count weight other =
      pool.count weight other + only place (weight phase) other :=
  pool.calls.total_insert _ (fun _ => rfl) _

theorem get_joined (other : Nat) : (pool.joined place lane priority phase).calls.get other =
      if other = pool.calls.nextId then
        some { ticket := pool.calls.nextId, lane := place, priority := priority, phase := phase }
      else pool.calls.get other :=
  pool.calls.get_insert _ (fun _ => rfl) other

theorem seeking_nonneg : 0 ≤ phase.seeking := by
  cases phase with
  | elapsed sent => cases sent <;> decide
  | _ => simp [Phase.seeking]

theorem ticket_fresh (ticket : Nat) (call : Call) (found : pool.calls.get ticket = some call) :
    ticket ≠ pool.calls.nextId := by
  obtain ⟨member, named⟩ := (pool.calls.get_eq_some ticket call).mp found
  have issued := pool.calls.issued call member
  omega

theorem served_joined (permits : lane.permits ≤ (pool.lane place).permits) : ServedWell pool (pool.joined place lane priority phase) := by
  refine served_quiet _ _ ?_ ?_
  · intro ticket call found queued handed
    rw [ConnectionPool.phase, get_joined, if_neg (ticket_fresh pool ticket call found), found, Option.map_some,
      queued] at handed
    cases handed
  · intro other
    rw [lane_joined]
    split
    next same =>
      rw [same]
      exact permits
    next => exact Nat.le_refl _

section

variable (capacity : LaneKind -> Nat) (pool : ConnectionPool)
  (books : Books capacity pool (fun _ => 0) (fun _ => 0)) (waiting : pool.Waiting)

include books waiting

theorem settled_same : Settled capacity pool pool := by
  refine ⟨books, waiting, fun _ => served_quiet pool pool ?_ (fun _ => Nat.le_refl _)⟩
  intro ticket call found queued handed
  rw [phase, found, Option.map_some, queued] at handed
  cases handed

variable (call : Call)

theorem settled_putPhase (found : pool.calls.get call.ticket = some call) (phase : Phase)
    (moves : phase ≠ .queued) (unserved : phase ≠ .handed) (fromQueue : call.phase = .queued -> phase = .elapsed false)
    (settled : call.phase ≠ .elapsed false) (slots : call.phase.slots = phase.slots)
    (parks : call.phase.seeking = phase.seeking) : Settled capacity pool (pool.putPhase call.ticket phase) := by
  have moved := books_putPhase capacity pool _ _ books call.ticket phase call found
  refine ⟨books_congr capacity _ _ _ _ _ moved ?_ ?_, ?_, fun _ => served_quiet _ _ ?_ ?_⟩
  · intro kind
    simp [slots, only]
  · intro kind
    simp [parks, only]
  · exact waiting_putPhase pool waiting call.ticket phase call found moves fromQueue settled
  · intro ticket other there queued handed
    rw [ConnectionPool.phase, get_putPhase, there] at handed
    split at handed
    next => exact unserved (by simpa using handed)
    next =>
      rw [Option.map_some, queued] at handed
      cases handed
  · intro kind
    rw [lane_putPhase]

theorem settled_figures (found : pool.calls.get call.ticket = some call) (inUse opened : Nat)
    (phase : Phase) (unserved : phase ≠ .handed) (moves : phase ≠ .queued) (outside : call.phase ≠ .queued)
    (settled : call.phase ≠ .elapsed false) (slots : call.phase.slots = phase.slots)
    (parks : call.phase.seeking = phase.seeking) :
    Settled capacity pool ({ pool with inUse := inUse, opened := opened }.putPhase call.ticket phase) := by
  apply turn_figures capacity pool _ _ _ inUse opened
  exact settled_putPhase capacity { pool with inUse := inUse, opened := opened }
    (books_figures capacity pool _ _ inUse opened books) (waiting_figures pool inUse opened waiting) call found phase
    moves unserved (fun queued => absurd queued outside) settled slots parks

theorem turn_gone (found : pool.calls.get call.ticket = some call) :
    Turn capacity pool (pool.gone call.ticket) (only call.lane call.phase.slots)
      (only call.lane call.phase.seeking) := by
  -- A call that owned nothing leaves without a trace. One that owned a slot leaves it to nobody.
  have left := books_gone capacity pool _ _ books call.ticket call found
  refine ⟨books_congr capacity _ _ _ _ _ left ?_ ?_, waiting_gone pool waiting call.ticket,
    fun _ => served_quiet _ _ ?_ ?_⟩
  · intro kind
    simp
  · intro kind
    simp
  · intro ticket other there queued handed
    rw [phase, get_gone, there] at handed
    split at handed
    next => cases handed
    next =>
      rw [Option.map_some, queued] at handed
      cases handed
  · intro kind
    rw [lane_gone]

theorem turn_released (found : pool.calls.get call.ticket = some call) (outside : call.phase ≠ .queued) :
    Turn capacity pool ((pool.gone call.ticket).release call.lane) (only call.lane (call.phase.slots - 1))
      (only call.lane (call.phase.seeking - 1)) := by
  -- A call that did not wait any more leaves, and a slot is released in its lane.
  have left := turn_gone capacity pool books waiting call found
  have released := books_release capacity _ left.waiting _ _ left.books call.lane
  refine ⟨books_congr capacity _ _ _ _ _ released ?_ ?_, waiting_release _ left.waiting call.lane, fun opened => ?_⟩
  · intro kind
    simp only [only]
    split <;> omega
  · intro kind
    simp only [only]
    split <;> omega
  · refine served_release pool _ left.waiting (by simpa using opened) ?_ (fun kind => by rw [lane_gone]) call.lane
    intro ticket other there queued
    rw [get_gone, if_neg, there]
    intro same
    rw [same, found] at there
    cases there
    exact outside queued

/-! ### What each critical section leaves -/

theorem poll_settled (found : pool.calls.get call.ticket = some call) :
    Settled capacity pool (pool.poll call) := by
  unfold poll
  split
  next handed =>
    exact settled_putPhase capacity pool books waiting call found .granted (by simp) (by simp) (by simp [handed])
      (by simp [handed]) (by simp [handed, Phase.slots]) (by simp [handed, Phase.seeking])
  next queued =>
    split
    next => exact settled_same capacity pool books waiting
    next =>
      refine settled_of_turn capacity pool _ _ _ (turn_gone capacity pool books waiting call found) ?_ ?_
      · intro kind
        simp [queued, Phase.slots, only]
      · intro kind
        simp [queued, Phase.seeking, only]
  next => exact settled_same capacity pool books waiting

theorem elapse_settled (found : pool.calls.get call.ticket = some call) :
    Settled capacity pool (pool.elapse call) := by
  unfold elapse
  split
  next queued =>
    exact settled_putPhase capacity pool books waiting call found (.elapsed false) (by simp) (by simp) (by simp)
      (by simp [queued]) (by simp [queued, Phase.slots]) (by simp [queued, Phase.seeking])
  next handed =>
    exact settled_putPhase capacity pool books waiting call found (.elapsed true) (by simp) (by simp)
      (by simp [handed]) (by simp [handed]) (by simp [handed, Phase.slots]) (by simp [handed, Phase.seeking])
  next => exact settled_same capacity pool books waiting

theorem openDone_settled (found : pool.calls.get call.ticket = some call) :
    Settled capacity pool (pool.openDone call) := by
  unfold openDone
  split
  next opening =>
    exact settled_figures capacity pool books waiting call found pool.inUse (pool.opened + 1) (.ready (pool.opened + 1))
      (by simp) (by simp) (by simp [opening]) (by simp [opening]) (by simp [opening, Phase.slots])
      (by simp [opening, Phase.seeking])
  next => exact settled_same capacity pool books waiting

theorem openFailed_settled (found : pool.calls.get call.ticket = some call) :
    Settled capacity pool (pool.openFailed call) := by
  unfold openFailed
  split
  next opening =>
    refine settled_of_turn capacity pool _ _ _ (turn_released capacity pool books waiting call found (by simp [opening]))
      ?_ ?_
    · intro kind
      simp [opening, Phase.slots, only]
    · intro kind
      simp only [opening, Phase.seeking, only]
      split <;> omega
  next => exact settled_same capacity pool books waiting

theorem checkOut_settled (found : pool.calls.get call.ticket = some call) :
    Settled capacity pool (pool.checkOut call) := by
  unfold checkOut
  split
  next session ready =>
    exact settled_figures capacity pool books waiting call found (pool.inUse + 1) pool.opened (.holding session false)
      (by simp) (by simp) (by simp [ready]) (by simp [ready]) (by simp [ready, Phase.slots])
      (by simp [ready, Phase.seeking])
  next => exact settled_same capacity pool books waiting

theorem setDiscard_settled (found : pool.calls.get call.ticket = some call) (discard : Bool) :
    Settled capacity pool (pool.setDiscard call discard) := by
  unfold setDiscard
  split
  next session marked holding =>
    exact settled_putPhase capacity pool books waiting call found (.holding session discard) (by simp) (by simp)
      (by simp [holding]) (by simp [holding]) (by simp [holding, Phase.slots]) (by simp [holding, Phase.seeking])
  next => exact settled_same capacity pool books waiting

theorem look_settled (found : pool.calls.get call.ticket = some call) (now : Nat) :
    Settled capacity pool (pool.look call now) := by
  unfold look
  split
  next granted =>
    have quiet (left : Lane) (phase : Phase) (unserved : phase ≠ .handed)
        (permits : left.permits = (pool.lane call.lane).permits) :
        ServedWell pool ((pool.putLane call.lane left).putPhase call.ticket phase) := by
      refine served_quiet _ _ ?_ ?_
      · intro ticket other there queued handed
        rw [ConnectionPool.phase, get_putPhase, putLane_calls, there] at handed
        split at handed
        next => exact unserved (by simpa using handed)
        next =>
          rw [Option.map_some, queued] at handed
          cases handed
      · intro kind
        rw [lane_putPhase, lane_putLane]
        split
        next same => rw [same, permits]
        next => exact Nat.le_refl _
    have waits (left : Lane) (phase : Phase) (moves : phase ≠ .queued)
        (waiters : left.waiters = (pool.lane call.lane).waiters) :
        ((pool.putLane call.lane left).putPhase call.ticket phase).Waiting := by
      have kept := waiting_putLane pool waiting call.lane left (fun priority => by rw [waiters])
        (fun _ priority ticket member _ => by rw [waiters]; exact member)
      exact waiting_putPhase _ kept call.ticket phase call (by rw [putLane_calls]; exact found) moves
        (by simp [granted]) (by simp [granted])
    split
    next =>
      refine settled_of_turn capacity pool _ _ _
        (turn_released capacity pool books waiting call found (by simp [granted])) ?_ ?_
      · intro kind
        simp [granted, Phase.slots, only]
      · intro kind
        simp [granted, Phase.seeking, only]
    next =>
      rcases (pool.lane call.lane).takeParked_cases pool.config.idleTimeout now with none |
        ⟨left, session, some, permits, waiters, fewer⟩
      · rw [none]
        have moved := books_putPhase capacity pool _ _ books call.ticket .opening call found
        have nonneg := count_nonneg (pool.putPhase call.ticket .opening) Phase.seeking seeking_nonneg call.lane
        have emptied := books_putLane capacity _ _ _ (fun _ => 0) moved call.lane (pool.lane call.lane).dropParked
          (by rw [lane_putPhase]; rfl)
          (by
            simp only [Lane.dropParked, List.length_nil]
            omega)
          (fun other apart => by simp [only, Ne.symm apart])
        rw [← putLane_putPhase] at emptied
        refine ⟨books_congr capacity _ _ _ _ _ emptied ?_ (fun _ => rfl), waits _ _ (by simp) rfl, fun _ => quiet _ _ (by simp) rfl⟩
        intro kind
        simp [granted, Phase.slots, only]
      · rw [some]
        have parked := books.parked call.lane
        have lighter := books_putLane capacity pool _ _ (only call.lane (-1)) books call.lane left permits
          (by
            simp only [only, if_true]
            omega)
          (fun other apart => by simp [only, Ne.symm apart])
        have moved := books_putPhase capacity _ _ _ lighter call.ticket (.ready session) call
          (by rw [putLane_calls]; exact found)
        refine ⟨books_congr capacity _ _ _ _ _ moved ?_ ?_, waits _ _ (by simp) waiters, fun _ => quiet _ _ (by simp) permits⟩
        · intro kind
          simp [granted, Phase.slots, only]
        · intro kind
          simp only [granted, Phase.seeking, only]
          split <;> omega
  next => exact settled_same capacity pool books waiting

theorem giveUp_turn (found : pool.calls.get call.ticket = some call) :
    (pool.SteadyCall call .giveUp -> Settled capacity pool (pool.giveUp call)) ∧
      (¬ pool.SteadyCall call .giveUp ->
        Turn capacity pool (pool.giveUp call) (only call.lane (-1)) (only call.lane (-1))) := by
  -- Whether a wait that ran out steadily owned a slot or took its entry back, nothing is left over.
  unfold giveUp
  cases stage : call.phase with
  | elapsed sent =>
    have outside : call.phase ≠ .queued := by simp [stage]
    have released := turn_released capacity pool books waiting call found outside
    dsimp only
    rcases (pool.lane call.lane).cancel_cases call.ticket with ⟨left, same, ⟨priority, queued⟩, cancelled⟩ | ⟨same, missing⟩
    · rw [same]
      have unsent : sent = false := by
        rcases (waiting.named _ _ _ call queued found).2.2 with listening | left
        · exact absurd listening outside
        · rw [stage] at left
          exact (Phase.elapsed.inj left)
      refine ⟨fun _ => ?_, fun astray => absurd (fun _ => ⟨priority, queued⟩) astray⟩
      have shorter := books_putLane capacity pool _ _ (fun _ => 0) books call.lane left cancelled.permits
        (by rw [cancelled.parked]; exact books.parked call.lane) (fun _ _ => rfl)
      have gone := books_gone capacity _ _ _ shorter call.ticket call (by rw [putLane_calls]; exact found)
      have kept := waiting_putLane pool waiting call.lane left cancelled.shorter (by
        intro _ rank ticket member hears
        apply cancelled.kept rank ticket member
        intro equal
        rw [equal] at hears
        simp [listens, phase, found, stage] at hears)
      refine ⟨books_congr capacity _ _ _ _ _ gone ?_ ?_, waiting_gone _ kept call.ticket, fun _ => ?_⟩
      · intro kind
        simp [stage, unsent, Phase.slots, only]
      · intro kind
        simp [stage, unsent, Phase.seeking, only]
      · refine served_quiet _ _ ?_ ?_
        · intro ticket other there waits handed
          rw [phase, get_gone, putLane_calls, there] at handed
          split at handed
          next => cases handed
          next =>
            rw [Option.map_some, waits] at handed
            cases handed
        · intro kind
          rw [lane_gone, lane_putLane]
          split
          next here => rw [here, cancelled.permits]
          next => exact Nat.le_refl _
    · rw [same]
      cases sent with
      | true =>
        refine ⟨fun _ => ?_, fun astray => absurd (fun unsent => ?_) astray⟩
        · refine settled_of_turn capacity pool _ _ _ released ?_ ?_
          · intro kind
            simp [stage, Phase.slots, only]
          · intro kind
            simp [stage, Phase.seeking, only]
        · rw [stage] at unsent
          cases unsent
      | false =>
        refine ⟨fun steady => ?_, fun _ => ?_⟩
        · obtain ⟨priority, queued⟩ := steady stage
          exact absurd queued (missing priority)
        · rw [stage] at released
          exact released
  | _ =>
    refine ⟨fun _ => settled_same capacity pool books waiting, fun astray => absurd (fun unsent => ?_) astray⟩
    rw [stage] at unsent
    cases unsent

theorem dropped_turn (found : pool.calls.get call.ticket = some call) :
    (pool.SteadyCall call .dropped -> Settled capacity pool (pool.dropped call)) ∧
      (¬ pool.SteadyCall call .dropped ->
        ∃ room, Turn capacity pool (pool.dropped call) (only call.lane 1) room) := by
  have left := turn_gone capacity pool books waiting call found
  unfold dropped
  cases stage : call.phase with
  | queued =>
    refine ⟨fun _ => settled_of_turn capacity pool _ _ _ left ?_ ?_, fun astray => ?_⟩
    · intro kind
      simp [stage, Phase.slots, only]
    · intro kind
      simp [stage, Phase.seeking, only]
    · exact absurd ⟨by simp [stage], by simp [stage]⟩ astray
  | handed =>
    rw [stage] at left
    exact ⟨fun steady => absurd stage steady.1, fun _ => ⟨_, left⟩⟩
  | opening =>
    rw [stage] at left
    exact ⟨fun steady => absurd stage steady.2, fun _ => ⟨_, left⟩⟩
  | _ =>
    refine ⟨fun _ => settled_same capacity pool books waiting, fun astray => ?_⟩
    exact absurd ⟨by simp [stage], by simp [stage]⟩ astray

theorem giveBack_settled (found : pool.calls.get call.ticket = some call) (now : Nat) :
    Settled capacity pool (pool.giveBack call now) := by
  unfold giveBack
  split
  next session discard holding =>
    have outside : call.phase ≠ .queued := by simp [holding]
    have counted := books_figures capacity pool _ _ (pool.inUse - 1) pool.opened books
    have waits := waiting_figures pool (pool.inUse - 1) pool.opened waiting
    dsimp only
    split
    next =>
      have released := turn_released capacity _ counted waits call found outside
      refine settled_of_turn capacity pool _ _ _ (turn_figures capacity pool _ _ _ _ _ released) ?_ ?_
      · intro kind
        simp [holding, Phase.slots, only]
      · intro kind
        simp only [holding, Phase.seeking, only]
        split <;> omega
    next =>
      have left := turn_gone capacity _ counted waits call found
      generalize pooled : ({ pool with inUse := pool.inUse - 1 } : ConnectionPool) = before at left
      have parked := left.books.parked call.lane
      have fuller := books_putLane capacity (before.gone call.ticket) _ _ (only call.lane 1) left.books call.lane
        { (before.gone call.ticket).lane call.lane with
          parked := { session := session, since := now } :: ((before.gone call.ticket).lane call.lane).parked }
        rfl
        (by
          simp only [holding, Phase.seeking, only, if_true, List.length_cons] at parked ⊢
          omega)
        (fun other apart => by simp [only, Ne.symm apart])
      have kept := waiting_putLane _ left.waiting call.lane
        { (before.gone call.ticket).lane call.lane with
          parked := { session := session, since := now } :: ((before.gone call.ticket).lane call.lane).parked }
        (fun _ => List.Sublist.refl _) (fun _ _ _ member _ => member)
      have released := books_release capacity _ kept _ _ fuller call.lane
      refine ⟨books_congr capacity _ _ _ _ _ released ?_ ?_, waiting_release _ kept call.lane, fun opened => ?_⟩
      · intro kind
        simp only [holding, Phase.slots, only]
        split <;> omega
      · intro kind
        simp only [only]
        split <;> omega
      · refine served_release pool _ kept ?_ ?_ ?_ call.lane
        · rw [putLane_closed, gone_closed, ← pooled]
          exact opened
        · intro ticket other there queued
          rw [putLane_calls, get_gone, ← pooled, if_neg, there]
          intro same
          rw [same, found] at there
          cases there
          exact outside queued
        · intro kind
          rw [lane_putLane, lane_gone, lane_gone, ← pooled]
          cases kind <;> cases call.lane <;> rfl
  next => exact settled_same capacity pool books waiting

theorem taken_settled (place : LaneKind) (priority : Priority) (opened : pool.closed = false)
    (free : 0 < (pool.lane place).permits) :
    Settled capacity pool
      (pool.joined place { pool.lane place with permits := (pool.lane place).permits - 1 } priority .granted) := by
  -- A free slot is taken.
  refine ⟨⟨fun other => ?_, fun other => ?_⟩, ?_, fun _ => served_joined pool _ _ _ _ (Nat.sub_le _ _)⟩
  · have accounted := books.accounted other
    rw [lane_joined, count_joined]
    by_cases here : other = place
    · subst here
      simp only [if_true, Phase.slots, only]
      omega
    · simp only [if_neg here, only, if_neg (Ne.symm here)]
      omega
  · have parked := books.parked other
    rw [lane_joined, count_joined]
    by_cases here : other = place
    · subst here
      simp only [if_true, Phase.seeking, only]
      omega
    · simp only [if_neg here, only, if_neg (Ne.symm here)]
      omega
  · have same (other : LaneKind) (rank : Priority) :
        ((pool.joined place { pool.lane place with permits := (pool.lane place).permits - 1 } priority
          .granted).lane other).waiters rank = (pool.lane other).waiters rank := by
      rw [lane_joined]
      split
      next here => rw [here]
      next => rfl
    constructor
    case listed =>
      intro _ ticket call found queued
      rw [get_joined] at found
      rw [same]
      split at found
      next =>
        cases found
        cases queued
      next => exact waiting.listed opened ticket call found queued
    case named =>
      intro other rank ticket call member found
      rw [same] at member
      rw [get_joined, if_neg (Nat.ne_of_lt (waiting.issued other rank ticket member))] at found
      exact waiting.named other rank ticket call member found
    case ordered =>
      intro other rank
      rw [same]
      exact waiting.ordered other rank
    case issued =>
      intro other rank ticket member
      rw [same] at member
      exact Nat.lt_succ_of_lt (waiting.issued other rank ticket member)

theorem queued_settled (place : LaneKind) (priority : Priority) (opened : pool.closed = false) :
    Settled capacity pool
      (pool.joined place
        { pool.lane place with
          waiters := Function.update (pool.lane place).waiters priority
            ((pool.lane place).waiters priority ++ [pool.calls.nextId]) } priority .queued) := by
  -- No slot is free: the ticket, higher than every other, goes to the end of its queue.
  refine ⟨⟨fun other => ?_, fun other => ?_⟩, ?_, fun _ => served_joined pool _ _ _ _ (Nat.le_refl _)⟩
  · have accounted := books.accounted other
    rw [lane_joined, count_joined]
    by_cases here : other = place
    · subst here
      simp only [if_true, Phase.slots, only]
      omega
    · simp only [if_neg here, only, if_neg (Ne.symm here)]
      omega
  · have parked := books.parked other
    rw [lane_joined, count_joined]
    by_cases here : other = place
    · subst here
      simp only [if_true, Phase.seeking, only]
      omega
    · simp only [if_neg here, only, if_neg (Ne.symm here)]
      omega
  · generalize longer : ({ pool.lane place with
      waiters := Function.update (pool.lane place).waiters priority
        ((pool.lane place).waiters priority ++ [pool.calls.nextId]) } : Lane) = lane
    have queues (other : LaneKind) (rank : Priority) :
        ((pool.joined place lane priority .queued).lane other).waiters rank =
          if other = place ∧ rank = priority then (pool.lane other).waiters rank ++ [pool.calls.nextId]
          else (pool.lane other).waiters rank := by
      rw [lane_joined, ← longer]
      by_cases here : other = place
      · subst here
        by_cases level : rank = priority
        · subst level
          simp
        · simp [level]
      · simp [here]
    have inside (other : LaneKind) (rank : Priority) (ticket : Nat)
        (member : ticket ∈ ((pool.joined place lane priority .queued).lane other).waiters rank) :
        ticket ∈ (pool.lane other).waiters rank ∨ ticket = pool.calls.nextId ∧ other = place ∧ rank = priority := by
      rw [queues] at member
      split at member
      next here =>
        rcases List.mem_append.mp member with old | new
        · exact .inl old
        · exact .inr ⟨List.mem_singleton.mp new, here⟩
      next => exact .inl member
    constructor
    case listed =>
      intro _ ticket call found queued
      rw [get_joined] at found
      rw [queues]
      split at found
      next same =>
        cases found
        simp [same]
      next =>
        have member := waiting.listed opened ticket call found queued
        split
        next => exact List.mem_append_left _ member
        next => exact member
    case named =>
      intro other rank ticket call member found
      rw [get_joined] at found
      rcases inside other rank ticket member with old | ⟨new, here, level⟩
      · rw [if_neg (Nat.ne_of_lt (waiting.issued other rank ticket old))] at found
        exact waiting.named other rank ticket call old found
      · rw [if_pos new] at found
        cases found
        exact ⟨here.symm, level.symm, .inl rfl⟩
    case ordered =>
      intro other rank
      rw [queues]
      split
      next =>
        refine List.pairwise_append.mpr ⟨waiting.ordered other rank, List.pairwise_singleton _ _, ?_⟩
        intro first member second last
        rw [List.mem_singleton.mp last]
        exact waiting.issued other rank first member
      next => exact waiting.ordered other rank
    case issued =>
      intro other rank ticket member
      rcases inside other rank ticket member with old | ⟨new, -⟩
      · exact Nat.lt_succ_of_lt (waiting.issued other rank ticket old)
      · rw [new]
        exact Nat.lt_succ_self _

theorem acquire_settled (kind : LaneKind) (priority : Priority) : Settled capacity pool (pool.acquire kind priority) := by
  unfold acquire
  generalize pool.resolve kind = place
  dsimp only
  split
  next => exact settled_same capacity pool books waiting
  next opened =>
    have open' : pool.closed = false := by simpa using opened
    unfold Lane.takePermit
    split
    next free => exact taken_settled capacity pool books waiting place priority open' free
    next => exact queued_settled capacity pool books waiting place priority open'

theorem dropIdle_settled : Settled capacity pool pool.dropIdle := by
  have same (kind : LaneKind) : pool.dropIdle.lane kind = (pool.lane kind).dropParked := by
    cases kind <;> rfl
  refine ⟨⟨fun kind => ?_, fun kind => ?_⟩, ?_, fun _ => served_quiet _ _ ?_ ?_⟩
  · rw [same]
    exact books.accounted kind
  · have parked := books.parked kind
    rw [same]
    have nonneg := count_nonneg pool.dropIdle Phase.seeking seeking_nonneg kind
    simp only [Lane.dropParked, List.length_nil]
    omega
  · exact waiting_congr pool _ waiting rfl rfl (fun kind priority => by rw [same]; rfl)
  · intro ticket call found queued handed
    rw [phase, dropIdle, found, Option.map_some, queued] at handed
    cases handed
  · intro kind
    rw [same]
    exact Nat.le_refl _

omit waiting in
theorem close_settled : Settled capacity pool pool.close := by
  have same (kind : LaneKind) : pool.close.lane kind = (pool.lane kind).close := by
    cases kind <;> rfl
  refine ⟨⟨fun kind => ?_, fun kind => ?_⟩, ?_, fun _ => served_quiet _ _ ?_ ?_⟩
  · rw [same]
    exact books.accounted kind
  · rw [same]
    have nonneg := count_nonneg pool.close Phase.seeking seeking_nonneg kind
    simp only [Lane.close, List.length_nil]
    omega
  · constructor
    case listed =>
      intro opened
      cases opened
    case named =>
      intro kind priority ticket call member
      rw [same] at member
      cases member
    case ordered =>
      intro kind priority
      rw [same]
      exact .nil
    case issued =>
      intro kind priority ticket member
      rw [same] at member
      cases member
  · intro ticket call found queued handed
    rw [phase, close, found, Option.map_some, queued] at handed
    cases handed
  · intro kind
    rw [same]
    exact Nat.le_refl _

theorem step_settled (event : Event) (steady : pool.Steady event) : Settled capacity pool (pool.step event) := by
  cases event with
  | acquire kind priority => exact acquire_settled capacity pool books waiting kind priority
  | dropIdle => exact dropIdle_settled capacity pool books waiting
  | close => exact close_settled capacity pool books
  | call ticket event =>
    simp only [step]
    cases found : pool.calls.get ticket with
    | none => exact settled_same capacity pool books waiting
    | some call =>
      have named := ((pool.calls.get_eq_some ticket call).mp found).2
      have steadily := steady call found
      subst named
      cases event with
      | poll => exact poll_settled capacity pool books waiting call found
      | elapse => exact elapse_settled capacity pool books waiting call found
      | giveUp => exact (giveUp_turn capacity pool books waiting call found).1 steadily
      | look now => exact look_settled capacity pool books waiting call found now
      | openDone => exact openDone_settled capacity pool books waiting call found
      | openFailed => exact openFailed_settled capacity pool books waiting call found
      | checkOut => exact checkOut_settled capacity pool books waiting call found
      | setDiscard discard => exact setDiscard_settled capacity pool books waiting call found discard
      | giveBack now => exact giveBack_settled capacity pool books waiting call found now
      | dropped => exact (dropped_turn capacity pool books waiting call found).1 steadily

theorem step_unsettled (event : Event) (unsteady : ¬ pool.Steady event) :
    ∃ kind spare room, spare kind ≠ 0 ∧ Turn capacity pool (pool.step event) spare room := by
  -- An unsteady step leaves a lane with a slot too few, or one too many.
  cases event with
  | call ticket event =>
    simp only [Steady, not_forall] at unsteady
    obtain ⟨call, found, astray⟩ := unsteady
    have named := ((pool.calls.get_eq_some ticket call).mp found).2
    subst named
    simp only [step, found]
    cases event with
    | giveUp =>
      have turn := (giveUp_turn capacity pool books waiting call found).2 astray
      exact ⟨call.lane, _, _, by simp [only], turn⟩
    | dropped =>
      obtain ⟨room, turn⟩ := (dropped_turn capacity pool books waiting call found).2 astray
      exact ⟨call.lane, _, room, by simp [only], turn⟩
    | _ => exact absurd trivial astray
  | _ => exact absurd trivial unsteady

end

def held : Int := pool.count Phase.connections kind

def AtRest : Prop :=
  ∀ call ∈ pool.calls.rows, call.lane = kind -> ∃ session discard, call.phase = .holding session discard

/-- What one step is to leave of the slots of a pool built with a configuration. -/
structure Conserves (config : PoolConfig) (before after : ConnectionPool) : Prop where
  -- A slot on its way to a caller counts as that caller's.
  accounted : ∀ kind, (after.lane kind).permits + after.count Phase.slots kind = config.slots kind
  atRest : ∀ kind, after.AtRest kind -> (after.lane kind).permits + after.held kind = config.slots kind
  bounded : ∀ kind, after.held kind + (after.lane kind).parked.length ≤ config.slots kind
  served : before.closed = false -> ServedWell before after

theorem count_seeking_add :
    pool.count Phase.seeking kind + pool.held kind ≤ pool.count Phase.slots kind := by
  have walk (calls : List Call) :
      (calls.map (fun call => if call.lane = kind then call.phase.seeking else 0)).sum +
        (calls.map (fun call => if call.lane = kind then call.phase.connections else 0)).sum ≤
      (calls.map (fun call => if call.lane = kind then call.phase.slots else 0)).sum := by
    induction calls with
    | nil => simp
    | cons call rest ih =>
      have here := call.phase.seeking_add_connections
      simp only [List.map_cons, List.sum_cons]
      split <;> omega
  exact walk pool.calls.rows

theorem held_of_atRest (rest : pool.AtRest kind) :
    pool.held kind = pool.count Phase.slots kind := by
  have same : pool.calls.rows.map (fun call => if call.lane = kind then call.phase.connections else 0) =
      pool.calls.rows.map (fun call => if call.lane = kind then call.phase.slots else 0) := by
    refine List.map_congr_left (fun call member => ?_)
    split
    next here =>
      obtain ⟨session, discard, holding⟩ := rest call member here
      rw [holding]
      rfl
    next => rfl
  exact congrArg List.sum same

theorem conserves_of_settled (before after : ConnectionPool)
    (settled : Settled config.slots before after) : Conserves config before after := by
  have accounted (kind : LaneKind) : (after.lane kind).permits + after.count Phase.slots kind = config.slots kind := by
    have sum := settled.books.accounted kind
    omega
  constructor
  · exact accounted
  · intro kind rest
    rw [held_of_atRest after kind rest]
    exact accounted kind
  · intro kind
    have sum := accounted kind
    have parked := settled.books.parked kind
    have split := count_seeking_add after kind
    omega
  · exact settled.served

theorem books_new : Books config.slots (new config) (fun _ => 0) (fun _ => 0) := by
  constructor
  · intro kind
    cases kind <;> simp [new, lane, Lane.withPermits, count, Table.total, Table.empty]
  · intro kind
    cases kind <;> simp [new, lane, Lane.withPermits, count, Table.total, Table.empty]

theorem conserves_iff (sound : Books config.slots pool (fun _ => 0) (fun _ => 0) ∧ pool.Waiting) (event : Event) :
    Conserves config pool (pool.step event) <-> pool.Steady event := by
  constructor
  · intro conserves
    by_contra unsteady
    obtain ⟨kind, spare, room, amiss, turn⟩ := step_unsettled config.slots pool sound.1 sound.2 event unsteady
    have left := turn.books.accounted kind
    have kept := conserves.accounted kind
    omega
  · intro steady
    exact conserves_of_settled config pool _ (step_settled config.slots pool sound.1 sound.2 event steady)

/-- The slots of a pool are conserved, and handed on in order, throughout a run exactly when no future that owns a slot
is dropped and no wait that ran out without a slot has its entry taken from the queue before it takes it back. -/
theorem slots_conserved_iff (events : List Event) :
    Run.Along step (fun pool event => Conserves config pool (pool.step event)) (new config) events <->
      Run.Along step Steady (new config) events := by
  refine Run.along_iff step (fun pool => Books config.slots pool (fun _ => 0) (fun _ => 0) ∧ pool.Waiting) _ _ ?_ ?_
    (new config) events ⟨books_new config, waiting_new config⟩
  · intro pool event sound steady
    have settled := step_settled config.slots pool sound.1 sound.2 event steady
    exact ⟨settled.books, settled.waiting⟩
  · intro pool event sound
    exact conserves_iff config pool sound event

/-- The only connection is being opened when its caller goes away: nothing is in flight, and no slot is left. Where a
wait runs out just before the slot is released, the release passes it over and its own giving up releases the slot
again, so one connection too many may be opened. -/
theorem dropped_opening_not_conserved :
    (¬ Run.Along step (fun pool event => Conserves ⟨1, 5, false⟩ pool (pool.step event)) (new ⟨1, 5, false⟩)
      [.acquire .general .interactive, .call 1 (.look 0), .call 1 .dropped]) ∧
    ¬ Run.Along step (fun pool event => Conserves ⟨1, 5, false⟩ pool (pool.step event)) (new ⟨1, 5, false⟩)
      [.acquire .general .interactive, .call 1 (.look 0), .call 1 .openDone, .call 1 .checkOut,
        .acquire .general .background, .call 2 .elapse, .call 1 (.giveBack 1), .call 2 .giveUp] := by
  constructor
  · intro kept
    have lost := kept.2.2.1.accounted .general
    exact absurd lost (by decide)
  · intro kept
    have doubled := kept.2.2.2.2.2.2.2.1.accounted .general
    exact absurd doubled (by decide)

end ConnectionPool

end Postio.Pool

import Postio.Imap.SlotsConserved

set_option autoImplicit false

namespace Postio.Pool

namespace Phase

def session : Phase -> Option Nat
  | .ready session => some session
  | .holding session _ => some session
  | _ => none

def lent : Phase -> Bool
  | .holding _ _ => true
  | _ => false

end Phase

namespace ConnectionPool

variable (pool : ConnectionPool)

def sessions : List Nat :=
  (pool.general.parked ++ pool.watch.parked).map (fun parked => parked.session) ++
    pool.calls.rows.filterMap (fun call => call.phase.session)

/-! ### A ledger over the parked and the lent -/

section

-- What a session weighs, and what it weighs more while it is in use.
variable (grip : Nat -> Int) (fee : Int)

variable (pool : ConnectionPool) (lane : Lane) (kind : LaneKind) (ticket : Nat) (phase : Phase) (call : Call)

def gripOf : Int := (phase.session.map grip).getD 0 + if phase.lent then fee else 0

def shelf : Int := (lane.parked.map (fun parked => grip parked.session)).sum

def balance : Int :=
  shelf grip pool.general + shelf grip pool.watch + pool.calls.total (fun call => gripOf grip fee call.phase) -
    fee * pool.inUse

theorem balance_putLane (lane : Lane) :
    balance grip fee (pool.putLane kind lane) =
      balance grip fee pool - shelf grip (pool.lane kind) + shelf grip lane := by
  cases kind <;> simp only [balance, putLane, ConnectionPool.lane] <;> omega

theorem balance_putPhase (found : pool.calls.get ticket = some call) :
    balance grip fee (pool.putPhase ticket phase) =
      balance grip fee pool - gripOf grip fee call.phase + gripOf grip fee phase := by
  have updated := pool.calls.total_updateAt ticket (fun call => { call with phase := phase }) (fun _ => rfl)
    (fun call => gripOf grip fee call.phase) call found
  simp only [balance, putPhase, updated]
  omega

theorem balance_gone (found : pool.calls.get ticket = some call) :
    balance grip fee (pool.gone ticket) = balance grip fee pool - gripOf grip fee call.phase := by
  have removed := pool.calls.total_removeAt ticket (fun call => gripOf grip fee call.phase) call found
  simp only [balance, gone, removed]
  omega

theorem balance_release :
    balance grip fee (pool.release kind) = balance grip fee pool := by
  unfold release
  rcases (pool.lane kind).releasePermit_cases pool.listens with ⟨left, same, back⟩ |
    ⟨left, priority, ticket, same, served⟩
  · simp only [same]
    rw [balance_putLane, shelf, shelf, back.parked]
    omega
  · have hears := served.hears
    simp only [listens, phase, decide_eq_true_eq, Option.map_eq_some_iff] at hears
    obtain ⟨call, found, queued⟩ := hears
    simp only [same]
    rw [balance_putPhase grip fee _ ticket .handed call (by rw [putLane_calls]; exact found), balance_putLane, queued,
      shelf, shelf, served.parked]
    simp [gripOf, Phase.session, Phase.lent]

theorem takeParked_shelf (idleTimeout now : Nat) : ∃ dropped : List Nat,
    shelf grip lane = (dropped.map grip).sum + ((lane.takeParked idleTimeout now).2.map grip).getD 0 +
      shelf grip (lane.takeParked idleTimeout now).1 := by
  let stale := fun parked : Parked => decide (¬ now - parked.since < idleTimeout)
  have parted : lane.parked.takeWhile stale ++ lane.parked.dropWhile stale = lane.parked :=
    List.takeWhile_append_dropWhile ..
  refine ⟨(lane.parked.takeWhile stale).map (fun parked => parked.session), ?_⟩
  have split : shelf grip lane = (((lane.parked.takeWhile stale).map (fun parked => parked.session)).map grip).sum +
      ((lane.parked.dropWhile stale).map (fun parked => grip parked.session)).sum := by
    have whole := congrArg (fun parked => (parked.map (fun parked : Parked => grip parked.session)).sum) parted
    rw [List.map_append, List.sum_append] at whole
    rw [shelf, ← whole, List.map_map]
    rfl
  rw [split, Lane.takeParked]
  cases lane.parked.dropWhile stale with
  | nil => simp [shelf]
  | cons parked rest =>
    simp [shelf]
    omega

@[simp]
theorem putLane_opened (lane : Lane) : (pool.putLane kind lane).opened = pool.opened:= by
  cases kind <;> rfl

@[simp]
theorem putPhase_opened : (pool.putPhase ticket phase).opened = pool.opened:= rfl

@[simp]
theorem gone_opened : (pool.gone ticket).opened = pool.opened := rfl

@[simp]
theorem release_opened : (pool.release kind).opened = pool.opened := by
  unfold release
  split <;> simp

def Booked (before after : ConnectionPool) : Prop :=
  ∃ dropped : List Nat,
    after.opened = before.opened ∧ balance grip fee after + (dropped.map grip).sum = balance grip fee before ∨
    after.opened = before.opened + 1 ∧ balance grip fee after = balance grip fee before + grip after.opened

theorem booked_same (before after : ConnectionPool) (opened : after.opened = before.opened)
    (same : balance grip fee after = balance grip fee before) : Booked grip fee before after :=
  ⟨[], .inl ⟨opened, by simpa using same⟩⟩

theorem booked_look (now : Nat) (call : Call)
    (found : pool.calls.get ticket = some call) : Booked grip fee pool (pool.look call now) := by
  have named := ((pool.calls.get_eq_some ticket call).mp found).2
  subst named
  unfold look
  split
  next granted =>
    have idle : gripOf grip fee call.phase = 0 := by simp [granted, gripOf, Phase.session, Phase.lent]
    split
    next =>
      refine booked_same grip fee _ _ (by simp) ?_
      rw [balance_release, balance_gone _ _ _ _ call found, idle]
      omega
    next =>
      obtain ⟨dropped, split⟩ := takeParked_shelf grip (pool.lane call.lane) pool.config.idleTimeout now
      cases taken : (pool.lane call.lane).takeParked pool.config.idleTimeout now with
      | mk lane session =>
        rw [taken] at split
        have still : (pool.putLane call.lane lane).calls.get call.ticket = some call := by
          rw [putLane_calls]
          exact found
        have given (phase : Phase) (grips : gripOf grip fee phase = (session.map grip).getD 0) :
            Booked grip fee pool ((pool.putLane call.lane lane).putPhase call.ticket phase) := by
          refine ⟨dropped, .inl ⟨by simp, ?_⟩⟩
          dsimp only at split
          rw [balance_putPhase grip fee _ _ _ call still, balance_putLane, idle, split, grips]
          omega
        cases session with
        | none => exact given _ rfl
        | some session => exact given _ (by simp [gripOf, Phase.session, Phase.lent])
  next => exact booked_same grip fee _ _ rfl rfl

theorem booked_giveUp (found : pool.calls.get ticket = some call) :
    Booked grip fee pool (pool.giveUp call) := by
  have named := ((pool.calls.get_eq_some ticket call).mp found).2
  subst named
  unfold giveUp
  split
  next sent elapsed =>
    have idle : gripOf grip fee call.phase = 0 := by simp [elapsed, gripOf, Phase.session, Phase.lent]
    rcases (pool.lane call.lane).cancel_cases call.ticket with ⟨left, same, -, cancelled⟩ | ⟨same, -⟩
    next =>
      rw [same]
      refine booked_same grip fee _ _ (by simp) ?_
      dsimp only
      rw [balance_gone grip fee _ _ call (by rw [putLane_calls]; exact found), balance_putLane, idle, shelf, shelf,
        cancelled.parked]
      omega
    next =>
      rw [same]
      refine booked_same grip fee _ _ (by simp) ?_
      dsimp only
      rw [balance_release, balance_gone _ _ _ _ call found, idle]
      omega
  next => exact booked_same grip fee _ _ rfl rfl

theorem booked_giveBack (now : Nat) (call : Call)
    (found : pool.calls.get ticket = some call) (counted : call.phase.lent = true -> 0 < pool.inUse) :
    Booked grip fee pool (pool.giveBack call now) := by
  have named := ((pool.calls.get_eq_some ticket call).mp found).2
  subst named
  unfold giveBack
  split
  next session discard lent =>
    have some_lent : 0 < pool.inUse := counted (by rw [lent]; rfl)
    have fewer : balance grip fee { pool with inUse := pool.inUse - 1 } = balance grip fee pool + fee := by
      have one : ((pool.inUse - 1 : Nat) : Int) = (pool.inUse : Int) - 1 := by omega
      simp only [balance, one, Int.mul_sub]
      omega
    have held : gripOf grip fee call.phase = grip session + fee := by simp [lent, gripOf, Phase.session, Phase.lent]
    have left : balance grip fee (({ pool with inUse := pool.inUse - 1 } : ConnectionPool).gone call.ticket) +
        grip session = balance grip fee pool := by
      have removed := balance_gone grip fee { pool with inUse := pool.inUse - 1 } call.ticket call found
      rw [fewer, held] at removed
      omega
    dsimp only
    split
    next => exact ⟨[session], .inl ⟨by simp, by simpa [balance_release] using left⟩⟩
    next =>
      refine booked_same grip fee _ _ (by simp [park]) ?_
      rw [balance_release, park, balance_putLane, shelf, shelf, List.map_cons, List.sum_cons]
      dsimp only
      omega
  next => exact booked_same grip fee _ _ rfl rfl

theorem booked_callStep (event : CallEvent)
    (found : pool.calls.get ticket = some call) (counted : call.phase.lent = true -> 0 < pool.inUse) :
    Booked grip fee pool (pool.callStep call event) := by
  have named := ((pool.calls.get_eq_some ticket call).mp found).2
  subst named
  have moved (phase : Phase) (same : gripOf grip fee call.phase = gripOf grip fee phase) :
      Booked grip fee pool (pool.putPhase call.ticket phase) :=
    booked_same grip fee _ _ rfl (by rw [balance_putPhase grip fee _ _ _ call found, same]; omega)
  have left (idle : gripOf grip fee call.phase = 0) :
      balance grip fee (pool.gone call.ticket) = balance grip fee pool := by
    rw [balance_gone grip fee _ _ call found, idle]
    omega
  cases event with
  | look now => exact booked_look grip fee pool call.ticket now call found
  | giveUp => exact booked_giveUp grip fee pool call.ticket call found
  | giveBack now => exact booked_giveBack grip fee pool call.ticket now call found counted
  | poll =>
    rw [callStep, poll]
    split
    next phase => exact moved _ (by rw [phase]; rfl)
    next phase =>
      split
      next => exact booked_same grip fee _ _ rfl rfl
      next => exact booked_same grip fee _ _ rfl (left (by rw [phase]; rfl))
    next => exact booked_same grip fee _ _ rfl rfl
  | elapse =>
    rw [callStep, elapse]
    split
    next phase => exact moved _ (by rw [phase]; rfl)
    next phase => exact moved _ (by rw [phase]; rfl)
    next => exact booked_same grip fee _ _ rfl rfl
  | openDone =>
    rw [callStep, openDone]
    split
    next phase =>
      have idle : gripOf grip fee call.phase = 0 := by rw [phase]; rfl
      refine ⟨[], .inr ⟨rfl, ?_⟩⟩
      have put := balance_putPhase grip fee { pool with opened := pool.opened + 1 } call.ticket
        (.ready (pool.opened + 1)) call found
      rw [idle] at put
      rw [put]
      simp [balance, gripOf, Phase.session, Phase.lent]
    next => exact booked_same grip fee _ _ rfl rfl
  | openFailed =>
    rw [callStep, openFailed]
    split
    next phase => exact booked_same grip fee _ _ (by simp) (by rw [balance_release, left (by rw [phase]; rfl)])
    next => exact booked_same grip fee _ _ rfl rfl
  | checkOut =>
    rw [callStep, checkOut]
    split
    next session phase =>
      refine booked_same grip fee _ _ rfl ?_
      have put := balance_putPhase grip fee { pool with inUse := pool.inUse + 1 } call.ticket (.holding session false)
        call found
      rw [phase] at put
      rw [put]
      simp [balance, gripOf, Phase.session, Phase.lent, Int.mul_add]
      omega
    next => exact booked_same grip fee _ _ rfl rfl
  | setDiscard discard =>
    rw [callStep, setDiscard]
    split
    next phase => exact moved _ (by rw [phase]; rfl)
    next => exact booked_same grip fee _ _ rfl rfl
  | dropped =>
    rw [callStep, dropped]
    split
    next phase => exact booked_same grip fee _ _ rfl (left (by rw [phase]; rfl))
    next phase => exact booked_same grip fee _ _ rfl (left (by rw [phase]; rfl))
    next phase => exact booked_same grip fee _ _ rfl (left (by rw [phase]; rfl))
    next => exact booked_same grip fee _ _ rfl rfl

theorem takePermit_parked (priority : Priority) (ticket : Nat) :
    (lane.takePermit priority ticket).1.parked = lane.parked := by
  unfold Lane.takePermit
  split <;> rfl

theorem booked_step (event : Event) (counted : ∀ call ∈ pool.calls.rows, call.phase.lent = true -> 0 < pool.inUse) :
    Booked grip fee pool (pool.step event) := by
  have shelves (lane : Lane) : shelf grip lane = ((lane.parked.map (fun parked => parked.session)).map grip).sum := by
    rw [shelf, List.map_map]
    rfl
  have emptied (after : ConnectionPool) (general : after.general.parked = []) (watch : after.watch.parked = [])
      (calls : after.calls = pool.calls) (inUse : after.inUse = pool.inUse) (opened : after.opened = pool.opened) :
      Booked grip fee pool after := by
    refine ⟨(pool.general.parked ++ pool.watch.parked).map (fun parked => parked.session), .inl ⟨opened, ?_⟩⟩
    rw [List.map_append, List.map_append, List.sum_append, ← shelves, ← shelves]
    simp only [balance, calls, inUse]
    rw [shelf, shelf, general, watch]
    simp
    omega
  cases event with
  | acquire kind priority =>
    unfold step acquire
    dsimp only
    split
    next => exact booked_same grip fee _ _ rfl rfl
    next =>
      refine booked_same grip fee _ _ (by simp) ?_
      have lanes := balance_putLane grip fee pool (pool.resolve kind)
        ((pool.lane (pool.resolve kind)).takePermit priority pool.calls.nextId).1
      rw [shelf, shelf, takePermit_parked, Int.sub_add_cancel] at lanes
      have idle (taken : Bool) : gripOf grip fee (if taken then .granted else .queued) = 0 := by cases taken <;> rfl
      rw [← lanes]
      simp only [balance, Table.total_insert, putLane_calls, idle]
      omega
  | call ticket event =>
    unfold step
    dsimp only
    split
    next => exact booked_same grip fee _ _ rfl rfl
    next call found =>
      have member := ((pool.calls.get_eq_some ticket call).mp found).1
      exact booked_callStep grip fee pool ticket call event found (counted call member)
  | dropIdle => exact emptied _ rfl rfl rfl rfl rfl
  | close => exact emptied _ rfl rfl rfl rfl rfl

end

def single (session other : Nat) : Int := if other = session then 1 else 0

theorem count_single (session : Nat) (values : List Nat) :
    (values.map (single session)).sum = values.count session := by
  induction values with
  | nil => rfl
  | cons value values ih =>
    rw [List.map_cons, List.sum_cons, ih, single, List.count_cons]
    by_cases same : value = session <;> simp [same]
    omega

theorem gripOf_single (session : Nat) (calls : List Call) :
    (calls.map (fun call => gripOf (single session) 0 call.phase)).sum =
      (calls.filterMap (fun call => call.phase.session)).count session := by
  induction calls with
  | nil => rfl
  | cons call calls ih =>
    rw [List.map_cons, List.sum_cons, ih, ← count_single, ← count_single, gripOf]
    cases held : call.phase.session <;> simp [held]

theorem balance_single (session : Nat) :
    balance (single session) 0 pool = (sessions pool).count session := by
  have shelves (lane : Lane) :
      shelf (single session) lane = (lane.parked.map (fun parked => parked.session)).count session := by
    rw [← count_single, List.map_map]
    rfl
  rw [sessions, List.count_append, List.map_append, List.count_append, balance, shelves, shelves, Table.total,
    gripOf_single]
  omega

theorem balance_lent :
    balance (fun _ => 0) 1 pool =
      ((pool.calls.rows.filter (fun call => call.phase.lent)).length : Int) - pool.inUse := by
  have shelves (lane : Lane) : shelf (fun _ => 0) lane = 0 := by simp [shelf]
  have lent (calls : List Call) : (calls.map (fun call => gripOf (fun _ => 0) 1 call.phase)).sum =
      (calls.filter (fun call => call.phase.lent)).length := by
    induction calls with
    | nil => rfl
    | cons call calls ih =>
      rw [List.map_cons, List.sum_cons, ih, gripOf, List.filter_cons]
      cases call.phase.session <;> split <;> simp <;> omega
  rw [balance, shelves, shelves, Table.total, lent]
  omega

/-! ### Every run -/

structure Kept (pool : ConnectionPool) : Prop where
  once : ∀ session, (sessions pool).count session ≤ if 0 < session ∧ session ≤ pool.opened then 1 else 0
  counted : pool.inUse = (pool.calls.rows.filter (fun call => call.phase.lent)).length

def Bare : Prop :=
  pool.closed = true ∧ ∀ kind, (pool.lane kind).parked = [] ∧ ∀ priority, (pool.lane kind).waiters priority = []

theorem bare_congr (after : ConnectionPool) (bare : pool.Bare) (closed : after.closed = pool.closed)
    (lanes : ∀ kind, after.lane kind = pool.lane kind) : after.Bare := by
  refine ⟨closed.trans bare.1, fun kind => ?_⟩
  rw [lanes]
  exact bare.2 kind

theorem bare_release (kind : LaneKind) (bare : pool.Bare) : (pool.release kind).Bare := by
  unfold release
  rcases (pool.lane kind).releasePermit_cases pool.listens with ⟨left, same, back⟩ |
    ⟨left, priority, ticket, same, served⟩
  next =>
    rw [same]
    refine ⟨by simpa using bare.1, fun other => ?_⟩
    dsimp only
    rw [lane_putLane]
    split
    next => exact ⟨back.parked.trans (bare.2 kind).1, back.emptied⟩
    next => exact bare.2 other
  next =>
    have queued := served.queued
    rw [(bare.2 kind).2] at queued
    cases queued

theorem bare_callStep (call : Call) (event : CallEvent) (bare : pool.Bare) :
    (pool.callStep call event).Bare := by
  have put (ticket : Nat) (phase : Phase) : (pool.putPhase ticket phase).Bare :=
    bare_congr pool _ bare rfl (fun kind => lane_putPhase pool ticket phase kind)
  have left : (pool.gone call.ticket).Bare := bare_congr pool _ bare rfl (fun kind => lane_gone pool call.ticket kind)
  have figures (inUse opened : Nat) (calls : Table Call Call.ticket) :
      ({ pool with inUse := inUse, opened := opened, calls := calls } : ConnectionPool).Bare :=
    bare_congr pool _ bare rfl (fun kind => by cases kind <;> rfl)
  cases event with
  | poll =>
    rw [callStep, poll]
    split
    next => exact put _ _
    next =>
      split
      next => exact bare
      next => exact left
    next => exact bare
  | elapse =>
    rw [callStep, elapse]
    split
    next => exact put _ _
    next => exact put _ _
    next => exact bare
  | giveUp =>
    rw [callStep, giveUp]
    split
    next =>
      rcases (pool.lane call.lane).cancel_cases call.ticket with ⟨_, _, ⟨priority, queued⟩, _⟩ | ⟨same, -⟩
      next =>
        rw [(bare.2 call.lane).2] at queued
        cases queued
      next =>
        rw [same]
        exact bare_release _ _ left
    next => exact bare
  | look now =>
    rw [callStep, look]
    split
    next =>
      rw [if_pos bare.1]
      exact bare_release _ _ left
    next => exact bare
  | openDone =>
    rw [callStep, openDone]
    split
    next => exact figures _ _ _
    next => exact bare
  | openFailed =>
    rw [callStep, openFailed]
    split
    next => exact bare_release _ _ left
    next => exact bare
  | checkOut =>
    rw [callStep, checkOut]
    split
    next => exact figures _ _ _
    next => exact bare
  | setDiscard discard =>
    rw [callStep, setDiscard]
    split
    next => exact put _ _
    next => exact bare
  | giveBack now =>
    rw [callStep, giveBack]
    split
    next =>
      dsimp only
      rw [if_pos (.inr bare.1)]
      exact bare_release _ _ (figures _ _ _)
    next => exact bare
  | dropped =>
    rw [callStep, dropped]
    split
    next => exact left
    next => exact left
    next => exact left
    next => exact bare

theorem bare_close : pool.close.Bare :=
  ⟨rfl, fun kind => by cases kind <;> exact ⟨rfl, fun _ => rfl⟩⟩

theorem bare_step (event : Event) (bare : pool.Bare) : (pool.step event).Bare := by
  cases event with
  | acquire kind priority =>
    rw [step, acquire]
    dsimp only
    rw [if_pos bare.1]
    exact bare
  | call ticket event =>
    rw [step]
    split
    next => exact bare
    next call found => exact bare_callStep pool call event bare
  | dropIdle =>
    refine ⟨bare.1, fun kind => ?_⟩
    cases kind with
    | general => exact ⟨rfl, (bare.2 .general).2⟩
    | watch => exact ⟨rfl, (bare.2 .watch).2⟩
  | close => exact bare_close pool

theorem lent_counted (kept : pool.Kept) (call : Call) (member : call ∈ pool.calls.rows)
    (lent : call.phase.lent = true) : 0 < pool.inUse := by
  rw [kept.counted]
  exact List.length_pos_of_mem (List.mem_filter.mpr ⟨member, lent⟩)

theorem kept_step (event : Event) (kept : pool.Kept) : (pool.step event).Kept := by
  have counted := lent_counted pool kept
  constructor
  case once =>
    intro session
    have before := kept.once session
    have booked := booked_step (single session) 0 pool event counted
    simp only [Booked, balance_single] at booked
    have weighed (values : List Nat) : 0 ≤ (values.map (single session)).sum := by rw [count_single]; omega
    obtain ⟨dropped, ⟨opened, same⟩ | ⟨opened, more⟩⟩ := booked
    next =>
      have gone := weighed dropped
      have fewer : (sessions (pool.step event)).count session ≤ (sessions pool).count session := by omega
      rw [opened]
      exact fewer.trans before
    next =>
      rw [opened, single] at more
      rw [opened]
      -- The session opened now is above every one there was.
      by_cases next : pool.opened + 1 = session
      next =>
        rw [if_neg (by omega)] at before
        rw [if_pos next] at more
        rw [if_pos (by omega)]
        omega
      next =>
        rw [if_neg next] at more
        split at before <;> split <;> omega
  case counted =>
    have booked := booked_step (fun _ => 0) 1 pool event counted
    have before := kept.counted
    simp only [Booked, balance_lent, List.map_const', List.sum_replicate] at booked
    obtain ⟨dropped, ⟨-, same⟩ | ⟨-, same⟩⟩ := booked <;> simp at same <;> omega

theorem kept_new (config : PoolConfig) : (new config).Kept := ⟨fun _ => Nat.zero_le _, rfl⟩

/-- In every run each session is parked or in one caller's hands and never both, `in_use` is the number of guards that
are out, and once the pool is closed nothing is parked and nobody is queued. -/
theorem sessions_exclusive (config : PoolConfig) (events : List Event) :
    (sessions (Run.run step (new config) events)).Nodup ∧
      (∀ session ∈ sessions (Run.run step (new config) events),
        0 < session ∧ session ≤ (Run.run step (new config) events).opened) ∧
      (Run.run step (new config) events).inUse =
        ((Run.run step (new config) events).calls.rows.filter (fun call => call.phase.lent)).length ∧
      (.close ∈ events -> (Run.run step (new config) events).Bare) := by
  have kept := Run.run_kept step Kept kept_step (new config) events (kept_new config)
  refine ⟨List.nodup_iff_count_le_one.mpr fun session => ?_, fun session inside => ?_, kept.counted, fun closed => ?_⟩
  · have once := kept.once session
    split at once <;> omega
  · have once := kept.once session
    have some_here := List.count_pos_iff.mpr inside
    split at once
    next within => exact within
    next => omega
  · obtain ⟨before, after, rfl⟩ := List.append_of_mem closed
    rw [Run.run_append, Run.run_cons]
    exact Run.run_kept step Bare bare_step _ after (bare_close _)

end ConnectionPool

end Postio.Pool

import Postio.Account.SingleFlight

set_option autoImplicit false

namespace Postio.SingleFlight.Flights

variable {Key T : Type} [DecidableEq Key]

variable (flights : Flights Key T) (events : List (Event Key T)) (caller : Caller Key T)

omit [DecidableEq Key] in
theorem get_lt_next (id : Nat) (caller : Caller Key T)
    (found : flights.callers.get id = some caller) : id < flights.callers.nextId := by
  obtain ⟨member, named⟩ := (flights.callers.get_eq_some id caller).mp found
  have issued := flights.callers.issued caller member
  omega

omit [DecidableEq Key] in
theorem left_of_registered (sound : Sound flights) (id : Nat) (caller : Caller Key T)
    (found : flights.callers.get id = some caller) (registered : caller.phase.registered = true) :
    caller.left = none := by
  have told := sound.told id caller found
  cases stage : caller.phase with
  | leading =>
    rw [stage] at told
    exact told.1
  | finished outcome =>
    rw [stage] at told
    exact told.1
  | dropping =>
    rw [stage] at told
    exact told
  | _ =>
    rw [stage] at registered
    cases registered

/-- A caller arrives under a fresh id. -/
structure Joined (flights after : Flights Key T) (arrival : Caller Key T) : Prop where
  callers : ∀ id, after.callers.get id =
    if id = flights.callers.nextId then some arrival else flights.callers.get id
  channels : ∀ id, id ≠ flights.callers.nextId -> after.channels id = flights.channels id
  clock : after.clock = flights.clock + 1
  calledAt : arrival.calledAt = flights.clock
  inflight : ∀ key, after.inflight key =
    if key = arrival.key ∧ arrival.phase.registered = true then some flights.callers.nextId else flights.inflight key
  free : arrival.phase.registered = true -> flights.inflight arrival.key = none
  flies : arrival.phase.flies = true -> after.channels flights.callers.nextId = { value := none, sender := true }

theorem sound_joined (after : Flights Key T) (arrival : Caller Key T) (sound : Sound flights)
    (joined : Joined flights after arrival) (told : Told after arrival arrival.phase) : Sound after := by
  have fresh (id : Nat) (caller : Caller Key T) (found : flights.callers.get id = some caller) :
      id ≠ flights.callers.nextId := Nat.ne_of_lt (get_lt_next flights id caller found)
  have onward : Onward flights after := by
    constructor
    intro id other found
    have apart := fresh id other found
    refine ⟨other, by rw [joined.callers, if_neg apart, found], rfl, fun _ ended => ended, fun _ left => .inl left,
      fun gone => gone, fun cancelled => cancelled, ?_⟩
    intro followed
    simpa only [Followed, joined.channels id apart] using followed
  constructor
  case registry =>
    intro key id
    rw [joined.inflight]
    split
    next claimed =>
      obtain ⟨same, registered⟩ := claimed
      constructor
      · intro named
        cases named
        exact ⟨arrival, by rw [joined.callers, if_pos rfl], same.symm, registered⟩
      · rintro ⟨other, found, named, there⟩
        rw [joined.callers] at found
        split at found
        next here => rw [here]
        next =>
          have taken := (sound.registry key id).mpr ⟨other, found, named, there⟩
          rw [same, joined.free registered] at taken
          cases taken
    next unclaimed =>
      rw [sound.registry]
      constructor
      · rintro ⟨other, found, named, there⟩
        exact ⟨other, by rw [joined.callers, if_neg (fresh id other found), found], named, there⟩
      · rintro ⟨other, found, named, there⟩
        rw [joined.callers] at found
        split at found
        next =>
          cases found
          exact absurd ⟨named.symm, there⟩ unclaimed
        next => exact ⟨other, found, named, there⟩
  case channel =>
    intro id other found flying
    rw [joined.callers] at found
    split at found
    next here =>
      cases found
      rw [here]
      exact joined.flies flying
    next apart =>
      rw [joined.channels id apart]
      exact sound.channel id other found flying
  case told =>
    intro id other found
    rw [joined.callers] at found
    split at found
    next =>
      cases found
      exact told
    next => exact told_kept flights after onward other (sound.past id other found) _ (sound.told id other found)
  case past =>
    intro id other found
    rw [joined.callers] at found
    rw [joined.clock]
    split at found
    next =>
      cases found
      rw [joined.calledAt]
      exact Nat.lt_succ_self _
    next => exact Nat.lt_succ_of_lt (sound.past id other found)

theorem sound_call (sound : Sound flights) (key : Key) : Sound (flights.call key).tick := by
  have looks (phase : Phase T) (id : Nat) := flights.callers.get_insert
    (fun id => { id := id, key := key, calledAt := flights.clock, phase := phase, ended := none, left := none })
    (fun _ => rfl) id
  unfold call
  cases entry : flights.inflight key with
  | some leader =>
    obtain ⟨other, found, named, registered⟩ := (sound.registry key leader).mp entry
    have apart := Nat.ne_of_lt (get_lt_next flights leader other found)
    refine sound_joined flights _
      { id := flights.callers.nextId, key := key, calledAt := flights.clock, phase := .following leader, ended := none,
        left := none } sound ?_ ?_
    · constructor
      case callers => exact looks (.following leader)
      case channels => exact fun _ _ => rfl
      case clock => rfl
      case calledAt => rfl
      case inflight => exact fun _ => (if_neg (by simp [Phase.registered])).symm
      case free =>
        intro impossible
        cases impossible
      case flies =>
        intro impossible
        cases impossible
    · refine ⟨⟨rfl, rfl⟩, other, (looks (.following leader) leader).trans ?_, named, ?_,
        .inl (other.phase.flies_of_registered registered)⟩
      · rw [if_neg apart, found]
      · intro time left
        rw [left_of_registered flights sound leader other found registered] at left
        cases left
  | none =>
    refine sound_joined flights _
      { id := flights.callers.nextId, key := key, calledAt := flights.clock, phase := .leading, ended := none,
        left := none } sound ?_ ⟨rfl, rfl⟩
    constructor
    case callers => exact looks .leading
    case channels => exact fun _ apart => Function.update_of_ne apart _ _
    case clock => rfl
    case calledAt => rfl
    case inflight =>
      intro other
      simp [tick, Function.update_apply, Phase.registered]
    case free => exact fun _ => entry
    case flies => exact fun _ => Function.update_self _ _ _

omit [DecidableEq Key] in
theorem sound_tick (sound : Sound flights) : Sound flights.tick :=
  ⟨sound.registry, sound.channel, sound.told, fun id caller found => Nat.lt_succ_of_lt (sound.past id caller found)⟩

theorem sound_step (sound : Sound flights) (event : Event Key T) :
    Sound (flights.step event) := by
  cases event with
  | call key => exact sound_call flights sound key
  | act id act =>
    simp only [step]
    cases found : flights.callers.get id with
    | none => exact sound_tick flights sound
    | some caller =>
      have named := ((flights.callers.get_eq_some id caller).mp found).2
      subst named
      exact sound_tick _ (sound_act flights sound caller found act)

omit [DecidableEq Key] in
theorem sound_empty : Sound (empty : Flights Key T) := by
  constructor
  · intro key id
    constructor
    · intro impossible
      cases impossible
    · rintro ⟨caller, found, -⟩
      cases found
  · intro id caller found
    cases found
  · intro id caller found
    cases found
  · intro id caller found
    cases found

theorem sound_run : Sound (Run.run step empty events) := by
  have walk (flights : Flights Key T) (sound : Sound flights) : Sound (Run.run step flights events) := by
    induction events generalizing flights with
    | nil => exact sound
    | cons event rest ih => exact ih (flights.step event) (sound_step flights sound event)
  exact walk empty sound_empty

/-! ### Every caller comes to its end -/

def remaining : Int := flights.callers.total (fun caller => caller.phase.rank)

omit [DecidableEq Key] in
theorem remaining_putPhase (found : flights.callers.get caller.id = some caller) (phase : Phase T) :
    (flights.putPhase caller.id phase).remaining = flights.remaining - caller.phase.rank + phase.rank :=
  flights.callers.total_updateAt caller.id (fun caller => { caller with phase := phase })
    (fun _ => rfl) (fun caller => caller.phase.rank) caller found

omit [DecidableEq Key] in
theorem remaining_workEnded (found : flights.callers.get caller.id = some caller) (phase : Phase T) (outcome : T) :
    (flights.workEnded caller.id phase outcome).remaining = flights.remaining - caller.phase.rank + phase.rank :=
  flights.callers.total_updateAt caller.id (fun caller => { caller with phase := phase, ended := some (flights.clock, outcome) })
    (fun _ => rfl) (fun caller => caller.phase.rank) caller found

theorem remaining_leave (found : flights.callers.get caller.id = some caller) (phase : Phase T) :
    (flights.leave caller phase).remaining = flights.remaining - caller.phase.rank + phase.rank :=
  flights.callers.total_updateAt caller.id (fun caller => { caller with phase := phase, left := some flights.clock })
    (fun _ => rfl) (fun caller => caller.phase.rank) caller found

theorem act_nearer (found : flights.callers.get caller.id = some caller) (act : Act T) :
    flights.act caller act = flights ∨ (flights.act caller act).remaining < flights.remaining := by
  -- A step of a caller does nothing, or brings it nearer to its end.
  have moves (phase : Phase T) (lower : phase.rank < caller.phase.rank) :
      (flights.putPhase caller.id phase).remaining < flights.remaining := by
    rw [remaining_putPhase flights caller found phase]
    omega
  cases act with
  | workEnds outcome =>
    cases stage : caller.phase with
    | leading =>
      right
      simp only [Flights.act, stage]
      rw [remaining_workEnded flights caller found, stage]
      simp only [Phase.rank]
      omega
    | alone leader =>
      right
      simp only [Flights.act, stage]
      rw [remaining_workEnded flights caller found, stage]
      simp only [Phase.rank]
      omega
    | _ => exact .inl (by simp only [Flights.act, stage])
  | leave =>
    cases stage : caller.phase with
    | finished outcome =>
      right
      simp only [Flights.act, stage]
      rw [remaining_leave flights caller found, stage]
      simp only [Phase.rank]
      omega
    | dropping =>
      right
      simp only [Flights.act, stage]
      rw [remaining_leave flights caller found, stage]
      simp only [Phase.rank]
      omega
    | _ => exact .inl (by simp only [Flights.act, stage])
  | finish =>
    cases stage : caller.phase with
    | answered outcome =>
      right
      simp only [Flights.act, stage]
      exact moves _ (by rw [stage]; simp [Phase.rank])
    | closing =>
      right
      simp only [Flights.act, stage]
      exact moves _ (by rw [stage]; simp [Phase.rank])
    | _ => exact .inl (by simp only [Flights.act, stage])
  | poll =>
    cases stage : caller.phase with
    | following leader =>
      simp only [Flights.act, stage]
      split
      next => exact .inr (moves _ (by rw [stage]; simp [Phase.rank]))
      next =>
        split
        next => exact .inl rfl
        next => exact .inr (moves _ (by rw [stage]; simp [Phase.rank]))
    | _ => exact .inl (by simp only [Flights.act, stage])
  | cancel =>
    cases stage : caller.phase with
    | leading =>
      right
      simp only [Flights.act, stage]
      exact moves _ (by rw [stage]; simp [Phase.rank])
    | following leader =>
      right
      simp only [Flights.act, stage]
      exact moves _ (by rw [stage]; simp [Phase.rank])
    | alone leader =>
      right
      simp only [Flights.act, stage]
      exact moves _ (by rw [stage]; simp [Phase.rank])
    | _ => exact .inl (by simp only [Flights.act, stage])

def Nearer (id : Nat) (act : Act T) : Prop :=
  (flights.step (.act id act)).remaining < flights.remaining

def GoesOn : Prop :=
  ∃ id, (∀ outcome, flights.Nearer id (.workEnds outcome)) ∨ flights.Nearer id .leave ∨ flights.Nearer id .finish ∨
    flights.Nearer id .poll

theorem nearer_of_act (found : flights.callers.get caller.id = some caller) (act : Act T)
    (lower : (flights.act caller act).remaining < flights.remaining) : flights.Nearer caller.id act := by
  simp only [Nearer, step, found]
  exact lower

theorem goesOn_of_flies (found : flights.callers.get caller.id = some caller) (flies : caller.phase.flies = true) : flights.GoesOn := by
  refine ⟨caller.id, ?_⟩
  cases stage : caller.phase with
  | leading =>
    refine .inl (fun outcome => nearer_of_act flights caller found _ ?_)
    simp only [Flights.act, stage]
    rw [remaining_workEnded flights caller found, stage]
    simp only [Phase.rank]
    omega
  | finished outcome =>
    refine .inr (.inl (nearer_of_act flights caller found _ ?_))
    simp only [Flights.act, stage]
    rw [remaining_leave flights caller found, stage]
    simp only [Phase.rank]
    omega
  | answered outcome =>
    refine .inr (.inr (.inl (nearer_of_act flights caller found _ ?_)))
    simp only [Flights.act, stage]
    have lower := remaining_putPhase (flights.putChannel caller.id { value := some outcome, sender := false }) caller
      found (.returned outcome)
    rw [lower, stage]
    simp [Phase.rank, putChannel, remaining]
  | dropping =>
    refine .inr (.inl (nearer_of_act flights caller found _ ?_))
    simp only [Flights.act, stage]
    rw [remaining_leave flights caller found, stage]
    simp only [Phase.rank]
    omega
  | closing =>
    refine .inr (.inr (.inl (nearer_of_act flights caller found _ ?_)))
    simp only [Flights.act, stage]
    have lower := remaining_putPhase (flights.putChannel caller.id { value := none, sender := false }) caller found
      .cancelled
    rw [lower, stage]
    simp [Phase.rank, putChannel, remaining]
  | _ =>
    rw [stage] at flies
    cases flies

theorem goesOn_of_unended (sound : Sound flights) (caller : Caller Key T)
    (found : flights.callers.get caller.id = some caller) (unended : caller.phase.rank ≠ 0) : flights.GoesOn := by
  -- Nobody waits for ever: while a caller is not at its end, it or the caller it follows can go on.
  have told := sound.told caller.id caller found
  cases stage : caller.phase with
  | following leader =>
    rw [stage] at told
    obtain ⟨-, other, there, -, -, followed⟩ := told
    have lower (phase : Phase T) (less : phase.rank < 2) :
        (flights.putPhase caller.id phase).remaining < flights.remaining := by
      have two : caller.phase.rank = 2 := by rw [stage]; rfl
      rw [remaining_putPhase flights caller found, two]
      omega
    rcases followed with flies | ⟨-, -, shut⟩ | ⟨outcome, time, shut, -, -⟩
    · have named := ((flights.callers.get_eq_some leader other).mp there).2
      subst named
      exact goesOn_of_flies flights other there flies
    · refine ⟨caller.id, .inr (.inr (.inr (nearer_of_act flights caller found _ ?_)))⟩
      simp only [Flights.act, stage, shut]
      exact lower _ (by simp [Phase.rank])
    · refine ⟨caller.id, .inr (.inr (.inr (nearer_of_act flights caller found _ ?_)))⟩
      simp only [Flights.act, stage, shut]
      exact lower _ (by simp [Phase.rank])
  | alone leader =>
    refine ⟨caller.id, .inl (fun outcome => nearer_of_act flights caller found _ ?_)⟩
    simp only [Flights.act, stage]
    rw [remaining_workEnded flights caller found, stage]
    simp only [Phase.rank]
    omega
  | returned outcome =>
    rw [stage] at unended
    exact absurd rfl unended
  | cancelled =>
    rw [stage] at unended
    exact absurd rfl unended
  | _ => exact goesOn_of_flies flights caller found (by rw [stage]; rfl)

/-! ### What callers of one key share -/

def Attended : Event Key T -> Prop
  | .act id .cancel => ∀ caller, flights.callers.get id = some caller -> caller.phase ≠ .leading
  | _ => True

def AllAttended : Prop :=
  ∀ id caller, flights.callers.get id = some caller ->
    caller.phase ≠ .dropping ∧ caller.phase ≠ .closing ∧ (caller.phase = .cancelled -> caller.left = none)

omit [DecidableEq Key] in
theorem attended_put (after : Flights Key T) (attended : AllAttended flights) (id : Nat) (later : Caller Key T)
    (callers : ∀ other, after.callers.get other = if other = id then some later else flights.callers.get other)
    (kept : later.phase ≠ .dropping ∧ later.phase ≠ .closing ∧ (later.phase = .cancelled -> later.left = none)) :
    AllAttended after := by
  intro other caller found
  rw [callers] at found
  split at found
  next =>
    cases found
    exact kept
  next => exact attended other caller found

theorem attended_act (sound : Sound flights) (attended : AllAttended flights)
    (caller : Caller Key T) (found : flights.callers.get caller.id = some caller) (act : Act T)
    (allowed : act = .cancel -> caller.phase ≠ .leading) : AllAttended (flights.act caller act) := by
  have told := sound.told caller.id caller found
  have here := attended caller.id caller found
  have put (phase : Phase T)
      (kept : phase ≠ .dropping ∧ phase ≠ .closing ∧ (phase = .cancelled -> caller.left = none)) :
      AllAttended (flights.putPhase caller.id phase) := by
    exact attended_put flights _ attended caller.id _ (get_putPhase flights caller found phase) kept
  cases act with
  | workEnds outcome =>
    cases stage : caller.phase with
    | leading =>
      simp only [Flights.act, stage]
      exact attended_put flights _ attended caller.id _ (get_workEnded flights caller found (.finished outcome) outcome)
        (by simp)
    | alone leader =>
      simp only [Flights.act, stage]
      exact attended_put flights _ attended caller.id _ (get_workEnded flights caller found (.returned outcome) outcome)
        (by simp)
    | _ => simpa only [Flights.act, stage] using attended
  | leave =>
    cases stage : caller.phase with
    | finished outcome =>
      simp only [Flights.act, stage]
      exact attended_put flights _ attended caller.id _ (get_leave flights caller found (.answered outcome)) (by simp)
    | dropping => exact absurd stage here.1
    | _ => simpa only [Flights.act, stage] using attended
  | finish =>
    cases stage : caller.phase with
    | answered outcome =>
      simp only [Flights.act, stage]
      exact attended_put flights _ attended caller.id _
        (get_putPhase (flights.putChannel caller.id { value := some outcome, sender := false }) caller found
          (.returned outcome)) (by simp)
    | closing => exact absurd stage here.2.1
    | _ => simpa only [Flights.act, stage] using attended
  | poll =>
    cases stage : caller.phase with
    | following leader =>
      simp only [Flights.act, stage]
      split
      next => exact put _ (by simp)
      next =>
        split
        next => exact attended
        next => exact put _ (by simp)
    | _ => simpa only [Flights.act, stage] using attended
  | cancel =>
    cases stage : caller.phase with
    | leading => exact absurd stage (allowed rfl)
    | following leader =>
      rw [stage] at told
      simp only [Flights.act, stage]
      exact put _ ⟨by simp, by simp, fun _ => told.1.2⟩
    | alone leader =>
      rw [stage] at told
      simp only [Flights.act, stage]
      exact put _ ⟨by simp, by simp, fun _ => told.1.2⟩
    | _ => simpa only [Flights.act, stage] using attended

theorem attended_call (attended : AllAttended flights) (key : Key) :
    AllAttended (flights.call key) := by
  have joined (phase : Phase T) (kept : phase ≠ .dropping ∧ phase ≠ .closing ∧ phase ≠ .cancelled) (id : Nat)
      (caller : Caller Key T)
      (found : (flights.callers.insert
        (fun id => { id := id, key := key, calledAt := flights.clock, phase := phase, ended := none, left := none })
        (fun _ => rfl)).get id = some caller) :
      caller.phase ≠ .dropping ∧ caller.phase ≠ .closing ∧ (caller.phase = .cancelled -> caller.left = none) := by
    rw [Table.get_insert] at found
    split at found
    next =>
      cases found
      exact ⟨kept.1, kept.2.1, fun _ => rfl⟩
    next => exact attended id caller found
  unfold call
  split
  next leader _ => exact joined (.following leader) (by simp)
  next => exact joined .leading (by simp)

theorem attended_step (sound : Sound flights) (attended : AllAttended flights)
    (event : Event Key T) (allowed : flights.Attended event) : AllAttended (flights.step event) := by
  cases event with
  | call key => exact attended_call flights attended key
  | act id act =>
    simp only [step]
    cases found : flights.callers.get id with
    | none => exact attended
    | some caller =>
      have named := ((flights.callers.get_eq_some id caller).mp found).2
      subst named
      refine attended_act flights sound attended caller found act (fun cancels => ?_)
      subst cancels
      exact allowed caller found

theorem attended_run (along : Run.Along step Attended empty events) :
    AllAttended (Run.run step (empty : Flights Key T) events) := by
  have kept := Run.run_invariant step (fun flights : Flights Key T => Sound flights ∧ AllAttended flights) Attended
    (fun flights event both allowed =>
      ⟨sound_step flights both.1 event, attended_step flights both.1 both.2 event allowed⟩)
    empty events ⟨sound_empty, fun id caller found => by cases found⟩ along
  exact kept.2

/-- What the callers of a key share, in a state of a run. -/
structure Shared (flights : Flights Key T) : Prop where
  oneLeads : ∀ id other caller leader, flights.callers.get id = some caller -> flights.callers.get other = some leader ->
    caller.phase.registered = true -> leader.phase.registered = true -> caller.key = leader.key -> id = other
  -- Who runs the work without leading joined a flight whose leader was dropped.
  orphaned : ∀ id caller leader, flights.callers.get id = some caller -> caller.phase = .alone leader ->
    ∃ other, flights.callers.get leader = some other ∧ other.key = caller.key ∧ other.phase = .cancelled ∧
      other.left ≠ none
  -- An outcome is that of the caller's own work, or of a work whose caller was still registered when the caller called.
  answered : ∀ id caller outcome, flights.callers.get id = some caller -> caller.phase = .returned outcome ->
    ∃ source other time, flights.callers.get source = some other ∧ other.key = caller.key ∧
      other.ended = some (time, outcome) ∧ (source = id ∨ Fresh other caller)
  registered : ∀ key id, flights.inflight key = some id ->
    ∃ caller, flights.callers.get id = some caller ∧ caller.key = key ∧ caller.phase.registered = true
  goesOn : ∀ id caller, flights.callers.get id = some caller -> caller.phase.rank ≠ 0 -> flights.GoesOn
  nearer : ∀ id caller act, flights.callers.get id = some caller ->
    flights.act caller act = flights ∨ (flights.act caller act).remaining < flights.remaining

theorem shared_of_sound (sound : Sound flights) : Shared flights := by
  constructor
  case oneLeads =>
    intro id other caller leader found there leads also key
    have mine := (sound.registry leader.key id).mpr ⟨caller, found, key, leads⟩
    have theirs := (sound.registry leader.key other).mpr ⟨leader, there, rfl, also⟩
    exact Option.some.inj (mine.symm.trans theirs)
  case orphaned =>
    intro id caller leader found stage
    have told := sound.told id caller found
    rw [stage] at told
    exact told.2
  case answered =>
    intro id caller outcome found stage
    have told := sound.told id caller found
    have named := ((flights.callers.get_eq_some id caller).mp found).2
    rw [stage] at told
    rw [← named]
    exact told
  case registered => exact fun key id entry => (sound.registry key id).mp entry
  case goesOn =>
    intro id caller found unended
    have named := ((flights.callers.get_eq_some id caller).mp found).2
    subst named
    exact goesOn_of_unended flights sound caller found unended
  case nearer =>
    intro id caller act found
    have named := ((flights.callers.get_eq_some id caller).mp found).2
    subst named
    exact act_nearer flights caller found act

end Postio.SingleFlight.Flights

import Mathlib.Logic.Function.Basic
import Postio.Lib.Run
import Postio.Lib.Table

set_option autoImplicit false

namespace Postio.SingleFlight

structure Watch (T : Type) where
  value : Option T
  sender : Bool

/-- How far a call of `run` has come. -/
inductive Phase (T : Type) where
  | leading
  -- The work has ended, its caller is still in the registry.
  | finished (outcome : T)
  | answered (outcome : T)
  | following (leader : Nat)
  -- The flight it had joined closed without an answer, and it does the work itself.
  | alone (leader : Nat)
  | returned (outcome : T)
  -- A leader dropped while its work ran: the work is gone, then the registry entry, then the sender.
  | dropping
  | closing
  | cancelled

/-- A call, with what is remembered of it: when it was made, when its own work ended and how, when it left the
registry. -/
structure Caller (Key T : Type) where
  id : Nat
  key : Key
  calledAt : Nat
  phase : Phase T
  ended : Option (Nat × T)
  left : Option Nat

structure Flights (Key T : Type) where
  inflight : Key -> Option Nat
  -- The channel a leader made is named by the leader.
  channels : Nat -> Watch T
  callers : Table (Caller Key T) Caller.id
  clock : Nat

inductive Act (T : Type) where
  | workEnds (outcome : T)
  | leave
  | finish
  | poll
  | cancel

inductive Event (Key T : Type) where
  | call (key : Key)
  | act (id : Nat) (act : Act T)

namespace Flights

variable {Key T : Type}

def empty : Flights Key T :=
  { inflight := fun _ => none, channels := fun _ => { value := none, sender := false }
    callers := Table.empty Caller.id, clock := 0 }

def putPhase (flights : Flights Key T) (id : Nat) (phase : Phase T) : Flights Key T :=
  { flights with callers := flights.callers.updateAt id (fun caller => { caller with phase := phase }) (fun _ => rfl) }

def workEnded (flights : Flights Key T) (id : Nat) (phase : Phase T) (outcome : T) : Flights Key T :=
  { flights with
    callers := flights.callers.updateAt id
      (fun caller => { caller with phase := phase, ended := some (flights.clock, outcome) }) (fun _ => rfl) }

def putChannel (flights : Flights Key T) (id : Nat) (channel : Watch T) : Flights Key T :=
  { flights with channels := Function.update flights.channels id channel }

variable [DecidableEq Key]

variable (flights : Flights Key T)

def call (key : Key) : Flights Key T :=
  -- Looks the key up and claims it, in one critical section.
  let arrived (phase : Phase T) := flights.callers.insert
    (fun id => { id := id, key := key, calledAt := flights.clock, phase := phase, ended := none, left := none })
    (fun _ => rfl)
  match flights.inflight key with
  | some leader => { flights with callers := arrived (.following leader) }
  | none =>
    { flights with
      inflight := Function.update flights.inflight key (some flights.callers.nextId)
      channels := Function.update flights.channels flights.callers.nextId { value := none, sender := true }
      callers := arrived .leading }

def leave (caller : Caller Key T) (phase : Phase T) : Flights Key T :=
  -- The guard of a flight is dropped, which removes the key's entry.
  { flights with
    inflight := Function.update flights.inflight caller.key none
    callers := flights.callers.updateAt caller.id
      (fun caller => { caller with phase := phase, left := some flights.clock }) (fun _ => rfl) }

def act (caller : Caller Key T) : Act T -> Flights Key T
  | .workEnds outcome =>
    match caller.phase with
    | .leading => flights.workEnded caller.id (.finished outcome) outcome
    | .alone _ => flights.workEnded caller.id (.returned outcome) outcome
    | _ => flights
  | .leave =>
    match caller.phase with
    | .finished outcome => flights.leave caller (.answered outcome)
    | .dropping => flights.leave caller .closing
    | _ => flights
  | .finish =>
    match caller.phase with
    -- The outcome is sent, and the sender goes as `lead` returns.
    | .answered outcome =>
      (flights.putChannel caller.id { value := some outcome, sender := false }).putPhase caller.id (.returned outcome)
    | .closing => (flights.putChannel caller.id { value := none, sender := false }).putPhase caller.id .cancelled
    | _ => flights
  | .poll =>
    match caller.phase with
    | .following leader =>
      match (flights.channels leader).value with
      | some outcome => flights.putPhase caller.id (.returned outcome)
      | none => if (flights.channels leader).sender then flights else flights.putPhase caller.id (.alone leader)
    | _ => flights
  -- A future is dropped where it awaits, and nowhere else.
  | .cancel =>
    match caller.phase with
    | .leading => flights.putPhase caller.id .dropping
    | .following _ => flights.putPhase caller.id .cancelled
    | .alone _ => flights.putPhase caller.id .cancelled
    | _ => flights

def tick : Flights Key T := { flights with clock := flights.clock + 1 }

def step (event : Event Key T) : Flights Key T :=
  match event with
  | .call key => (flights.call key).tick
  | .act id act =>
    match flights.callers.get id with
    | none => flights.tick
    | some caller => (flights.act caller act).tick

end Flights

namespace Phase

variable {T : Type}

/-- The caller is in the registry. -/
def registered : Phase T -> Bool
  | leading => true
  | finished _ => true
  | dropping => true
  | _ => false

/-- The caller's channel is open and nothing was sent on it. -/
def flies : Phase T -> Bool
  | leading => true
  | finished _ => true
  | answered _ => true
  | dropping => true
  | closing => true
  | _ => false

def runs : Phase T -> Bool
  | leading => true
  | alone _ => true
  | _ => false

/-- The steps a caller is from its end. -/
def rank : Phase T -> Int
  | leading => 3
  | finished _ => 2
  | answered _ => 1
  | following _ => 2
  | alone _ => 1
  | returned _ => 0
  | dropping => 2
  | closing => 1
  | cancelled => 0

theorem flies_of_registered (phase : Phase T) (registered : phase.registered = true) : phase.flies = true := by
  cases phase with
  | leading => rfl
  | finished => rfl
  | dropping => rfl
  | _ => cases registered

end Phase

namespace Flights

variable {Key T : Type} [DecidableEq Key]

def Fresh (leader follower : Caller Key T) : Prop := ∀ time, leader.left = some time -> follower.calledAt < time

variable (flights after : Flights Key T) (caller : Caller Key T)

def Followed (leader : Nat) (other : Caller Key T) : Prop :=
  -- What a follower may find of the caller it follows.
  other.phase.flies = true ∨
    other.phase = .cancelled ∧ other.left ≠ none ∧ flights.channels leader = { value := none, sender := false } ∨
    ∃ outcome time, flights.channels leader = { value := some outcome, sender := false } ∧
      other.phase = .returned outcome ∧ other.ended = some (time, outcome)

/-- What is true of a caller in a phase, given what its channel and those of others hold. -/
def Told : Phase T -> Prop
  | .leading => caller.left = none ∧ caller.ended = none
  | .finished outcome => caller.left = none ∧ ∃ time, caller.ended = some (time, outcome)
  | .answered outcome => ∃ time, caller.ended = some (time, outcome)
  | .following leader => (caller.ended = none ∧ caller.left = none) ∧ ∃ other,
      flights.callers.get leader = some other ∧ other.key = caller.key ∧ Fresh other caller ∧
      Followed flights leader other
  | .alone leader => (caller.ended = none ∧ caller.left = none) ∧ ∃ other,
      flights.callers.get leader = some other ∧ other.key = caller.key ∧ other.phase = .cancelled ∧ other.left ≠ none
  | .returned outcome => ∃ id other time, flights.callers.get id = some other ∧ other.key = caller.key ∧
      other.ended = some (time, outcome) ∧ (id = caller.id ∨ Fresh other caller)
  | .dropping => caller.left = none
  | .closing => caller.left ≠ none
  | .cancelled => True

structure Sound (flights : Flights Key T) : Prop where
  registry : ∀ key id, flights.inflight key = some id <->
    ∃ caller, flights.callers.get id = some caller ∧ caller.key = key ∧ caller.phase.registered = true
  channel : ∀ id caller, flights.callers.get id = some caller -> caller.phase.flies = true ->
    flights.channels id = { value := none, sender := true }
  told : ∀ id caller, flights.callers.get id = some caller -> Told flights caller caller.phase
  past : ∀ id caller, flights.callers.get id = some caller -> caller.calledAt < flights.clock

/-- What a caller others may have heard of keeps, whatever happens to it. -/
structure Onward (flights after : Flights Key T) : Prop where
  kept : ∀ id other, flights.callers.get id = some other -> ∃ later, after.callers.get id = some later ∧
    later.key = other.key ∧ (∀ work, other.ended = some work -> later.ended = some work) ∧
    (∀ time, later.left = some time -> other.left = some time ∨ time = flights.clock) ∧
    (other.left ≠ none -> later.left ≠ none) ∧ (other.phase = .cancelled -> later.phase = .cancelled) ∧
    (Followed flights id other -> Followed after id later)

omit [DecidableEq Key] in
theorem fresh_kept (other later caller : Caller Key T) (fresh : Fresh other caller)
    (past : caller.calledAt < flights.clock)
    (left : ∀ time, later.left = some time -> other.left = some time ∨ time = flights.clock) : Fresh later caller := by
  intro time gone
  rcases left time gone with before | now
  · exact fresh time before
  · rw [now]
    exact past

omit [DecidableEq Key] in
theorem told_kept (onward : Onward flights after) (caller : Caller Key T)
    (past : caller.calledAt < flights.clock) (phase : Phase T) (told : Told flights caller phase) :
    Told after caller phase := by
  cases phase with
  | following leader =>
    obtain ⟨ended, other, found, key, fresh, followed⟩ := told
    obtain ⟨later, there, same, -, left, -, -, onto⟩ := onward.kept leader other found
    exact ⟨ended, later, there, same.trans key, fresh_kept flights other later caller fresh past left, onto followed⟩
  | alone leader =>
    obtain ⟨ended, other, found, key, cancelled, gone⟩ := told
    obtain ⟨later, there, same, -, -, away, stays, -⟩ := onward.kept leader other found
    exact ⟨ended, later, there, same.trans key, stays cancelled, away gone⟩
  | returned outcome =>
    obtain ⟨id, other, time, found, key, ended, source⟩ := told
    obtain ⟨later, there, same, work, left, -, -, -⟩ := onward.kept id other found
    refine ⟨id, later, time, there, same.trans key, work _ ended, ?_⟩
    rcases source with own | fresh
    · exact .inl own
    · exact .inr (fresh_kept flights other later caller fresh past left)
  | _ => exact told

/-- One caller moves on, and with it perhaps its channel and its registry entry. -/
structure Moved (flights after : Flights Key T) (caller later : Caller Key T) : Prop where
  found : flights.callers.get caller.id = some caller
  callers : ∀ id, after.callers.get id = if id = caller.id then some later else flights.callers.get id
  channels : ∀ id, id ≠ caller.id -> after.channels id = flights.channels id
  clock : after.clock = flights.clock
  key : later.key = caller.key
  calledAt : later.calledAt = caller.calledAt
  ended : ∀ work, caller.ended = some work -> later.ended = some work
  left : ∀ time, later.left = some time -> caller.left = some time ∨ time = flights.clock
  away : caller.left ≠ none -> later.left ≠ none
  unsettled : caller.phase ≠ .cancelled ∧ ∀ outcome, caller.phase ≠ .returned outcome
  followed : caller.phase.flies = true -> Followed after caller.id later
  flies : later.phase.flies = true -> after.channels caller.id = { value := none, sender := true }
  registered : later.phase.registered = true -> caller.phase.registered = true
  inflight : ∀ key, after.inflight key =
    if key = caller.key ∧ caller.phase.registered = true ∧ later.phase.registered = false then none
    else flights.inflight key

theorem onward_of_moved (later : Caller Key T) (moved : Moved flights after caller later) : Onward flights after:= by
  constructor
  intro id other found
  rw [moved.callers]
  split
  next same =>
    subst same
    have equal := moved.found.symm.trans found
    cases equal
    refine ⟨later, rfl, moved.key, moved.ended, moved.left, moved.away,
      fun cancelled => absurd cancelled moved.unsettled.1, ?_⟩
    rintro (flying | ⟨cancelled, -⟩ | ⟨outcome, time, -, returned, -⟩)
    · exact moved.followed flying
    · exact absurd cancelled moved.unsettled.1
    · exact absurd returned (moved.unsettled.2 outcome)
  next apart =>
    refine ⟨other, found, rfl, fun _ ended => ended, fun _ left => .inl left, fun gone => gone,
      fun cancelled => cancelled, ?_⟩
    intro followed
    simpa only [Followed, moved.channels id apart] using followed

theorem sound_moved (later : Caller Key T) (sound : Sound flights)
    (moved : Moved flights after caller later) (told : Told after later later.phase) : Sound after := by
  have onward := onward_of_moved flights after caller later moved
  constructor
  case registry =>
    intro key id
    have entry := sound.registry key id
    rw [moved.inflight]
    split
    next gone =>
      obtain ⟨same, registered, off⟩ := gone
      constructor
      · intro impossible
        cases impossible
      · rintro ⟨other, found, named, there⟩
        rw [moved.callers] at found
        split at found
        next =>
          cases found
          rw [off] at there
          cases there
        next apart =>
          have mine := (sound.registry key caller.id).mpr ⟨caller, moved.found, same.symm, registered⟩
          rw [mine] at entry
          exact absurd (Option.some.inj (entry.mpr ⟨other, found, named, there⟩)).symm apart
    next stays =>
      rw [entry]
      constructor
      · rintro ⟨other, found, named, there⟩
        rw [moved.callers]
        by_cases same : id = caller.id
        · subst same
          have equal := moved.found.symm.trans found
          cases equal
          refine ⟨later, by rw [if_pos rfl], moved.key.trans named, ?_⟩
          by_contra off
          exact stays ⟨named.symm, there, by simpa using off⟩
        · exact ⟨other, by rw [if_neg same]; exact found, named, there⟩
      · rintro ⟨other, found, named, there⟩
        rw [moved.callers] at found
        split at found
        next same =>
          cases found
          exact ⟨caller, by rw [same]; exact moved.found, moved.key.symm.trans named, moved.registered there⟩
        next => exact ⟨other, found, named, there⟩
  case channel =>
    intro id other found flying
    rw [moved.callers] at found
    split at found
    next same =>
      cases found
      rw [same]
      exact moved.flies flying
    next apart =>
      rw [moved.channels id apart]
      exact sound.channel id other found flying
  case told =>
    intro id other found
    rw [moved.callers] at found
    split at found
    next =>
      cases found
      exact told
    next => exact told_kept flights after onward other (sound.past id other found) _ (sound.told id other found)
  case past =>
    intro id other found
    rw [moved.callers] at found
    rw [moved.clock]
    split at found
    next =>
      cases found
      rw [moved.calledAt]
      exact sound.past caller.id caller moved.found
    next => exact sound.past id other found

omit [DecidableEq Key] in
theorem get_putPhase (found : flights.callers.get caller.id = some caller) (phase : Phase T) (id : Nat) :
    (flights.putPhase caller.id phase).callers.get id =
      if id = caller.id then some { caller with phase := phase } else flights.callers.get id := by
  rw [putPhase, Table.get_updateAt]
  split
  next same => rw [same, found, Option.map_some]
  next => rfl

omit [DecidableEq Key] in
theorem get_workEnded (found : flights.callers.get caller.id = some caller) (phase : Phase T) (outcome : T) (id : Nat) :
    (flights.workEnded caller.id phase outcome).callers.get id =
      if id = caller.id then some { caller with phase := phase, ended := some (flights.clock, outcome) }
      else flights.callers.get id := by
  rw [workEnded, Table.get_updateAt]
  split
  next same => rw [same, found, Option.map_some]
  next => rfl

theorem get_leave (found : flights.callers.get caller.id = some caller) (phase : Phase T) (id : Nat) :
    (flights.leave caller phase).callers.get id =
      if id = caller.id then some { caller with phase := phase, left := some flights.clock }
      else flights.callers.get id := by
  rw [leave, Table.get_updateAt]
  split
  next same => rw [same, found, Option.map_some]
  next => rfl

theorem moved_putPhase (sound : Sound flights) (caller : Caller Key T)
    (found : flights.callers.get caller.id = some caller) (phase : Phase T) (unsettled : caller.phase ≠ .cancelled)
    (unreturned : ∀ outcome, caller.phase ≠ .returned outcome)
    (flies : phase.flies = caller.phase.flies) (registered : phase.registered = caller.phase.registered) :
    Moved flights (flights.putPhase caller.id phase) caller { caller with phase := phase } := by
  constructor
  case found => exact found
  case callers => exact get_putPhase flights caller found phase
  case unsettled => exact ⟨unsettled, unreturned⟩
  case followed => exact fun flying => .inl (flies.trans flying)
  case flies => exact fun flying => sound.channel caller.id caller found (flies.symm.trans flying)
  case registered => exact fun there => registered.symm.trans there
  case inflight =>
    intro key
    rw [if_neg]
    · rfl
    · rintro ⟨-, on, off⟩
      rw [registered, on] at off
      cases off
  case channels => exact fun _ _ => rfl
  case clock => rfl
  case key => rfl
  case calledAt => rfl
  case ended => exact fun _ ended => ended
  case left => exact fun _ left => .inl left
  case away => exact fun gone => gone

theorem moved_workEnded (sound : Sound flights) (caller : Caller Key T)
    (found : flights.callers.get caller.id = some caller) (phase : Phase T) (outcome : T)
    (unended : caller.ended = none) (unsettled : caller.phase ≠ .cancelled)
    (unreturned : ∀ outcome, caller.phase ≠ .returned outcome)
    (flies : phase.flies = caller.phase.flies) (registered : phase.registered = caller.phase.registered) :
    Moved flights (flights.workEnded caller.id phase outcome) caller
      { caller with phase := phase, ended := some (flights.clock, outcome) } := by
  constructor
  case found => exact found
  case callers => exact get_workEnded flights caller found phase outcome
  case unsettled => exact ⟨unsettled, unreturned⟩
  case followed => exact fun flying => .inl (flies.trans flying)
  case flies => exact fun flying => sound.channel caller.id caller found (flies.symm.trans flying)
  case registered => exact fun there => registered.symm.trans there
  case inflight =>
    intro key
    rw [if_neg]
    · rfl
    · rintro ⟨-, on, off⟩
      rw [registered, on] at off
      cases off
  case ended =>
    intro work ended
    rw [unended] at ended
    cases ended
  case channels => exact fun _ _ => rfl
  case clock => rfl
  case key => rfl
  case calledAt => rfl
  case left => exact fun _ left => .inl left
  case away => exact fun gone => gone

theorem moved_leave (sound : Sound flights) (caller : Caller Key T)
    (found : flights.callers.get caller.id = some caller) (phase : Phase T) (on : caller.phase.registered = true)
    (off : phase.registered = false) (flies : phase.flies = true) :
    Moved flights (flights.leave caller phase) caller { caller with phase := phase, left := some flights.clock } := by
  have flying := caller.phase.flies_of_registered on
  constructor
  case found => exact found
  case callers => exact get_leave flights caller found phase
  case unsettled =>
    constructor
    · intro cancelled
      rw [cancelled] at on
      cases on
    · intro outcome returned
      rw [returned] at on
      cases on
  case followed => exact fun _ => .inl flies
  case flies => exact fun _ => sound.channel caller.id caller found flying
  case registered => exact fun _ => on
  case inflight =>
    intro key
    simp only [leave, Function.update_apply, on, off, and_true]
  case channels => exact fun _ _ => rfl
  case clock => rfl
  case key => rfl
  case calledAt => rfl
  case ended => exact fun _ ended => ended
  case left =>
    intro time left
    exact .inr (Option.some.inj left).symm
  case away => simp

theorem moved_closed (found : flights.callers.get caller.id = some caller) (channel : Watch T) (phase : Phase T)
    (unsettled : caller.phase ≠ .cancelled) (unreturned : ∀ outcome, caller.phase ≠ .returned outcome)
    (landed : phase.flies = false) (off : caller.phase.registered = false)
    (followed : Followed ((flights.putChannel caller.id channel).putPhase caller.id phase) caller.id
      { caller with phase := phase }) :
    Moved flights ((flights.putChannel caller.id channel).putPhase caller.id phase) caller
      { caller with phase := phase } := by
  -- The channel of a flight closes, with what was published on it.
  constructor
  case found => exact found
  case callers => exact get_putPhase (flights.putChannel caller.id channel) caller found phase
  case unsettled => exact ⟨unsettled, unreturned⟩
  case followed => exact fun _ => followed
  case flies =>
    intro flying
    rw [landed] at flying
    cases flying
  case registered =>
    intro there
    have flying := phase.flies_of_registered there
    rw [landed] at flying
    cases flying
  case inflight =>
    intro key
    rw [if_neg]
    · rfl
    · rintro ⟨-, on, -⟩
      rw [off] at on
      cases on
  case channels => exact fun id apart => Function.update_of_ne apart _ _
  case clock => rfl
  case key => rfl
  case calledAt => rfl
  case ended => exact fun _ ended => ended
  case left => exact fun _ left => .inl left
  case away => exact fun gone => gone

theorem sound_act (sound : Sound flights) (caller : Caller Key T)
    (found : flights.callers.get caller.id = some caller) (act : Act T) : Sound (flights.act caller act) := by
  have told := sound.told caller.id caller found
  cases act with
  | workEnds outcome =>
    cases stage : caller.phase with
    | leading =>
      rw [stage] at told
      simp only [Flights.act, stage]
      refine sound_moved _ _ _ _ sound (moved_workEnded flights sound caller found (.finished outcome) outcome told.2
        (by simp [stage]) (by simp [stage]) (by rw [stage]; rfl) (by rw [stage]; rfl)) ?_
      exact ⟨told.1, _, rfl⟩
    | alone leader =>
      rw [stage] at told
      simp only [Flights.act, stage]
      have moved := moved_workEnded flights sound caller found (.returned outcome) outcome told.1.1
        (by simp [stage]) (by simp [stage]) (by rw [stage]; rfl) (by rw [stage]; rfl)
      refine sound_moved _ _ _ _ sound moved ⟨caller.id, _, flights.clock, ?_, rfl, rfl, .inl rfl⟩
      rw [moved.callers, if_pos rfl]
    | _ => simpa only [Flights.act, stage] using sound
  | leave =>
    cases stage : caller.phase with
    | finished outcome =>
      rw [stage] at told
      simp only [Flights.act, stage]
      exact sound_moved _ _ _ _ sound
        (moved_leave flights sound caller found (.answered outcome) (by rw [stage]; rfl) rfl rfl) told.2
    | dropping =>
      simp only [Flights.act, stage]
      exact sound_moved _ _ _ _ sound
        (moved_leave flights sound caller found .closing (by rw [stage]; rfl) rfl rfl) (Option.some_ne_none _)
    | _ => simpa only [Flights.act, stage] using sound
  | finish =>
    cases stage : caller.phase with
    | answered outcome =>
      rw [stage] at told
      obtain ⟨time, ended⟩ := told
      simp only [Flights.act, stage]
      have moved := moved_closed flights caller found { value := some outcome, sender := false } (.returned outcome)
        (by simp [stage]) (by simp [stage]) rfl (by rw [stage]; rfl)
        (.inr (.inr ⟨outcome, time, Function.update_self _ _ _, rfl, ended⟩))
      refine sound_moved _ _ _ _ sound moved ⟨caller.id, _, time, ?_, rfl, ended, .inl rfl⟩
      rw [moved.callers, if_pos rfl]
    | closing =>
      rw [stage] at told
      simp only [Flights.act, stage]
      exact sound_moved _ _ _ _ sound
        (moved_closed flights caller found { value := none, sender := false } .cancelled (by simp [stage])
          (by simp [stage]) rfl (by rw [stage]; rfl) (.inr (.inl ⟨rfl, told, Function.update_self _ _ _⟩)))
        trivial
    | _ => simpa only [Flights.act, stage] using sound
  | poll =>
    cases stage : caller.phase with
    | following leader =>
      rw [stage] at told
      obtain ⟨unended, other, there, key, fresh, followed⟩ := told
      have moves (phase : Phase T) (grounded : phase.flies = false) (off : phase.registered = false) :=
        moved_putPhase flights sound caller found phase (by simp [stage]) (by simp [stage])
          (by rw [stage]; exact grounded) (by rw [stage]; exact off)
      simp only [Flights.act, stage]
      rcases followed with flying | ⟨cancelled, gone, shut⟩ | ⟨outcome, time, shut, returned, ended⟩
      · rw [sound.channel leader other there flying]
        exact sound
      · rw [shut]
        have onward := onward_of_moved _ _ _ _ (moves (.alone leader) rfl rfl)
        obtain ⟨later, still, same, -, -, away, stays, -⟩ := onward.kept leader other there
        exact sound_moved _ _ _ _ sound (moves (.alone leader) rfl rfl)
          ⟨unended, later, still, same.trans key, stays cancelled, away gone⟩
      · rw [shut]
        have onward := onward_of_moved _ _ _ _ (moves (.returned outcome) rfl rfl)
        obtain ⟨later, still, same, work, left, -, -, -⟩ := onward.kept leader other there
        exact sound_moved _ _ _ _ sound (moves (.returned outcome) rfl rfl)
          ⟨leader, later, time, still, same.trans key, work _ ended,
            .inr (fresh_kept flights other later caller fresh (sound.past caller.id caller found) left)⟩
    | _ => simpa only [Flights.act, stage] using sound
  | cancel =>
    cases stage : caller.phase with
    | leading =>
      rw [stage] at told
      simp only [Flights.act, stage]
      exact sound_moved _ _ _ _ sound
        (moved_putPhase flights sound caller found .dropping (by simp [stage]) (by simp [stage]) (by rw [stage]; rfl)
          (by rw [stage]; rfl)) told.1
    | following leader =>
      simp only [Flights.act, stage]
      exact sound_moved _ _ _ _ sound
        (moved_putPhase flights sound caller found .cancelled (by simp [stage]) (by simp [stage]) (by rw [stage]; rfl)
          (by rw [stage]; rfl)) trivial
    | alone leader =>
      simp only [Flights.act, stage]
      exact sound_moved _ _ _ _ sound
        (moved_putPhase flights sound caller found .cancelled (by simp [stage]) (by simp [stage]) (by rw [stage]; rfl)
          (by rw [stage]; rfl)) trivial
    | _ => simpa only [Flights.act, stage] using sound

end Flights

end Postio.SingleFlight

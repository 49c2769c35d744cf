import Mathlib.Tactic.Tauto

set_option autoImplicit false

namespace Postio.Run

variable {State Event : Type} (step : State -> Event -> State)

/-! Runs of a step function, with a condition and a property asked of every step taken. -/

variable (invariant : State -> Prop) (allowed : State -> Event -> Prop) (state : State)

def run (events : List Event) : State := events.foldl step state

def Along (allowed : State -> Event -> Prop) : State -> List Event -> Prop
  | _, [] => True
  | state, event :: rest => allowed state event ∧ Along allowed (step state event) rest

instance decidableAlong (allowed : State -> Event -> Prop) [∀ state event, Decidable (allowed state event)] :
    ∀ state events, Decidable (Along step allowed state events)
  | _, [] => isTrue trivial
  | state, event :: rest =>
    have := decidableAlong allowed (step state event) rest
    instDecidableAnd

@[simp]
theorem run_nil : run step state [] = state := rfl

@[simp]
theorem run_cons (event : Event) (rest : List Event) :
    run step state (event :: rest) = run step (step state event) rest := rfl

theorem run_append (first second : List Event) :
    run step state (first ++ second) = run step (run step state first) second := by
  simp [run]

theorem along_append (first second : List Event) :
    Along step allowed state (first ++ second) <->
      Along step allowed state first ∧ Along step allowed (run step state first) second := by
  induction first generalizing state with
  | nil => simp [Along]
  | cons event rest ih => simp [Along, ih, and_assoc]

theorem along_and (first second : State -> Event -> Prop) (state : State) (events : List Event) :
    Along step (fun state event => first state event ∧ second state event) state events <->
      Along step first state events ∧ Along step second state events := by
  induction events generalizing state with
  | nil => simp [Along]
  | cons event rest ih =>
    simp only [Along, ih]
    tauto

theorem along_each (allowed : Event -> Prop) (state : State) (events : List Event)
    (each : ∀ event ∈ events, allowed event) : Along step (fun _ event => allowed event) state events := by
  induction events generalizing state with
  | nil => trivial
  | cons event rest ih =>
    exact ⟨each event (List.mem_cons_self ..), ih _ (fun later there => each later (List.mem_cons_of_mem event there))⟩

theorem run_invariant (preserved : ∀ state event, invariant state -> allowed state event -> invariant (step state event))
    (state : State) (events : List Event) (initial : invariant state) (along : Along step allowed state events) :
    invariant (run step state events) := by
  induction events generalizing state with
  | nil => exact initial
  | cons event rest ih =>
    obtain ⟨here, later⟩ := along
    exact ih (step state event) (preserved state event initial here) later

theorem along_invariant (good : State -> Event -> Prop)
    (preserved : ∀ state event, invariant state -> allowed state event -> invariant (step state event))
    (kept : ∀ state event, invariant state -> allowed state event -> good state event)
    (state : State) (events : List Event) (initial : invariant state) (along : Along step allowed state events) :
    Along step good state events := by
  induction events generalizing state with
  | nil => trivial
  | cons event rest ih =>
    obtain ⟨here, later⟩ := along
    exact ⟨kept state event initial here, ih (step state event) (preserved state event initial here) later⟩

theorem run_kept (preserved : ∀ state event, invariant state -> invariant (step state event))
    (state : State) (events : List Event) (initial : invariant state) : invariant (run step state events) := by
  induction events generalizing state with
  | nil => exact initial
  | cons event rest ih => exact ih (step state event) (preserved state event initial)

theorem along_kept (good : State -> Event -> Prop)
    (preserved : ∀ state event, invariant state -> invariant (step state event))
    (kept : ∀ state event, invariant state -> good state event)
    (state : State) (events : List Event) (initial : invariant state) : Along step good state events := by
  induction events generalizing state with
  | nil => trivial
  | cons event rest ih => exact ⟨kept state event initial, ih (step state event) (preserved state event initial)⟩

/-- Where a condition is what keeps an invariant, and is what a property asks while the invariant holds, a run has the
property throughout exactly when it meets the condition throughout. -/
theorem along_iff (good allowed : State -> Event -> Prop)
    (preserved : ∀ state event, invariant state -> allowed state event -> invariant (step state event))
    (exact : ∀ state event, invariant state -> (good state event <-> allowed state event))
    (state : State) (events : List Event) (initial : invariant state) :
    Along step good state events <-> Along step allowed state events := by
  induction events generalizing state with
  | nil => exact Iff.rfl
  | cons event rest ih =>
    have here := exact state event initial
    constructor
    · rintro ⟨first, later⟩
      have met := here.mp first
      exact ⟨met, (ih (step state event) (preserved state event initial met)).mp later⟩
    · rintro ⟨first, later⟩
      exact ⟨here.mpr first, (ih (step state event) (preserved state event initial first)).mpr later⟩

/-- A measure no step lowers, and every step that is not allowed raises, shows at the end of a run whether all of it
was allowed. -/
theorem run_rises {Index : Type} (measure : State -> Index -> Int) (invariant : State -> Prop)
    (allowed : State -> Event -> Prop)
    (rises : ∀ state event, invariant state -> invariant (step state event) ∧
      (∀ index, measure state index ≤ measure (step state event) index) ∧
      (¬ allowed state event -> ∃ index, measure state index < measure (step state event) index))
    (state : State) (events : List Event) (initial : invariant state) :
    invariant (run step state events) ∧
      (∀ index, measure state index ≤ measure (run step state events) index) ∧
      (¬ Along step allowed state events -> ∃ index, measure state index < measure (run step state events) index) := by
  induction events generalizing state with
  | nil => exact ⟨initial, fun _ => Int.le_refl _, fun broken => absurd trivial broken⟩
  | cons event rest ih =>
    obtain ⟨kept, held, raised⟩ := rises state event initial
    obtain ⟨last, later, laterRaised⟩ := ih (step state event) kept
    refine ⟨last, fun index => Int.le_trans (held index) (later index), ?_⟩
    intro broken
    by_cases here : allowed state event
    · obtain ⟨index, more⟩ := laterRaised (fun along => broken ⟨here, along⟩)
      exact ⟨index, Int.lt_of_le_of_lt (held index) more⟩
    · obtain ⟨index, more⟩ := raised here
      exact ⟨index, Int.lt_of_lt_of_le more (later index)⟩

end Postio.Run

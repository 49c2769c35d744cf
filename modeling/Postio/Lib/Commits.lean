import Mathlib.Data.List.Basic

set_option autoImplicit false

namespace Postio.Commits

variable {State Result Error : Type}

/-! A series of transactions, each of which commits alone, against a store that may refuse one. -/

structure Contended (State Error : Type) where
  state : State
  troubles : List (Option Error)

def commit (transaction : State -> Except Error (State × Result)) (world : Contended State Error) :
    Except Error Result × Contended State Error :=
  match world.troubles.head?.join with
  | some error => (.error error, { world with troubles := world.troubles.tail })
  | none =>
    match transaction world.state with
    | .ok (state, result) => (.ok result, { state, troubles := world.troubles.tail })
    | .error error => (.error error, { world with troubles := world.troubles.tail })

/-- Commits each in turn. A tolerated refusal is passed over, and the last one is remembered. -/
def eachCommit (tolerated : Error -> Bool) :
    List (State -> Except Error (State × Result)) -> Contended State Error ->
      Except Error (List Result × Option Error) × Contended State Error
  | [], world => (.ok ([], none), world)
  | transaction :: rest, world =>
    match commit transaction world with
    | (.ok result, next) =>
      match eachCommit tolerated rest next with
      | (.ok (results, refusal), last) => (.ok (result :: results, refusal), last)
      | (.error error, last) => (.error error, last)
    | (.error error, next) =>
      if tolerated error then
        match eachCommit tolerated rest next with
        | (.ok (results, refusal), last) => (.ok (results, refusal.or (some error)), last)
        | (.error later, last) => (.error later, last)
      else (.error error, next)

/-- The results, unless every transaction was refused. -/
def commitAll (tolerated : Error -> Bool) (transactions : List (State -> Except Error (State × Result)))
    (world : Contended State Error) : Except Error (List Result) × Contended State Error :=
  match eachCommit tolerated transactions world with
  | (.ok ([], some error), last) => (.error error, last)
  | (.ok (results, _), last) => (.ok results, last)
  | (.error error, last) => (.error error, last)

end Postio.Commits

namespace Postio.Replay

open Commits

/-! Steps taken in turn against a store that may refuse one. A step fails, lets the next one follow, or is the last that is
needed. -/

variable {State Error Step : Type}

/-- `true` answers that nothing has to follow. -/
abbrev Run (State Error Step : Type) := Step -> Contended State Error -> Except Error Bool × Contended State Error

variable (run : Run State Error Step)

def play : List Step -> Contended State Error -> Except Error Unit × Contended State Error
  | [], world => (.ok (), world)
  | step :: rest, world =>
    match run step world with
    | (.error error, next) => (.error error, next)
    | (.ok true, next) => (.ok (), next)
    | (.ok false, next) => play rest next

/-- The states that the steps which answered have left, in turn. -/
def passed : List Step -> Contended State Error -> List State
  | [], _ => []
  | step :: rest, world =>
    match run step world with
    | (.error _, _) => []
    | (.ok true, next) => [next.state]
    | (.ok false, next) => next.state :: passed rest next

def HasWork (step : Step) (state : State) : Prop := (run step { state, troubles := [] }).2.state ≠ state

variable (steps : List Step) (world : Contended State Error)

def NothingLeft (state : State) : Prop := ∀ step ∈ steps, ¬ HasWork run step state

def Complete : Prop :=
  NothingLeft run (steps.drop (passed run steps world).length) (play run steps world).2.state

def Changes : Prop := ∃ state ∈ passed run steps world, state ≠ world.state

/-- No step is stopped, and none is the last, while one that has not been taken has something to do. -/
def Unhindered : List Step -> Contended State Error -> Prop
  | [], _ => True
  | step :: rest, world =>
    match run step world with
    | (.error _, next) => NothingLeft run (step :: rest) next.state
    | (.ok true, next) => NothingLeft run rest next.state
    | (.ok false, next) => Unhindered rest next

/-- Every step answers, and none finds anything to do. -/
def Idle : List Step -> Contended State Error -> Prop
  | [], _ => True
  | step :: rest, world =>
    match run step world with
    | (.error _, _) => False
    | (.ok true, next) => next.state = world.state
    | (.ok false, next) => next.state = world.state ∧ Idle rest next

theorem complete_iff :
    Complete run steps world <-> Unhindered run steps world := by
  induction steps generalizing world with
  | nil => simp [Complete, NothingLeft, Unhindered]
  | cons step rest ih =>
    unfold Complete Unhindered
    rw [play, passed]
    cases run step world with
    | mk outcome next =>
      cases outcome with
      | error error => exact Iff.rfl
      | ok last =>
        cases last with
        | true => exact Iff.rfl
        | false => exact ih next

theorem honest_iff : ((play run steps world).1 = .ok () -> Changes run steps world) <-> ¬ Idle run steps world:= by
  induction steps generalizing world with
  | nil => simp [play, Changes, passed, Idle]
  | cons step rest ih =>
    unfold Changes Idle
    rw [play, passed]
    cases run step world with
    | mk outcome next =>
      cases outcome with
      | error error => simp
      | ok last =>
        cases last with
        | true => simp
        | false =>
          dsimp only
          by_cases same : next.state = world.state
          case pos =>
            rw [← same]
            simpa [Changes] using ih next
          case neg =>
            refine ⟨fun _ idle => same idle.1, fun _ _ => ⟨next.state, by simp, same⟩⟩

end Postio.Replay

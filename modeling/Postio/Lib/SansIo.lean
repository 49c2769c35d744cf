import Mathlib.Data.List.Basic

set_option autoImplicit false

namespace Postio.SansIo

/-! Protocol coroutines that perform no input or output: they ask for it, and a driver does it and resumes them. -/

variable {Byte Value Fault Failure : Type}

/-- What a coroutine asks for when it is resumed. -/
inductive Asks (State Byte Value Fault : Type) where
  | complete (result : Except Fault Value)
  | wantsRead (state : State)
  | wantsWrite (bytes : List Byte) (state : State)

structure Coroutine (Byte Value Fault : Type) where
  State : Type
  start : State
  resume : State -> Option (List Byte) -> Asks State Byte Value Fault

structure Happening (Byte Failure : Type) where
  failure : Option Failure
  arrives : List Byte

/-- What was handed to the transport, whether it has answered, and what it has brought since the last write. -/
structure Talk (Byte : Type) where
  handed : List (List Byte)
  answered : Bool
  since : List Byte
  deriving DecidableEq

namespace Talk

def silent : Talk Byte := { handed := [], answered := false, since := [] }

def wrote (talk : Talk Byte) (bytes : List Byte) : Talk Byte :=
  { talk with handed := talk.handed ++ [bytes], since := [] }

def heard (talk : Talk Byte) (bytes : List Byte) : Talk Byte :=
  { talk with answered := true, since := talk.since ++ bytes }

end Talk

inductive Ending (Value Fault Failure : Type) where
  | waiting
  | complete (result : Except Fault Value)
  | failed (failure : Failure)

structure Exchange (Byte Value Fault Failure : Type) where
  ending : Ending Value Fault Failure
  talk : Talk Byte
  rest : List (Happening Byte Failure)

/-- Runs a coroutine over what happens, each read and write taking one happening. -/
def drive (coroutine : Coroutine Byte Value Fault) :
    List (Happening Byte Failure) -> coroutine.State -> Option (List Byte) -> Talk Byte ->
      Exchange Byte Value Fault Failure
  | [], state, input, talk =>
    match coroutine.resume state input with
    | .complete result => { ending := .complete result, talk, rest := [] }
    | .wantsRead _ => { ending := .waiting, talk, rest := [] }
    | .wantsWrite bytes _ => { ending := .waiting, talk := talk.wrote bytes, rest := [] }
  | happening :: rest, state, input, talk =>
    match coroutine.resume state input with
    | .complete result => { ending := .complete result, talk, rest := happening :: rest }
    | .wantsRead next =>
      match happening.failure with
      | some failure => { ending := .failed failure, talk, rest }
      | none => drive coroutine rest next (some happening.arrives) (talk.heard happening.arrives)
    | .wantsWrite bytes next =>
      match happening.failure with
      | some failure => { ending := .failed failure, talk := talk.wrote bytes, rest }
      | none => drive coroutine rest next none (talk.wrote bytes)

variable (coroutine : Coroutine Byte Value Fault) (happenings : List (Happening Byte Failure))

def exchange :
    Exchange Byte Value Fault Failure := drive coroutine happenings coroutine.start none .silent

/-- What a coroutine can be resumed with, and what was said by then, whatever the transport brings. -/
inductive Reached (coroutine : Coroutine Byte Value Fault) :
    coroutine.State -> Option (List Byte) -> Talk Byte -> Prop where
  | start : Reached coroutine coroutine.start none .silent
  | read (state next : coroutine.State) (input : Option (List Byte)) (talk : Talk Byte) (bytes : List Byte)
      (before : Reached coroutine state input talk) (asks : coroutine.resume state input = .wantsRead next) :
      Reached coroutine next (some bytes) (talk.heard bytes)
  | write (state next : coroutine.State) (input : Option (List Byte)) (talk : Talk Byte) (bytes : List Byte)
      (before : Reached coroutine state input talk) (asks : coroutine.resume state input = .wantsWrite bytes next) :
      Reached coroutine next none (talk.wrote bytes)

theorem reached_good (good : coroutine.State -> Option (List Byte) -> Talk Byte -> Prop) (start : good coroutine.start none .silent)
    (read : ∀ state next input talk bytes, good state input talk ->
      coroutine.resume state input = .wantsRead next -> good next (some bytes) (talk.heard bytes))
    (write : ∀ state next input talk bytes, good state input talk ->
      coroutine.resume state input = .wantsWrite bytes next -> good next none (talk.wrote bytes))
    (state : coroutine.State) (input : Option (List Byte)) (talk : Talk Byte)
    (reached : Reached coroutine state input talk) : good state input talk := by
  induction reached with
  | start => exact start
  | read state next input talk bytes before asks ih => exact read state next input talk bytes ih asks
  | write state next input talk bytes before asks ih => exact write state next input talk bytes ih asks

theorem reached_handed (good : Talk Byte -> Prop) (silent : good .silent)
    (heard : ∀ talk bytes, good talk -> good (talk.heard bytes))
    (wrote : ∀ state next input talk bytes, Reached coroutine state input talk ->
      coroutine.resume state input = .wantsWrite bytes next -> good talk -> good (talk.wrote bytes))
    (state : coroutine.State) (input : Option (List Byte)) (talk : Talk Byte)
    (reached : Reached coroutine state input talk) : good talk := by
  induction reached with
  | start => exact silent
  | read state next input talk bytes before asks ih => exact heard talk bytes ih
  | write state next input talk bytes before asks ih => exact wrote state next input talk bytes before asks ih

/-- How an exchange ended: where the coroutine was, and what it had asked for. -/
def Ended (exchange : Exchange Byte Value Fault Failure) : Prop :=
  ∃ state input talk, Reached coroutine state input talk ∧
    match exchange.ending with
    | .complete result => coroutine.resume state input = .complete result ∧ exchange.talk = talk
    | .waiting | .failed _ =>
      (∃ next, coroutine.resume state input = .wantsRead next ∧ exchange.talk = talk) ∨
        ∃ bytes next, coroutine.resume state input = .wantsWrite bytes next ∧ exchange.talk = talk.wrote bytes

theorem drive_ended (state : coroutine.State) (input : Option (List Byte)) (talk : Talk Byte)
    (reached : Reached coroutine state input talk) :
    Ended coroutine (drive coroutine happenings state input talk) := by
  induction happenings generalizing state input talk with
  | nil =>
    rw [drive]
    cases asks : coroutine.resume state input with
    | complete result => exact ⟨state, input, talk, reached, asks, rfl⟩
    | wantsRead next => exact ⟨state, input, talk, reached, .inl ⟨next, asks, rfl⟩⟩
    | wantsWrite bytes next => exact ⟨state, input, talk, reached, .inr ⟨bytes, next, asks, rfl⟩⟩
  | cons happening rest ih =>
    rw [drive]
    cases asks : coroutine.resume state input with
    | complete result => exact ⟨state, input, talk, reached, asks, rfl⟩
    | wantsRead next =>
      cases fails : happening.failure with
      | some failure => exact ⟨state, input, talk, reached, .inl ⟨next, asks, rfl⟩⟩
      | none => exact ih next _ _ (.read state next input talk happening.arrives reached asks)
    | wantsWrite bytes next =>
      cases fails : happening.failure with
      | some failure => exact ⟨state, input, talk, reached, .inr ⟨bytes, next, asks, rfl⟩⟩
      | none => exact ih next _ _ (.write state next input talk bytes reached asks)

theorem exchange_ended :
    Ended coroutine (exchange coroutine happenings) :=
  drive_ended coroutine happenings _ _ _ .start

theorem exchange_talk (good : Talk Byte -> Prop) (silent : good .silent)
    (heard : ∀ talk bytes, good talk -> good (talk.heard bytes))
    (wrote : ∀ state next input talk bytes, Reached coroutine state input talk ->
      coroutine.resume state input = .wantsWrite bytes next -> good talk -> good (talk.wrote bytes))
    (happenings : List (Happening Byte Failure)) : good (exchange coroutine happenings).talk := by
  obtain ⟨state, input, talk, reached, ended⟩ := exchange_ended coroutine happenings
  have before := reached_handed coroutine good silent heard wrote state input talk reached
  cases ending : (exchange coroutine happenings).ending with
  | complete result =>
    rw [ending] at ended
    rw [ended.2]
    exact before
  | waiting =>
    rw [ending] at ended
    rcases ended with ⟨next, -, same⟩ | ⟨bytes, next, asks, same⟩
    next => exact same ▸ before
    next => exact same ▸ wrote state next input talk bytes reached asks before
  | failed failure =>
    rw [ending] at ended
    rcases ended with ⟨next, -, same⟩ | ⟨bytes, next, asks, same⟩
    next => exact same ▸ before
    next => exact same ▸ wrote state next input talk bytes reached asks before

end Postio.SansIo

import Mathlib.Data.List.Basic
import Mathlib.Data.List.Induction
import Mathlib.Logic.Function.Basic

set_option autoImplicit false

namespace Postio.Keyed

variable {Key Value Act : Type} [DecidableEq Key]

/-! A state that maps keys to values, and actions that each touch at most one key. -/

variable (key : Act -> Option Key) (act : Act -> Value -> Option Value) (value : Value)

def performAt (state : Key -> Value) (action : Act) : Option (Key -> Value) :=
  match key action with
  | none => some state
  | some touched => (act action (state touched)).map (Function.update state touched)

def perform (key : Act -> Option Key) (act : Act -> Value -> Option Value) :
    (Key -> Value) -> List Act -> Option (Key -> Value)
  | state, [] => some state
  | state, action :: rest => (performAt key act state action).bind (perform key act · rest)

def runAt (act : Act -> Value -> Option Value) : Value -> List Act -> Option Value
  | value, [] => some value
  | value, action :: rest => (act action value).bind (runAt act · rest)

def touching (touched : Key) (actions : List Act) : List Act :=
  actions.filter (fun action => key action = some touched)

omit [DecidableEq Key] in
@[simp]
theorem runAt_nil :
    runAt act value [] = some value := rfl

@[simp]
theorem touching_nil (touched : Key) : touching key touched [] = [] := rfl

theorem perform_append (state : Key -> Value) (first second : List Act) :
    perform key act state (first ++ second) = (perform key act state first).bind (perform key act · second) := by
  induction first generalizing state with
  | nil => simp [perform]
  | cons action rest ih => simp only [List.cons_append, perform, ih, Option.bind_assoc]

theorem runAt_append (first second : List Act) :
    runAt act value (first ++ second) = (runAt act value first).bind (runAt act · second) := by
  induction first generalizing value with
  | nil => simp [runAt]
  | cons action rest ih =>
    simp only [List.cons_append, runAt, ih, Option.bind_assoc]

theorem runAt_concat (first : List Act) (last : Act) :
    runAt act value (first ++ [last]) = (runAt act value first).bind (act last) := by
  simp [runAt_append, runAt]

theorem runAt_concat_some (result : Value) (first : List Act) (last : Act) :
    runAt act value (first ++ [last]) = some result <->
      ∃ middle, runAt act value first = some middle ∧ act last middle = some result := by
  rw [runAt_concat, Option.bind_eq_some_iff]

theorem runAt_map {Other : Type} (act : Act -> Value -> Option Value) (change : Other -> Act)
    (value : Value) (actions : List Other) :
    runAt act value (actions.map change) = runAt (fun action => act (change action)) value actions := by
  induction actions generalizing value with
  | nil => rfl
  | cons action rest ih => simp only [List.map_cons, runAt, ih]

theorem perform_eq_some (actions : List Act) (state after : Key -> Value) :
    perform key act state actions = some after <->
      ∀ touched, runAt act (state touched) (touching key touched actions) = some (after touched) := by
  induction actions generalizing state with
  | nil => simp [perform, funext_iff]
  | cons action rest ih =>
    cases found : key action with
    | none => simp [perform, performAt, found, touching, ih]
    | some head =>
      cases done : act action (state head) with
      | none =>
        simp only [perform, performAt, found, done, Option.map_none, Option.bind_none]
        constructor
        · simp
        · intro all
          have here := all head
          simp [touching, found, runAt, done] at here
      | some value =>
        simp only [perform, performAt, found, done, Option.map_some, Option.bind_some, ih]
        refine forall_congr' fun touched => ?_
        by_cases same : head = touched
        · subst same
          simp [touching, found, runAt, done]
        · simp [touching, found, same, Function.update_of_ne (Ne.symm same)]

/-! The same for actions that always succeed. -/

def applyTo (act : Act -> Value -> Value) (state : Key -> Value) (action : Act) : Key -> Value :=
  match key action with
  | none => state
  | some touched => Function.update state touched (act action (state touched))

theorem foldl_applyTo (act : Act -> Value -> Value) (actions : List Act) (state : Key -> Value) (touched : Key) :
    actions.foldl (applyTo key act) state touched =
      (touching key touched actions).foldl (fun value action => act action value) (state touched) := by
  induction actions generalizing state with
  | nil => rfl
  | cons action rest ih =>
    rw [List.foldl_cons, ih]
    cases found : key action with
    | none => simp [applyTo, touching, found]
    | some head =>
      by_cases same : head = touched
      · subst same
        simp [applyTo, touching, found]
      · simp [applyTo, touching, found, same, Function.update_of_ne (Ne.symm same)]

end Postio.Keyed

/-- What folding a later operation into an earlier one produces. -/
inductive Postio.Merged (Op : Type) where
  | into (operation : Op)
  | cancelled
  | no
  deriving DecidableEq

namespace Postio.Stack

open Keyed

variable {Op Value : Type} (merge : Op -> Op -> Merged Op)

/-! A stack of operations whose newest entry a new operation may rewrite or take away. -/

def push (stack : List Op) (operation : Op) : List Op :=
  match stack.getLast? with
  | none => stack ++ [operation]
  | some top =>
    match merge top operation with
    | .into joined => stack.dropLast ++ [joined]
    | .cancelled => stack.dropLast
    | .no => stack ++ [operation]

def fold (operations : List Op) : List Op := operations.foldl (push merge) []

@[simp]
theorem push_nil (operation : Op) : push merge [] operation = [operation] := rfl

@[simp]
theorem push_concat (below : List Op) (top operation : Op) :
    push merge (below ++ [top]) operation =
      match merge top operation with
      | .into joined => below ++ [joined]
      | .cancelled => below
      | .no => below ++ [top] ++ [operation] := by
  cases merged : merge top operation <;> simp [push, merged]

@[simp]
theorem fold_nil : fold merge [] = [] := rfl

@[simp]
theorem fold_concat (operations : List Op) (operation : Op) :
    fold merge (operations ++ [operation]) = push merge (fold merge operations) operation := by
  simp [fold]

/-- While `operations` are folded, `operation` arrives when `top` is the newest entry. -/
def Meets (operations : List Op) (top operation : Op) : Prop :=
  ∃ earlier later below, operations = earlier ++ operation :: later ∧ fold merge earlier = below ++ [top]

theorem meets_last (earlier below : List Op) (top operation : Op)
    (folded : fold merge earlier = below ++ [top]) :
    Meets merge (earlier ++ [operation]) top operation :=
  ⟨earlier, [], below, rfl, folded⟩

theorem meets_append (operations more : List Op) (top operation : Op)
    (meets : Meets merge operations top operation) :
    Meets merge (operations ++ more) top operation := by
  obtain ⟨earlier, later, below, split, folded⟩ := meets
  exact ⟨earlier, later ++ more, below, by simp [split], folded⟩

theorem meets_concat (operations : List Op) (last top operation : Op) :
    Meets merge (operations ++ [last]) top operation <->
      Meets merge operations top operation ∨
        operation = last ∧ ∃ below, fold merge operations = below ++ [top] := by
  constructor
  · rintro ⟨earlier, later, below, split, folded⟩
    rcases List.eq_nil_or_concat' later with rfl | ⟨init, final, rfl⟩
    · obtain ⟨rfl, same⟩ := List.append_inj' split rfl
      exact .inr ⟨by simpa using same.symm, below, folded⟩
    · refine .inl ⟨earlier, init, below, ?_, folded⟩
      have regroup : operations ++ [last] = (earlier ++ operation :: init) ++ [final] := by
        simpa using split
      exact (List.append_inj' regroup rfl).1
  · rintro (meets | ⟨rfl, below, folded⟩)
    · exact meets_append merge operations [last] top operation meets
    · exact meets_last merge operations below top operation folded

/-- The newest entry after `earlier` stays as it is while `later` is folded. -/
def Lasts (earlier later : List Op) : Prop :=
  ∀ first operation second below top, later = first ++ operation :: second ->
    fold merge (earlier ++ first) = below ++ [top] -> below.length + 1 = (fold merge earlier).length ->
      merge top operation = .no

/-- `operation` leaves an entry of its own: it does not cancel against the newest one. -/
def Lands (earlier : List Op) (operation : Op) : Prop :=
  ∀ below top, fold merge earlier = below ++ [top] -> merge top operation ≠ .cancelled

theorem lasts_nil (earlier : List Op) : Lasts merge earlier [] := by
  intro first operation second below top split
  simp at split

theorem lasts_concat (earlier later : List Op) (last : Op) :
    Lasts merge earlier (later ++ [last]) <->
      Lasts merge earlier later ∧ ∀ below top, fold merge (earlier ++ later) = below ++ [top] ->
        below.length + 1 = (fold merge earlier).length -> merge top last = .no := by
  constructor
  · intro lasts
    refine ⟨fun first operation second below top split => lasts first operation (second ++ [last]) below top (by simp [split]),
      fun below top => lasts later last [] below top rfl⟩
  · rintro ⟨lasts, final⟩ first operation second below top split newest height
    rcases List.eq_nil_or_concat' second with rfl | ⟨rest, other, rfl⟩
    · obtain ⟨rfl, same⟩ := List.append_inj' split rfl
      cases same
      exact final below top newest height
    · have regroup : later ++ [last] = (first ++ operation :: rest) ++ [other] := by simpa using split
      exact lasts first operation rest below top (List.append_inj' regroup rfl).1 newest height

theorem fold_lasts (earlier later : List Op) (nonempty : fold merge earlier ≠ []) (lasts : Lasts merge earlier later) :
    ∃ above, fold merge (earlier ++ later) = fold merge earlier ++ above := by
  induction later using List.reverseRecOn with
  | nil => exact ⟨[], by simp⟩
  | append_singleton later last ih =>
    obtain ⟨before, final⟩ := (lasts_concat merge earlier later last).mp lasts
    obtain ⟨above, split⟩ := ih before
    rw [← List.append_assoc, fold_concat, split]
    rcases List.eq_nil_or_concat' above with rfl | ⟨rest, top, rfl⟩
    · obtain ⟨below, top, newest⟩ := (List.eq_nil_or_concat' (fold merge earlier)).resolve_left nonempty
      have kept := final below top (by rw [split, List.append_nil, newest]) (by rw [newest]; simp)
      rw [List.append_nil, newest, push_concat, kept]
      exact ⟨[last], rfl⟩
    · rw [← List.append_assoc, push_concat]
      cases merge top last with
      | into joined => exact ⟨rest ++ [joined], by simp⟩
      | cancelled => exact ⟨rest, rfl⟩
      | no => exact ⟨rest ++ [top] ++ [last], by simp⟩

theorem entry_origin (operations below above : List Op) (entry : Op)
    (split : fold merge operations = below ++ entry :: above) :
    ∃ earlier operation later, operations = earlier ++ operation :: later ∧
      fold merge (earlier ++ [operation]) = below ++ [entry] ∧ Lands merge earlier operation ∧
        Lasts merge (earlier ++ [operation]) later := by
  induction operations using List.reverseRecOn generalizing above with
  | nil => simp at split
  | append_singleton operations last ih =>
    -- An entry that was there before the last operation, and is not the one it met or was met at `no`.
    have older (rest : List Op) (there : fold merge operations = below ++ entry :: rest)
        (kept : rest = [] -> merge entry last = .no) :
        ∃ earlier operation later, operations ++ [last] = earlier ++ operation :: later ∧
          fold merge (earlier ++ [operation]) = below ++ [entry] ∧ Lands merge earlier operation ∧
            Lasts merge (earlier ++ [operation]) later := by
      obtain ⟨earlier, operation, later, parts, newest, lands, lasts⟩ := ih rest there
      refine ⟨earlier, operation, later ++ [last], by simp [parts], newest, lands, ?_⟩
      refine (lasts_concat merge _ later last).mpr ⟨lasts, fun under top reached height => ?_⟩
      have whole : earlier ++ [operation] ++ later = operations := by simp [parts]
      rw [whole, there] at reached
      rw [newest, List.length_append, List.length_singleton] at height
      have empty : rest = [] := by
        have lengths := congrArg List.length reached
        simp only [List.length_append, List.length_cons, List.length_nil] at lengths
        exact List.eq_nil_of_length_eq_zero (by omega)
      subst empty
      obtain ⟨-, same⟩ := List.append_inj' reached rfl
      cases same
      exact kept rfl
    have fresh (landed : fold merge (operations ++ [last]) = below ++ [entry]) (lands : Lands merge operations last) :
        ∃ earlier operation later, operations ++ [last] = earlier ++ operation :: later ∧
          fold merge (earlier ++ [operation]) = below ++ [entry] ∧ Lands merge earlier operation ∧
            Lasts merge (earlier ++ [operation]) later :=
      ⟨operations, last, [], rfl, landed, lands, lasts_nil merge _⟩
    have pushed := split
    rw [fold_concat] at pushed
    rcases List.eq_nil_or_concat' (fold merge operations) with empty | ⟨under, top, newest⟩
    · rw [empty, push_nil] at pushed
      have lone : below = [] ∧ entry = last ∧ above = [] := by
        cases below <;> simp_all
      obtain ⟨rfl, rfl, rfl⟩ := lone
      exact fresh split (fun below top newest => by simp [empty] at newest)
    · rw [newest, push_concat] at pushed
      cases merged : merge top last with
      | into joined =>
        rw [merged] at pushed
        rcases List.eq_nil_or_concat' above with rfl | ⟨rest, final, rfl⟩
        · refine fresh split (fun other newer same => ?_)
          rw [newest] at same
          cases (List.append_inj' same rfl).2
          simp [merged]
        · have parts : under ++ [joined] = (below ++ entry :: rest) ++ [final] := by simpa using pushed
          refine older (rest ++ [top]) ?_ (by simp)
          rw [newest, (List.append_inj' parts rfl).1]
          simp
      | cancelled =>
        rw [merged] at pushed
        refine older (above ++ [top]) ?_ (by simp)
        have same : under = below ++ entry :: above := pushed
        rw [newest, same]
        simp
      | no =>
        rw [merged] at pushed
        rcases List.eq_nil_or_concat' above with rfl | ⟨rest, final, rfl⟩
        · refine fresh split (fun other newer same => ?_)
          rw [newest] at same
          cases (List.append_inj' same rfl).2
          simp [merged]
        · have parts : under ++ [top] ++ [last] = (below ++ entry :: rest) ++ [final] := by simpa using pushed
          refine older rest ?_ ?_
          · rw [newest, (List.append_inj' parts rfl).1]
          · rintro rfl
            cases (List.append_inj' (List.append_inj' parts rfl).1 rfl).2
            exact merged

/-! Folding keeps the meaning of a run wherever each merge it makes is exact. -/

variable (act : Op -> Value -> Option Value)

def Exact (top operation : Op) : Prop :=
  ∀ before middle after, act top before = some middle -> act operation middle = some after ->
    match merge top operation with
    | .into joined => act joined before = some after
    | .cancelled => before = after
    | .no => True

theorem push_run (stack : List Op) (operation : Op) (start middle after : Value)
    (exact : ∀ below top, stack = below ++ [top] -> Exact merge act top operation)
    (reached : runAt act start stack = some middle) (stepped : act operation middle = some after) :
    runAt act start (push merge stack operation) = some after := by
  rcases List.eq_nil_or_concat' stack with rfl | ⟨below, top, rfl⟩
  · simp only [runAt_nil, Option.some.injEq] at reached
    simp [runAt, reached, stepped]
  · obtain ⟨before, down, up⟩ := (runAt_concat_some act start middle below top).mp reached
    have one := exact below top rfl before middle after up stepped
    rw [push_concat]
    cases merged : merge top operation with
    | into joined =>
      rw [merged] at one
      exact (runAt_concat_some act start after below joined).mpr ⟨before, down, one⟩
    | cancelled =>
      rw [merged] at one
      rw [down, one]
    | no => exact (runAt_concat_some act start after _ operation).mpr ⟨middle, reached, stepped⟩

theorem fold_run (operations : List Op) (start after : Value)
    (exact : ∀ top operation, Meets merge operations top operation -> Exact merge act top operation)
    (reached : runAt act start operations = some after) :
    runAt act start (fold merge operations) = some after := by
  induction operations using List.reverseRecOn generalizing after with
  | nil => exact reached
  | append_singleton operations last ih =>
    obtain ⟨middle, down, up⟩ := (runAt_concat_some act start after operations last).mp reached
    rw [fold_concat]
    apply push_run merge act _ last start middle after _ (ih middle _ down) up
    · intro below top folded
      exact exact top last (meets_last merge operations below top last folded)
    · intro top operation meets
      exact exact top operation (meets_append merge operations [last] top operation meets)

end Postio.Stack

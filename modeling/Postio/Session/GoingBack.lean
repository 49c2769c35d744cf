import Mathlib.Data.List.Chain
import Postio.Session.Navigation

set_option autoImplicit false

namespace Postio

/-- The part of the state a command is aimed with: the back stack stays behind. -/
structure StateSnapshot extends AppState where
  scope : AccountScope
  view : ViewMode
  deriving DecidableEq

namespace Navigation

variable {start : ViewMode} {Step : Type} (state : Navigation) (snapshot : StateSnapshot) (steps : List Step)
    (move : Mutation)

def adopt : Navigation :=
  { toAppState := snapshot.toAppState, scope := snapshot.scope, view := snapshot.view, back := state.back }

def began : Navigation := (new snapshot.scope).adopt snapshot

def run (moves : List Mutation) : Navigation := moves.foldl mutate state

/-- `while !state.back().is_empty() {}`, stopped after so many calls. -/
def unwind : Nat -> Navigation -> Option Navigation
  | 0, _ => none
  | calls + 1, state =>
    let (next, events) := state.commit .back
    if events.isEmpty then some next else unwind calls next

def position : Frame :=
  { view := state.view, selected := state.selected, focus := state.focus }

namespace Mutation

def drills : Mutation -> Bool
  | .openConversation _ | .openMessage _ | .openComposer _ => true
  | _ => false

end Mutation

/-- Every back has its drill-in, within the room left on the stack, and nothing else happens outside them. -/
def Balanced (room : Nat) : Nat -> List Mutation -> Prop
  | depth, [] => depth = 0
  | depth, move :: rest =>
    if move.drills then depth < room ∧ Balanced room (depth + 1) rest
    else if move = .back then 0 < depth ∧ Balanced room (depth - 1) rest
    else 0 < depth ∧ Balanced room depth rest

structure GoesBack (start : ViewMode) (state : Navigation) : Prop where
  silent : (state.commit .back).2 = [] -> state.back = []
  out : ∃ calls outside, state.unwind calls = some outside ∧ outside.view = start

/-- Where a mutation other than a drill-in or a back puts the position. -/
def landing : Mutation -> Frame
  | .openMailbox mailbox => if state.viewing = some (.mailbox mailbox) then state.position else cleared
  | .openFlagged account => if state.viewing = some (.flagged account) then state.position else cleared
  | .openView scope => if state.viewing = some scope then state.position else cleared
  | .select messages focus => { state.position with selected := .these messages, focus }
  | .toggleSelection message => { state.position with selected := state.selected.toggle message }
  | .extendSelectionTo message =>
    { state.position with selected := state.selected.insert message, focus := some message }
  | .selectAll => { state.position with selected := .everything [] }
  | .focusOn message => { state.position with focus := message }
  | .clearSelection => cleared
  | .openConversation thread => { state.position with view := .conversation thread }
  | .openMessage message => { view := .reader message, selected := .these [message], focus := some message }
  | .openComposer draft => { state.position with view := .composer draft }
  | .back => state.position
where
  cleared : Frame := { view := state.view, selected := .these [], focus := none }

/-- A step that leaves no two neighbouring positions equal. -/
def Apart : Prop :=
  if move.drills then
    -- The view drilled into is not the position it is opened from, and the step a full stack forgets stood
    -- between two that differ.
    state.landing move ≠ state.position ∧ (state.back.length = maxBackDepth -> state.back[0]? ≠ state.back[2]?)
  else if move = .back then True
  else state.back.getLast? ≠ some (state.landing move)

def RunsApart (state : Navigation) : List Mutation -> Prop
  | [] => True
  | move :: rest => state.Apart move ∧ (state.mutate move).RunsApart rest

def trail : List Frame := state.back ++ [state.position]

theorem trail_drilled (drilled : move.drills) : (state.mutate move).trail = forget state.trail ++ [state.landing move]:= by
  cases move <;> first | rfl | cases drilled

theorem trail_stayed (drilled : ¬ move.drills) (back : move ≠ .back) :
    (state.mutate move).trail = state.back ++ [state.landing move] := by
  cases move with
  | openMailbox mailbox | openFlagged account | openView scope =>
    simp only [trail, mutate, openView, landing, landing.cleared, position, clearPosition]
    split <;> rfl
  | openConversation | openMessage | openComposer => exact absurd rfl drilled
  | back => exact absurd rfl back
  | _ => rfl

theorem trail_back :
    state.goBack.trail = if state.back = [] then state.trail else state.back := by
  unfold goBack trail
  rcases List.eq_nil_or_concat state.back with empty | ⟨earlier, last, shape⟩
  next => simp [empty]
  next => simp [shape, position]

theorem goBack_back : state.goBack.back = state.back.dropLast := by
  unfold goBack
  rcases List.eq_nil_or_concat state.back with empty | ⟨earlier, last, shape⟩
  next => simp [empty]
  next => simp [shape]

structure Placed (start : ViewMode) (state : Navigation) : Prop where
  bounded : state.back.length ≤ maxBackDepth
  rooted : state.trail.head?.map Frame.view = some start

def Distinct : Prop := state.trail.IsChain (· ≠ ·)

theorem began_placed : (began snapshot).Placed snapshot.view :=
  ⟨Nat.zero_le _, rfl⟩

theorem began_distinct : (began snapshot).Distinct := List.isChain_singleton _

theorem forget_head (first : Step) (rest : List Step) : (forget (first :: rest)).head? = some first := by
  unfold forget
  split
  case isTrue => cases rest <;> rfl
  case isFalse => rfl

theorem forget_length (bounded : steps.length ≤ maxBackDepth + 1) : (forget steps).length ≤ maxBackDepth:= by
  unfold forget
  split
  case isTrue beyond => grind [maxBackDepth, List.length_eraseIdx]
  case isFalse room => omega

theorem trail_head (frame : Frame) (stepped : List Frame) (full : state.back ≠ []) :
    (state.back ++ stepped).head? = (state.back ++ [frame]).head? := by
  cases shape : state.back with
  | nil => exact absurd shape full
  | cons first rest => rfl

theorem landing_view (drilled : ¬ move.drills) : (state.landing move).view = state.view:= by
  cases move with
  | openMailbox mailbox | openFlagged account | openView scope =>
    simp only [landing, landing.cleared, position]
    split <;> rfl
  | openConversation | openMessage | openComposer => exact absurd rfl drilled
  | _ => rfl

theorem mutate_stayed_back (drilled : ¬ move.drills) (back : move ≠ .back) :
    (state.mutate move).back = state.back := by
  have lengths := trail_stayed state move drilled back
  simp only [trail] at lengths
  exact (List.append_inj' lengths rfl).1

theorem mutate_drilled_back (drilled : move.drills) : (state.mutate move).back = forget state.trail:= by
  have lengths := trail_drilled state move drilled
  simp only [trail] at lengths
  exact (List.append_inj' lengths rfl).1

theorem Placed.mutate {state : Navigation} (placed : state.Placed start) (move : Mutation) :
    (state.mutate move).Placed start := by
  by_cases drilled : move.drills
  case pos =>
    constructor
    case bounded =>
      rw [mutate_drilled_back state move drilled]
      apply forget_length
      simpa [trail] using placed.bounded
    case rooted =>
      rw [trail_drilled state move drilled]
      obtain ⟨first, rest, shape⟩ : ∃ first rest, state.trail = first :: rest :=
        List.exists_cons_of_ne_nil (by simp [trail])
      have rooted := placed.rooted
      rw [shape] at rooted ⊢
      have head := forget_head first rest
      rw [List.head?_append, head]
      exact rooted
  case neg =>
    by_cases back : move = .back
    case pos =>
      subst back
      change state.goBack.Placed start
      constructor
      case bounded =>
        rw [goBack_back, List.length_dropLast]
        exact Nat.le_trans (Nat.sub_le _ _) placed.bounded
      case rooted =>
        rw [trail_back]
        split
        next => exact placed.rooted
        next full =>
          have rooted := placed.rooted
          rwa [trail, ← trail_head state state.position [] full, List.append_nil] at rooted
    case neg =>
      constructor
      case bounded =>
        rw [mutate_stayed_back state move drilled back]
        exact placed.bounded
      case rooted =>
        rw [trail_stayed state move drilled back]
        have rooted := placed.rooted
        cases shape : state.back with
        | nil =>
          simp only [trail, shape, List.nil_append, List.head?_cons, Option.map_some, Option.some.injEq] at rooted ⊢
          rw [landing_view state move drilled]
          exact rooted
        | cons first rest =>
          rw [trail, shape] at rooted
          exact rooted

theorem commit_back_silent : (state.commit .back).2 = [] ↔ state.goBack.position = state.position:= by
  constructor
  next =>
    intro silent
    obtain ⟨view, selected, focus⟩ := commit_silent state .back silent
    change state.goBack.view = state.view at view
    change state.goBack.selected = state.selected at selected
    change state.goBack.focus = state.focus at focus
    simp [position, view, selected, focus]
  next =>
    intro same
    simp only [position, Frame.mk.injEq] at same
    have viewing : state.goBack.viewing = state.viewing := by
      unfold goBack
      split <;> rfl
    simp [commit, mutate, diff, same, viewing]

theorem goBack_position :
    state.goBack.position = state.back.getLast?.getD state.position := by
  unfold goBack
  split
  next empty => simp [empty]
  next frame top => simp [top, position]

theorem GoesBack.topApart {state : Navigation} (goes : state.GoesBack start) :
    state.back.getLast? ≠ some state.position := by
  intro top
  have silent := (commit_back_silent state).mpr (by rw [goBack_position, top]; rfl)
  simp [goes.silent silent] at top

theorem distinct_concat :
    state.Distinct ↔ state.back.IsChain (· ≠ ·) ∧ state.back.getLast? ≠ some state.position := by
  unfold Distinct trail
  rw [List.isChain_append]
  constructor
  next =>
    rintro ⟨chain, -, apart⟩
    exact ⟨chain, fun top => apart _ top state.position rfl rfl⟩
  next =>
    rintro ⟨chain, apart⟩
    refine ⟨chain, List.isChain_singleton _, fun frame top next here => ?_⟩
    cases here
    rintro rfl
    exact apart top

theorem Distinct.goBack {state : Navigation} (distinct : state.Distinct) : state.goBack.Distinct := by
  unfold Distinct
  rw [trail_back]
  split
  next => exact distinct
  next => exact ((distinct_concat state).mp distinct).1

theorem Distinct.goesBack {state : Navigation} (distinct : state.Distinct)
    (placed : state.Placed start) : state.GoesBack start := by
  have silent : forall state : Navigation, state.Distinct -> (state.commit .back).2 = [] -> state.back = [] := by
    intro state distinct silent
    have same := (commit_back_silent state).mp silent
    rw [goBack_position] at same
    cases top : state.back.getLast? with
    | none => exact List.getLast?_eq_none_iff.mp top
    | some frame =>
      rw [top] at same
      exact absurd (by rw [top]; exact congrArg some same) ((distinct_concat state).mp distinct).2
  refine ⟨silent state distinct, ?_⟩
  -- Each back that says something takes a step off the stack.
  induction depth : state.back.length generalizing state with
  | zero =>
    have empty := List.length_eq_zero_iff.mp depth
    have stays : state.goBack = state := by simp [Navigation.goBack, empty]
    have quiet : (state.commit .back).2 = [] := (commit_back_silent state).mpr (by rw [stays])
    have view := placed.rooted
    refine ⟨1, state.goBack, if_pos (List.isEmpty_iff.mpr quiet), ?_⟩
    simpa [stays, trail, empty, position] using view
  | succ steps ih =>
    have speaks : (state.commit .back).2 ≠ [] := by
      intro quiet
      simp [silent state distinct quiet] at depth
    have popped : state.goBack.back.length = steps := by
      rw [goBack_back, List.length_dropLast, depth, Nat.add_sub_cancel]
    obtain ⟨calls, outside, ends, view⟩ := ih distinct.goBack (placed.mutate .back) popped
    refine ⟨calls + 1, outside, ?_, view⟩
    have loud : (state.commit .back).2.isEmpty = false := by simpa using speaks
    simp only [unwind, loud]
    exact ends

def backs (count : Nat) : List Mutation := List.replicate count .back

theorem run_backs_succ (count : Nat) :
    state.run (backs (count + 1)) = state.goBack.run (backs count) := rfl

theorem distinct_iff {state : Navigation} (placed : state.Placed start) :
    (forall count, (state.run (backs count)).GoesBack start) ↔ state.Distinct := by
  constructor
  next =>
    intro goes
    induction depth : state.back.length generalizing state with
    | zero =>
      have empty := List.length_eq_zero_iff.mp depth
      simp [Distinct, trail, empty]
    | succ steps ih =>
      have popped : state.goBack.back.length = steps := by
        rw [goBack_back, List.length_dropLast, depth, Nat.add_sub_cancel]
      have below := ih (placed.mutate .back) (fun count => run_backs_succ state count ▸ goes (count + 1)) popped
      have full : state.back ≠ [] := by
        intro empty
        simp [empty] at depth
      change state.goBack.trail.IsChain (· ≠ ·) at below
      rw [trail_back, if_neg full] at below
      exact (distinct_concat state).mpr ⟨below, (goes 0).topApart⟩
  next =>
    intro distinct count
    induction count generalizing state with
    | zero => exact distinct.goesBack placed
    | succ count ih =>
      rw [run_backs_succ]
      exact ih (placed.mutate .back) distinct.goBack

theorem forget_chain (last : Step) (bounded : steps.length ≤ maxBackDepth)
    (chain : (steps ++ [last]).IsChain (· ≠ ·)) :
    (forget (steps ++ [last])).IsChain (· ≠ ·) ↔ (steps.length = maxBackDepth -> steps[0]? ≠ steps[2]?) := by
  unfold forget
  split
  case isTrue beyond =>
    have full : steps.length = maxBackDepth := by
      simp only [List.length_append, List.length_singleton] at beyond
      omega
    obtain ⟨first, second, third, rest, rfl⟩ : ∃ first second third rest, steps = first :: second :: third :: rest := by
      match steps, full with
      | first :: second :: third :: rest, _ => exact ⟨first, second, third, rest, rfl⟩
    simp only [full, forall_const, List.getElem?_cons_zero, List.getElem?_cons_succ, ne_eq, Option.some.injEq,
      List.cons_append, List.eraseIdx_cons_succ, List.eraseIdx_cons_zero, List.isChain_cons_cons] at chain ⊢
    exact ⟨fun kept => kept.1, fun apart => ⟨apart, chain.2.2⟩⟩
  case isFalse room =>
    simp only [List.length_append, List.length_singleton] at room
    refine ⟨fun _ full => ?_, fun _ => chain⟩
    omega

theorem forget_last (last : Step) : (forget (steps ++ [last])).getLast? = some last:= by
  unfold forget
  split
  case isTrue beyond =>
    match steps, beyond with
    | [], beyond => simp [maxBackDepth] at beyond
    | [first], beyond => simp [maxBackDepth] at beyond
    | first :: second :: rest, _ =>
      rw [List.cons_append, List.cons_append, List.eraseIdx_cons_succ, List.eraseIdx_cons_zero, ← List.cons_append]
      exact List.getLast?_concat
  case isFalse => simp

theorem apart_iff {state : Navigation} (placed : state.Placed start) (distinct : state.Distinct)
    (move : Mutation) : (state.mutate move).Distinct ↔ state.Apart move := by
  by_cases drilled : move.drills
  case pos =>
    unfold Distinct Apart
    rw [trail_drilled state move drilled, List.isChain_append, if_pos drilled]
    rw [show forget state.trail = forget (state.back ++ [state.position]) from rfl, forget_last,
      forget_chain state.back state.position placed.bounded distinct]
    constructor
    next =>
      rintro ⟨spaced, -, apart⟩
      exact ⟨fun same => apart _ rfl _ rfl same.symm, spaced⟩
    next =>
      rintro ⟨apart, spaced⟩
      refine ⟨spaced, List.isChain_singleton _, fun frame top next here => ?_⟩
      cases top
      cases here
      exact apart.symm
  case neg =>
    unfold Apart
    rw [if_neg drilled]
    by_cases back : move = .back
    case pos =>
      subst back
      rw [if_pos rfl]
      exact iff_of_true distinct.goBack trivial
    case neg =>
      rw [if_neg back, distinct_concat, mutate_stayed_back state move drilled back]
      have here : (state.mutate move).position = state.landing move := by
        have trails := trail_stayed state move drilled back
        unfold trail at trails
        simpa using (List.append_inj' trails rfl).2
      rw [here]
      exact and_iff_right ((distinct_concat state).mp distinct).1

theorem runsApart_iff {state : Navigation} (placed : state.Placed start)
    (distinct : state.Distinct) (moves : List Mutation) :
    (forall before, before <+: moves -> forall count, (state.run (before ++ backs count)).GoesBack start) ↔
      state.RunsApart moves := by
  induction moves generalizing state with
  | nil =>
    simp only [List.prefix_nil, forall_eq, List.nil_append, RunsApart, iff_true]
    exact (distinct_iff placed).mpr distinct
  | cons move rest ih =>
    constructor
    next =>
      intro goes
      have stepped : (state.mutate move).Distinct := (distinct_iff (placed.mutate move)).mp
        (fun count => goes [move] (by simp) count)
      refine ⟨(apart_iff placed distinct move).mp stepped, (ih (placed.mutate move) stepped).mp ?_⟩
      intro before inside count
      exact goes (move :: before) (List.cons_prefix_cons.mpr ⟨rfl, inside⟩) count
    next =>
      rintro ⟨apart, later⟩ before inside count
      have stepped := (apart_iff placed distinct move).mpr apart
      cases before with
      | nil => exact (distinct_iff placed).mpr distinct count
      | cons first before =>
        obtain ⟨rfl, within⟩ := List.cons_prefix_cons.mp inside
        exact (ih (placed.mutate first) stepped).mpr later before within count

/-- Inside a balanced run the stack is the one it started on, with the starting position at the bottom of
what was opened since. -/
theorem balanced_run (base : List Frame) (start : Frame) (moves : List Mutation) (state : Navigation)
    (opened : List Frame) (split : state.back = base ++ opened)
    (bottom : (opened ++ [state.position]).head? = some start)
    (balanced : Balanced (maxBackDepth - base.length) opened.length moves) :
    (state.run moves).position = start ∧ (state.run moves).back = base := by
  induction moves generalizing state opened with
  | nil =>
    have closed : opened = [] := List.length_eq_zero_iff.mp balanced
    subst closed
    exact ⟨Option.some.inj bottom, split.trans (List.append_nil base)⟩
  | cons move rest ih =>
    unfold Balanced at balanced
    change (run (state.mutate move) rest).position = start ∧ (run (state.mutate move) rest).back = base
    by_cases drilled : move.drills
    case pos =>
      rw [if_pos drilled] at balanced
      have deeper : (state.mutate move).back = base ++ (opened ++ [state.position]) := by
        rw [mutate_drilled_back state move drilled, trail, split, List.append_assoc]
        apply if_neg
        simp only [List.length_append, List.length_singleton]
        omega
      refine ih (state.mutate move) (opened ++ [state.position]) deeper ?_ ?_
      next => rw [List.head?_append, bottom, Option.some_or]
      next => simpa using balanced.2
    case neg =>
      rw [if_neg drilled] at balanced
      by_cases back : move = .back
      case pos =>
        rw [if_pos back] at balanced
        subst back
        obtain ⟨earlier, last, rfl⟩ : ∃ earlier last, opened = earlier ++ [last] := by
          have some := List.ne_nil_of_length_pos balanced.1
          exact ⟨opened.dropLast, opened.getLast some, (List.dropLast_append_getLast some).symm⟩
        have here : state.goBack.position = last := by rw [goBack_position, split, ← List.append_assoc]; simp
        refine ih state.goBack earlier ?_ ?_ ?_
        next => rw [goBack_back, split, ← List.append_assoc, List.dropLast_concat]
        next =>
          rw [here]
          rwa [List.append_assoc, List.head?_append, List.singleton_append, List.head?_cons,
            ← List.head?_cons (l := []), ← List.head?_append] at bottom
        next => simpa using balanced.2
      case neg =>
        rw [if_neg back] at balanced
        refine ih (state.mutate move) opened ?_ ?_ balanced.2
        next => rw [mutate_stayed_back state move drilled back, split]
        next =>
          -- Below the position stands at least one step, so the bottom is not the position that moved.
          obtain ⟨first, later, rfl⟩ := List.exists_cons_of_length_pos balanced.1
          exact bottom

theorem goesBack_exact (moves : List Mutation) :
    (Balanced (maxBackDepth - state.back.length) 0 moves -> (state.run moves).position = state.position) ∧
    ((forall before, before <+: moves -> forall count,
        ((began snapshot).run (before ++ backs count)).GoesBack snapshot.view) ↔
      (began snapshot).RunsApart moves) := by
  refine ⟨fun balanced => ?_, ?_⟩
  next => exact (balanced_run state.back state.position moves state [] (by simp) rfl balanced).1
  next => exact runsApart_iff (began_placed snapshot) (began_distinct snapshot) moves

def untouched : StateSnapshot :=
  { selected := .these [], viewing := none, focus := none, scope := .unified, view := .list }

def reopened : Navigation := (began untouched).run [.openConversation ⟨5⟩, .openConversation ⟨5⟩]

/-- Back says nothing with two steps on the stack, and the way out ends inside the conversation. -/
theorem reopened_stuck :
    (reopened.commit .back).2 = [] ∧ reopened.back ≠ [] ∧
      forall calls outside, reopened.unwind calls = some outside -> outside.view ≠ untouched.view := by
  refine ⟨by decide, by decide, ?_⟩
  intro calls outside ends
  cases calls with
  | zero => cases ends
  | succ calls =>
    have stopped : some (reopened.commit .back).1 = some outside := ends
    cases stopped
    decide

end Navigation

end Postio

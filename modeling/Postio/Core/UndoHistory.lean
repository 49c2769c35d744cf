import Mathlib.Data.List.Induction
import Mathlib.Data.List.Pairwise
import Mathlib.Data.List.Perm.Basic
import Postio.Core.UndoStack
import Postio.Session.Command

set_option autoImplicit false

namespace Postio.Core

/-! What is undone, told from the actions: every action belongs to one gesture, and a gesture is offered until it is taken back,
pushed out or too old. -/

variable {Kind Command : Type}

/-- An action that was recorded, numbered in the order of recording. -/
structure Action (Kind Command : Type) where
  number : Nat
  entry : UndoEntry Kind Command
  time : Nat

structure Gesture (Kind Command : Type) where
  first : Action Kind Command
  more : List (Action Kind Command)

namespace Gesture

def actions (gesture : Gesture Kind Command) : List (Action Kind Command) := gesture.first :: gesture.more

def numbers (gesture : Gesture Kind Command) : List Nat := gesture.actions.map Action.number

def last (gesture : Gesture Kind Command) : Action Kind Command := gesture.more.getLast?.getD gesture.first

def add (gesture : Gesture Kind Command) (action : Action Kind Command) : Gesture Kind Command :=
  { gesture with more := gesture.more ++ [action] }

def entry (gesture : Gesture Kind Command) : UndoEntry Kind Command :=
  gesture.more.foldl (fun entry action => entry.absorb action.entry) gesture.first.entry

def recorded (gesture : Gesture Kind Command) : Recorded Kind Command := { entry := gesture.entry, time := gesture.last.time }

def offered (policy : Policy) (now : Nat) (gesture : Gesture Kind Command) : Bool :=
  !policy.expired gesture.recorded now && !gesture.recorded.closed now

/-- A gesture's entry is made of its actions', which are of one kind and touch no message twice. -/
structure Merged (gesture : Gesture Kind Command) : Prop where
  inverse : gesture.entry.inverse = gesture.actions.flatMap (fun action => action.entry.inverse)
  messages : gesture.entry.messages = gesture.actions.flatMap (fun action => action.entry.messages)
  kind : ∀ action ∈ gesture.actions, action.entry.kind = gesture.entry.kind
  apart : gesture.actions.Pairwise (fun first second => first.entry.messages.Disjoint second.entry.messages)

@[simp]
theorem add_actions (gesture : Gesture Kind Command) (action : Action Kind Command) :
    (gesture.add action).actions = gesture.actions ++ [action] := by
  simp [actions, add]

@[simp]
theorem add_last (gesture : Gesture Kind Command) (action : Action Kind Command) : (gesture.add action).last = action := by
  simp [last, add]

@[simp]
theorem add_entry (gesture : Gesture Kind Command) (action : Action Kind Command) :
    (gesture.add action).entry = gesture.entry.absorb action.entry := by
  simp [entry, add]

@[simp]
theorem add_numbers (gesture : Gesture Kind Command) (action : Action Kind Command) :
    (gesture.add action).numbers = gesture.numbers ++ [action.number] := by
  simp [numbers]

theorem last_number (gesture : Gesture Kind Command) : gesture.last.number ∈ gesture.numbers := by
  unfold last numbers actions
  cases final : gesture.more.getLast? with
  | none => simp
  | some action => exact List.mem_map_of_mem (List.mem_cons_of_mem _ (List.mem_of_getLast? final))

theorem single_merged (action : Action Kind Command) : Merged { first := action, more := [] } where
  inverse := by simp [entry, actions]
  messages := by simp [entry, actions]
  kind := by simp [entry, actions]
  apart := by simp [actions]

theorem add_merged [DecidableEq Kind] (policy : Policy) (gesture : Gesture Kind Command) (action : Action Kind Command) (now : Nat)
    (merged : gesture.Merged) (joins : policy.joins gesture.recorded action.entry now = true) : (gesture.add action).Merged := by
  have kind : gesture.entry.kind = action.entry.kind := by
    simp only [Policy.joins, Bool.and_eq_true, decide_eq_true_eq] at joins
    exact joins.1.1.1.1
  have apart : gesture.entry.messages.Disjoint action.entry.messages := by
    simp only [Policy.joins, Bool.and_eq_true, Bool.not_eq_true', UndoEntry.overlaps, Bool.or_eq_false_iff,
      List.any_eq_false] at joins
    intro message before after
    exact joins.2.2 message after (List.contains_iff_mem.mpr before)
  constructor
  next =>
    rw [add_entry, add_actions, List.flatMap_append, ← merged.inverse]
    simp [UndoEntry.absorb]
  next =>
    rw [add_entry, add_actions, List.flatMap_append, ← merged.messages]
    simp [UndoEntry.absorb]
  next =>
    intro other inside
    rw [add_entry]
    rcases List.mem_append.mp (add_actions gesture action ▸ inside) with before | new
    next => exact merged.kind other before
    next =>
      cases List.mem_singleton.mp new
      exact kind.symm
  next =>
    rw [add_actions, List.pairwise_append]
    refine ⟨merged.apart, List.pairwise_singleton _ _, ?_⟩
    intro earlier inside new among
    cases List.mem_singleton.mp among
    rw [merged.messages] at apart
    exact fun message before after => apart (List.mem_flatMap.mpr ⟨earlier, inside, before⟩) after

theorem offered_later (policy : Policy) (gesture : Gesture Kind Command) (now later : Nat) (after : now ≤ later)
    (offered : gesture.offered policy later = true) : gesture.offered policy now = true := by
  unfold Gesture.offered Policy.expired Recorded.closed at offered ⊢
  simp only [Bool.and_eq_true, Bool.not_eq_true', decide_eq_false_iff_not] at offered ⊢
  refine ⟨by omega, ?_⟩
  cases windowed : gesture.recorded.entry.window with
  | none => rfl
  | some window =>
    rw [windowed] at offered
    simp only [Option.any_some, decide_eq_false_iff_not] at offered ⊢
    omega

end Gesture

/-- Every gesture there was. -/
structure History (Kind Command : Type) where
  standing : List (Gesture Kind Command)
  aged : List (Gesture Kind Command)
  returned : List (Gesture Kind Command)
  evicted : List (Gesture Kind Command)
  recorded : Nat

namespace History

def empty (Kind Command : Type) : History Kind Command :=
  { standing := [], aged := [], returned := [], evicted := [], recorded := 0 }

def unspent (history : History Kind Command) : List (Gesture Kind Command) := history.standing ++ history.aged

def gestures (history : History Kind Command) : List (Gesture Kind Command) :=
  history.unspent ++ history.returned ++ history.evicted

def age (policy : Policy) (history : History Kind Command) (now : Nat) : History Kind Command :=
  { history with
    standing := history.standing.filter (fun gesture => gesture.offered policy now)
    aged := history.aged ++ history.standing.filter (fun gesture => !gesture.offered policy now) }

def push (policy : Policy) (history : History Kind Command) (gesture : Gesture Kind Command) : History Kind Command :=
  if policy.depth < (history.standing ++ [gesture]).length then
    { history with
      standing := (history.standing ++ [gesture]).tail
      evicted := history.evicted ++ (history.standing ++ [gesture]).head?.toList
      recorded := history.recorded + 1 }
  else { history with standing := history.standing ++ [gesture], recorded := history.recorded + 1 }

def act [DecidableEq Kind] (policy : Policy) (history : History Kind Command) (entry : UndoEntry Kind Command) (now : Nat) :
    History Kind Command :=
  let action : Action Kind Command := { number := history.recorded, entry, time := now }
  match history.standing.getLast? with
  | some last =>
    if policy.joins last.recorded entry now then
      { history with standing := history.standing.dropLast ++ [last.add action], recorded := history.recorded + 1 }
    else history.push policy { first := action, more := [] }
  | none => history.push policy { first := action, more := [] }

def takeBack (history : History Kind Command) : History Kind Command :=
  { history with
    standing := history.standing.dropLast
    returned := history.returned ++ history.standing.getLast?.toList }

end History

inductive UndoCall (Kind Command : Type) where
  | recordAt (entry : UndoEntry Kind Command) (now : Nat)
  | undoAt (now : Nat)

def UndoCall.time : UndoCall Kind Command -> Nat
  | .recordAt _ now => now
  | .undoAt now => now

structure Served (Kind Command : Type) (policy : Policy) where
  stack : UndoStack Kind Command policy
  answers : List (Option (UndoEntry Kind Command))

variable {policy : Policy}

namespace Served

def step [DecidableEq Kind] (served : Served Kind Command policy) : UndoCall Kind Command -> Served Kind Command policy
  | .recordAt entry now => { served with stack := served.stack.recordAt entry now }
  | .undoAt now =>
    { stack := (served.stack.undoAt now).2, answers := served.answers ++ [(served.stack.undoAt now).1] }

def run [DecidableEq Kind] (policy : Policy) (calls : List (UndoCall Kind Command)) : Served Kind Command policy :=
  calls.foldl step { stack := .empty Kind Command policy, answers := [] }

end Served

namespace History

def step [DecidableEq Kind] (policy : Policy) (history : History Kind Command) : UndoCall Kind Command -> History Kind Command
  | .recordAt entry now => (history.age policy now).act policy entry now
  | .undoAt now => (history.age policy now).takeBack

def run [DecidableEq Kind] (policy : Policy) (calls : List (UndoCall Kind Command)) : History Kind Command :=
  calls.foldl (step policy) (empty Kind Command)

end History

/-- Every action belongs to one gesture, and no gesture but those that stand is offered or will be. -/
structure Balanced (policy : Policy) (now : Nat) (history : History Kind Command) : Prop where
  past : ∀ gesture ∈ history.standing, gesture.last.time ≤ now
  timed : history.standing.Pairwise (fun first second => first.last.time ≤ second.last.time)
  recent : history.standing.Pairwise (fun first second => first.last.number < second.last.number)
  old : ∀ gesture ∈ history.aged, gesture.offered policy now = false
  conserved : (history.gestures.flatMap Gesture.numbers).Perm (List.range history.recorded)
  merged : ∀ gesture ∈ history.gestures, gesture.Merged

theorem dropWhile_eq_filter {A : Type} (related : A -> A -> Prop) (drops : A -> Bool) (values : List A)
    (ordered : values.Pairwise related)
    (earlier : ∀ first second, related first second -> drops second = true -> drops first = true) :
    values.dropWhile drops = values.filter (fun value => !drops value) := by
  induction values with
  | nil => rfl
  | cons head tail ih =>
    have further := ih ordered.of_cons
    cases dropped : drops head with
    | true => simp [dropped, further]
    | false =>
      have kept : ∀ value ∈ tail, (!drops value) = true := by
        intro value inside
        cases later : drops value with
        | true => exact absurd (earlier head value (List.rel_of_pairwise_cons ordered inside) later) (by simp [dropped])
        | false => rfl
      simp [dropped, List.filter_eq_self.mpr kept]

theorem pruned_standing (policy : Policy) (standing : List (Gesture Kind Command)) (now : Nat)
    (timed : standing.Pairwise (fun first second => first.last.time ≤ second.last.time)) :
    policy.pruned (standing.map Gesture.recorded) now =
      (standing.filter (fun gesture => gesture.offered policy now)).map Gesture.recorded := by
  have front := dropWhile_eq_filter (fun first second => first.time ≤ second.time)
    (fun recorded : Recorded Kind Command => policy.expired recorded now) (standing.map Gesture.recorded)
    (List.pairwise_map.mpr timed) (by
      intro first second before late
      simp only [Policy.expired, decide_eq_true_eq] at late ⊢
      omega)
  unfold Policy.pruned
  rw [front, List.filter_filter, List.filter_map]
  refine congrArg _ (List.filter_congr ?_)
  intro gesture _
  exact Bool.and_comm _ _

theorem age_gestures (policy : Policy) (history : History Kind Command) (now : Nat) :
    (history.age policy now).gestures.Perm history.gestures := by
  unfold History.gestures History.unspent History.age
  refine List.Perm.append_right _ (List.Perm.append_right _ ?_)
  have apart := List.filter_append_perm (fun gesture => gesture.offered policy now) history.standing
  refine (List.Perm.append_left _ List.perm_append_comm).trans ?_
  rw [← List.append_assoc]
  exact List.Perm.append_right _ apart

theorem standing_gestures (history : History Kind Command) : history.standing ⊆ history.gestures := by
  intro gesture inside
  exact List.mem_append_left _ (List.mem_append_left _ (List.mem_append_left _ inside))

namespace Balanced

theorem age (earlier now : Nat) (history : History Kind Command) (balanced : Balanced policy earlier history)
    (after : earlier ≤ now) : Balanced policy now (history.age policy now) where
  past := fun gesture inside => Nat.le_trans (balanced.past gesture (List.mem_filter.mp inside).1) after
  timed := balanced.timed.filter _
  recent := balanced.recent.filter _
  old := by
    intro gesture inside
    rcases List.mem_append.mp inside with before | dropped
    next =>
      cases offered : gesture.offered policy now with
      | false => rfl
      | true =>
        have then_offered := gesture.offered_later policy earlier now after offered
        exact absurd then_offered (by simp [balanced.old gesture before])
    next => simpa using (List.mem_filter.mp dropped).2
  conserved := ((age_gestures policy history now).flatMap_right Gesture.numbers).trans balanced.conserved
  merged := fun gesture inside => balanced.merged gesture ((age_gestures policy history now).subset inside)

theorem numbered (now : Nat) (history : History Kind Command) (balanced : Balanced policy now history)
    (gesture : Gesture Kind Command) (inside : gesture ∈ history.gestures) : gesture.last.number < history.recorded := by
  have among : gesture.last.number ∈ history.gestures.flatMap Gesture.numbers :=
    List.mem_flatMap.mpr ⟨gesture, inside, gesture.last_number⟩
  exact List.mem_range.mp (balanced.conserved.mem_iff.mp among)

theorem topped (now : Nat) (history : History Kind Command) (balanced : Balanced policy now history)
    (below : List (Gesture Kind Command)) (within : below.Sublist history.standing) (gesture : Gesture Kind Command)
    (time : gesture.last.time = now) (number : gesture.last.number = history.recorded) (merged : gesture.Merged)
    (numbers : ((below ++ [gesture]).flatMap Gesture.numbers).Perm
      (history.standing.flatMap Gesture.numbers ++ [history.recorded])) :
    Balanced policy now { history with standing := below ++ [gesture], recorded := history.recorded + 1 } where
  past := by
    intro other inside
    rcases List.mem_append.mp inside with before | new
    next => exact balanced.past other (within.subset before)
    next =>
      cases List.mem_singleton.mp new
      exact Nat.le_of_eq time
  timed := by
    refine List.pairwise_append.mpr ⟨balanced.timed.sublist within, List.pairwise_singleton _ _, ?_⟩
    intro other inside new among
    cases List.mem_singleton.mp among
    rw [time]
    exact balanced.past other (within.subset inside)
  recent := by
    refine List.pairwise_append.mpr ⟨balanced.recent.sublist within, List.pairwise_singleton _ _, ?_⟩
    intro other inside new among
    cases List.mem_singleton.mp among
    rw [number]
    exact balanced.numbered now history other (standing_gestures history (within.subset inside))
  old := balanced.old
  conserved := by
    have before := List.perm_iff_count.mp balanced.conserved
    have added := List.perm_iff_count.mp numbers
    apply List.perm_iff_count.mpr
    intro number
    have first := before number
    have second := added number
    simp only [History.gestures, History.unspent, List.flatMap_append, List.count_append, List.range_succ] at first second ⊢
    omega
  merged := by
    intro other inside
    simp only [History.gestures, History.unspent, List.mem_append, List.mem_singleton] at inside
    rcases inside with (((before | rfl) | before) | before) | before
    next => exact balanced.merged other (standing_gestures history (within.subset before))
    next => exact merged
    next => exact balanced.merged other (by simp [History.gestures, History.unspent, before])
    next => exact balanced.merged other (by simp [History.gestures, History.unspent, before])
    next => exact balanced.merged other (by simp [History.gestures, History.unspent, before])

theorem spent (now : Nat) (history : History Kind Command) (balanced : Balanced policy now history)
    (standing returned evicted : List (Gesture Kind Command)) (within : standing.Sublist history.standing)
    (moved : (standing ++ returned ++ evicted).Perm (history.standing ++ history.returned ++ history.evicted)) :
    Balanced policy now { history with standing, returned, evicted } where
  past := fun gesture inside => balanced.past gesture (within.subset inside)
  timed := balanced.timed.sublist within
  recent := balanced.recent.sublist within
  old := balanced.old
  conserved := by
    have before := List.perm_iff_count.mp balanced.conserved
    have after := List.perm_iff_count.mp (moved.flatMap_right Gesture.numbers)
    apply List.perm_iff_count.mpr
    intro number
    have first := before number
    have second := after number
    simp only [History.gestures, History.unspent, List.flatMap_append, List.count_append] at first second ⊢
    omega
  merged := by
    intro gesture inside
    apply balanced.merged
    have same := moved.mem_iff (a := gesture)
    simp only [History.gestures, History.unspent, List.mem_append] at inside same ⊢
    tauto

end Balanced

/-- The stack holds the gestures that stand, newest last. -/
structure Kept (policy : Policy) (now : Nat) (served : Served Kind Command policy) (history : History Kind Command) : Prop where
  entries : served.stack.entries = history.standing.map Gesture.recorded
  answered : served.answers.filterMap id = history.returned.map Gesture.entry
  balanced : Balanced policy now history

namespace Kept

theorem pushed (now : Nat) (served : Served Kind Command policy) (history : History Kind Command)
    (kept : Kept policy now served history) (entry : UndoEntry Kind Command) (stack : UndoStack Kind Command policy)
    (entries : stack.entries = policy.pushed served.stack.entries { entry, time := now }) :
    Kept policy now { served with stack } (history.push policy
      { first := { number := history.recorded, entry, time := now }, more := [] }) := by
  let gesture : Gesture Kind Command := { first := { number := history.recorded, entry, time := now }, more := [] }
  have whole : served.stack.entries ++ [{ entry, time := now }] = (history.standing ++ [gesture]).map Gesture.recorded := by
    rw [kept.entries, List.map_append]
    rfl
  have grown := kept.balanced.topped now history history.standing (List.Sublist.refl _) gesture rfl rfl
    (Gesture.single_merged _) (by
      rw [List.flatMap_append]
      exact List.Perm.refl _)
  unfold Policy.pushed at entries
  rw [whole, List.length_map] at entries
  unfold History.push
  split at entries
  next deep =>
    rw [if_pos deep]
    refine ⟨entries.trans List.map_tail.symm, kept.answered, ?_⟩
    apply grown.spent now
    next => exact List.tail_sublist _
    next =>
      obtain ⟨first, rest, split⟩ : ∃ first rest, history.standing ++ [gesture] = first :: rest :=
        List.exists_cons_of_ne_nil (by simp)
      change ((history.standing ++ [gesture]).tail ++ history.returned ++
        (history.evicted ++ (history.standing ++ [gesture]).head?.toList)).Perm
          (history.standing ++ [gesture] ++ history.returned ++ history.evicted)
      rw [split, List.tail_cons, List.head?_cons, Option.toList_some, ← List.append_assoc]
      exact List.perm_append_comm
  next within =>
    rw [if_neg within]
    exact ⟨entries, kept.answered, grown⟩

theorem acted [DecidableEq Kind] (now : Nat) (served : Served Kind Command policy) (history : History Kind Command)
    (kept : Kept policy now served history) (entry : UndoEntry Kind Command) (stack : UndoStack Kind Command policy)
    (entries : stack.entries = policy.recordInto served.stack.entries entry now) :
    Kept policy now { served with stack } (history.act policy entry now) := by
  have top : served.stack.entries.getLast? = history.standing.getLast?.map Gesture.recorded := by
    rw [kept.entries, List.getLast?_map]
  unfold Policy.recordInto at entries
  unfold History.act
  cases final : history.standing.getLast? with
  | none =>
    rw [top, final] at entries
    exact kept.pushed now served history entry stack entries
  | some last =>
    rw [top, final] at entries
    dsimp only [Option.map_some] at entries ⊢
    split at entries
    next joins =>
      rw [if_pos joins]
      let action : Action Kind Command := { number := history.recorded, entry, time := now }
      have split : history.standing = history.standing.dropLast ++ [last] :=
        (List.dropLast_append_getLast? last final).symm
      refine ⟨?_, kept.answered, ?_⟩
      next =>
        change stack.entries = (history.standing.dropLast ++ [last.add action]).map Gesture.recorded
        rw [entries, kept.entries, List.map_append, List.map_dropLast]
        simp [Gesture.recorded, action]
      next =>
        apply kept.balanced.topped now history _ (List.dropLast_sublist _) (last.add action)
        next => rw [Gesture.add_last]
        next => rw [Gesture.add_last]
        next =>
          have inside := standing_gestures history (List.mem_of_getLast? final)
          exact last.add_merged policy action now (kept.balanced.merged last inside) joins
        next =>
          conv => rhs; rw [split]
          simp [action]
    next apart =>
      rw [if_neg apart]
      exact kept.pushed now served history entry stack entries

theorem takenBack (now : Nat) (served : Served Kind Command policy) (history : History Kind Command)
    (kept : Kept policy now served history) (stack : UndoStack Kind Command policy)
    (entries : stack.entries = served.stack.entries.dropLast) :
    Kept policy now { stack, answers := served.answers ++ [served.stack.entries.getLast?.map Recorded.entry] }
      history.takeBack where
  entries := by
    rw [entries, kept.entries]
    exact List.map_dropLast.symm
  answered := by
    change (served.answers ++ _).filterMap id = (history.returned ++ _).map Gesture.entry
    rw [List.filterMap_append, List.map_append, kept.answered, kept.entries, List.getLast?_map]
    cases history.standing.getLast? <;> rfl
  balanced := by
    apply kept.balanced.spent now
    next => exact List.dropLast_sublist _
    next =>
      cases final : history.standing.getLast? with
      | none => simp [List.getLast?_eq_none_iff.mp final]
      | some last =>
        conv => rhs; rw [← List.dropLast_append_getLast? last final]
        simp only [Option.toList_some, List.append_assoc]
        refine List.Perm.append_left _ ?_
        rw [← List.append_assoc, ← List.append_assoc]
        exact List.Perm.append_right _ List.perm_append_comm

theorem aged (earlier now : Nat) (served : Served Kind Command policy) (history : History Kind Command)
    (kept : Kept policy earlier served history) (after : earlier ≤ now) :
    Kept policy now { served with stack := served.stack.prune now } (history.age policy now) where
  entries := by
    change policy.pruned served.stack.entries now = _
    rw [kept.entries]
    exact pruned_standing policy history.standing now kept.balanced.timed
  answered := kept.answered
  balanced := kept.balanced.age earlier now history after

theorem step [DecidableEq Kind] (earlier : Nat) (served : Served Kind Command policy) (history : History Kind Command)
    (kept : Kept policy earlier served history) (call : UndoCall Kind Command) (after : earlier ≤ call.time) :
    Kept policy call.time (served.step call) (history.step policy call) := by
  have aged := kept.aged earlier call.time served history after
  cases call with
  | recordAt entry now => exact aged.acted now _ _ entry _ rfl
  | undoAt now => exact aged.takenBack now _ _ _ rfl

theorem run [DecidableEq Kind] (calls : List (UndoCall Kind Command)) (ordered : (calls.map UndoCall.time).Pairwise (· ≤ ·)) :
    Kept policy ((calls.map UndoCall.time).getLast?.getD 0) (Served.run policy calls) (History.run policy calls) := by
  induction calls using List.reverseRecOn with
  | nil =>
    refine ⟨rfl, rfl, ?_, .nil, .nil, ?_, .nil, ?_⟩
    next => exact fun gesture inside => absurd inside (List.not_mem_nil)
    next => exact fun gesture inside => absurd inside (List.not_mem_nil)
    next => exact fun gesture inside => absurd inside (List.not_mem_nil)
  | append_singleton calls call ih =>
    rw [List.map_append, List.pairwise_append] at ordered
    have kept := ih ordered.1
    have after : (calls.map UndoCall.time).getLast?.getD 0 ≤ call.time := by
      cases final : (calls.map UndoCall.time).getLast? with
      | none => exact Nat.zero_le _
      | some time => exact ordered.2.2 time (List.mem_of_getLast? final) call.time (by simp)
    have next := kept.step _ _ _ call after
    unfold Served.run History.run at next ⊢
    rw [List.foldl_append, List.foldl_append, List.map_append]
    simpa using next

end Kept

/-- The gesture acted in last of those neither taken back nor pushed out that are still offered. -/
structure MostRecent (policy : Policy) (history : History Kind Command) (now : Nat) (gesture : Gesture Kind Command) : Prop where
  unspent : gesture ∈ history.unspent
  offered : gesture.offered policy now = true
  newest : ∀ other ∈ history.unspent, other.offered policy now = true -> other.last.number ≤ gesture.last.number

def Answers (policy : Policy) (history : History Kind Command) (now : Nat) : Option (UndoEntry Kind Command) -> Prop
  | none => ∀ gesture ∈ history.unspent, gesture.offered policy now = false
  | some entry => ∃ gesture, MostRecent policy history now gesture ∧ gesture.entry = entry

/-- After these calls, and at this time, the stack does what is expected of it. -/
structure UndoFaithful [DecidableEq Kind] (policy : Policy) (calls : List (UndoCall Kind Command)) (now : Nat) : Prop where
  bounded : (Served.run policy calls).stack.entries.length ≤ policy.depth
  merged : ∀ gesture ∈ (History.run policy calls).gestures, gesture.Merged
  -- Every action is in one gesture, once, and every gesture in one list, once.
  conserved : ((History.run policy calls).gestures.flatMap Gesture.numbers).Perm
    (List.range (History.run policy calls).recorded)
  returned : (Served.run policy calls).answers.filterMap id = (History.run policy calls).returned.map Gesture.entry
  answers : Answers policy (History.run policy calls) now ((Served.run policy calls).stack.undoAt now).1
  peeked : (Served.run policy calls).stack.peek now = ((Served.run policy calls).stack.undoAt now).1

def UndoStack.Fresh (stack : UndoStack Kind Command policy) (now : Nat) : Prop :=
  (∃ recorded ∈ stack.entries, recorded.closed now = false ∧ policy.expired recorded now = false) ∨
    ∀ recorded ∈ stack.entries, recorded.closed now = true

theorem Kept.answers (earlier now : Nat) (served : Served Kind Command policy) (history : History Kind Command)
    (kept : Kept policy earlier served history) (after : earlier ≤ now) :
    Answers policy history now (served.stack.undoAt now).1 := by
  have aged := kept.aged earlier now served history after
  have within : ∀ gesture ∈ history.unspent, gesture.offered policy now = true ->
      gesture ∈ (history.age policy now).standing := by
    intro gesture inside offered
    rcases List.mem_append.mp inside with stands | old
    next => exact List.mem_filter.mpr ⟨stands, offered⟩
    next =>
      have not_offered := aged.balanced.old gesture (List.mem_append_left _ old)
      exact absurd offered (by simp [not_offered])
  have answer : (served.stack.undoAt now).1 = (history.age policy now).standing.getLast?.map Gesture.entry := by
    change (served.stack.prune now).entries.getLast?.map Recorded.entry = _
    rw [aged.entries, List.getLast?_map, Option.map_map]
    rfl
  rw [answer]
  cases final : (history.age policy now).standing.getLast? with
  | none =>
    intro gesture inside
    cases offered : gesture.offered policy now with
    | false => rfl
    | true =>
      have stands := within gesture inside offered
      rw [List.getLast?_eq_none_iff.mp final] at stands
      cases stands
  | some last =>
    have split := (List.dropLast_append_getLast? last final).symm
    have stands := List.mem_filter.mp (List.mem_of_getLast? final)
    refine ⟨last, ⟨List.mem_append_left _ stands.1, stands.2, ?_⟩, rfl⟩
    intro other inside offered
    have placed := within other inside offered
    have recent := aged.balanced.recent
    rw [split] at placed recent
    rcases List.mem_append.mp placed with before | same
    next => exact Nat.le_of_lt ((List.pairwise_append.mp recent).2.2 other before last (by simp))
    next =>
      cases List.mem_singleton.mp same
      exact Nat.le_refl _

theorem peek_iff (stack : UndoStack Kind Command policy) (now : Nat)
    (timed : stack.entries.Pairwise (fun first second => first.time ≤ second.time)) :
    stack.peek now = (stack.undoAt now).1 <-> stack.Fresh now := by
  have peeked : stack.peek now =
      (stack.entries.filter (fun recorded => !recorded.closed now)).getLast?.map Recorded.entry := by
    unfold UndoStack.peek
    rw [← List.head?_filter, List.filter_reverse, List.head?_reverse]
  have front := dropWhile_eq_filter (fun first second => first.time ≤ second.time)
    (fun recorded : Recorded Kind Command => policy.expired recorded now) stack.entries timed (by
      intro first second before late
      simp only [Policy.expired, decide_eq_true_eq] at late ⊢
      omega)
  have taken : (stack.undoAt now).1 = ((stack.entries.filter (fun recorded => !recorded.closed now)).filter
      (fun recorded => !policy.expired recorded now)).getLast?.map Recorded.entry := by
    change (policy.pruned stack.entries now).getLast?.map Recorded.entry = _
    unfold Policy.pruned
    rw [front, List.filter_comm]
  have sorted := timed.filter (fun recorded => !recorded.closed now)
  have shown : ∀ recorded, recorded ∈ stack.entries.filter (fun recorded => !recorded.closed now) <->
      recorded ∈ stack.entries ∧ recorded.closed now = false := by
    intro recorded
    rw [List.mem_filter, Bool.not_eq_true']
  unfold UndoStack.Fresh
  rw [peeked, taken]
  generalize stack.entries.filter (fun recorded => !recorded.closed now) = open_units at sorted shown ⊢
  cases final : open_units.getLast? with
  | none =>
    have none_open := List.getLast?_eq_none_iff.mp final
    subst none_open
    refine iff_of_true rfl (.inr ?_)
    intro recorded inside
    cases closed : recorded.closed now with
    | true => rfl
    | false => exact absurd ((shown recorded).mpr ⟨inside, closed⟩) List.not_mem_nil
  | some last =>
    have inside := (shown last).mp (List.mem_of_getLast? final)
    have split := (List.dropLast_append_getLast? last final).symm
    rw [split] at sorted
    cases expired : policy.expired last now with
    | false =>
      refine iff_of_true ?_ (.inl ⟨last, inside.1, inside.2, expired⟩)
      rw [split, List.filter_append]
      simp [expired]
    | true =>
      have all_expired : ∀ recorded ∈ open_units, policy.expired recorded now = true := by
        intro recorded among
        rw [split] at among
        rcases List.mem_append.mp among with before | same
        next =>
          have time := (List.pairwise_append.mp sorted).2.2 recorded before last (by simp)
          simp only [Policy.expired, decide_eq_true_eq] at expired ⊢
          omega
        next => exact List.mem_singleton.mp same ▸ expired
      have nothing : open_units.filter (fun recorded => !policy.expired recorded now) = [] := by
        apply List.filter_eq_nil_iff.mpr
        intro recorded among
        simp [all_expired recorded among]
      refine iff_of_false ?_ ?_
      next => simp [nothing]
      next =>
        rintro (⟨recorded, among, open_window, fresh⟩ | closed)
        next => simp [all_expired recorded ((shown recorded).mpr ⟨among, open_window⟩)] at fresh
        next => simp [closed last inside.1] at inside

/-- The stack does what is expected of it at a time unless all that it could peek at has expired. -/
theorem undoAt_faithful [DecidableEq Kind] (policy : Policy) (calls : List (UndoCall Kind Command)) (now : Nat)
    (ordered : (calls.map UndoCall.time ++ [now]).Pairwise (· ≤ ·)) :
    UndoFaithful policy calls now <-> (Served.run policy calls).stack.Fresh now := by
  have times := List.pairwise_append.mp ordered
  have kept : Kept policy _ _ _ := Kept.run calls times.1
  have after : (calls.map UndoCall.time).getLast?.getD 0 ≤ now := by
    cases final : (calls.map UndoCall.time).getLast? with
    | none => exact Nat.zero_le _
    | some time => exact times.2.2 time (List.mem_of_getLast? final) now (by simp)
  have timed : (Served.run policy calls).stack.entries.Pairwise (fun first second => first.time ≤ second.time) := by
    rw [kept.entries]
    exact List.pairwise_map.mpr kept.balanced.timed
  constructor
  next => exact fun faithful => (peek_iff _ now timed).mp faithful.peeked
  next =>
    intro fresh
    exact {
      bounded := (Served.run policy calls).stack.bounded
      merged := kept.balanced.merged
      conserved := kept.balanced.conserved
      returned := kept.answered
      answers := kept.answers _ now _ _ after
      peeked := (peek_iff _ now timed).mpr fresh }

def archivedTwo : List (UndoCall UndoKind Postio.Command) :=
  [.recordAt (.new .archive [⟨1⟩] [.move (.messages [⟨1⟩]) (some ⟨7⟩)]) 0,
    .recordAt (.new .archive [⟨2⟩] [.move (.messages [⟨2⟩]) (some ⟨7⟩)]) 400]

theorem archivedTwo_faithful : UndoFaithful .new archivedTwo 600400 :=
  (undoAt_faithful .new archivedTwo 600400 (by decide)).mpr (.inl ⟨_, List.mem_singleton.mpr rfl, by decide, by decide⟩)

/-- A millisecond later they are peeked at and not taken back. -/
theorem archivedTwo_peeked :
    ¬ ∀ (policy : Policy) (calls : List (UndoCall UndoKind Postio.Command)) (now : Nat),
      (calls.map UndoCall.time ++ [now]).Pairwise (· ≤ ·) -> UndoFaithful policy calls now := by
  intro always
  have faithful := always .new archivedTwo 600401 (by decide)
  exact absurd faithful.peeked (by decide)

end Postio.Core

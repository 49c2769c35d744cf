import Postio.Sync.Coalesce

set_option autoImplicit false

namespace Postio

open Keyed

abbrev FlagState := MessageId -> FlagSet

def applyFlags (operation : Operation) (flags : FlagSet) : FlagSet :=
  match operation with
  | .setFlags added => flags ∪ added
  | .clearFlags removed => flags \ removed
  | _ => flags

variable (flag : Flag) (server : FlagState) (operations : List Operation) (batch : List QueuedOperation)
    (start : Bool)

def applyFlagsAll (flags : FlagSet) : FlagSet :=
  operations.foldl (fun flags operation => applyFlags operation flags) flags

def replayFlags : FlagState :=
  batch.foldl (applyTo (fun queued => messageOf queued.target) (fun queued => applyFlags queued.operation)) server

def executeFlags (steps : List Step) : FlagState :=
  steps.foldl (applyTo (fun step => messageOf step.target) (fun step => applyFlags step.operation)) server

theorem replayFlags_at (message : MessageId) :
    replayFlags server batch message = applyFlagsAll (operationsFor (.message message) batch) (server message) := by
  simp only [replayFlags, foldl_applyTo, touching, messageOf_eq_some, applyFlagsAll, operationsFor, rowsFor,
    List.foldl_map]

theorem executeFlags_coalesce (ordered : InQueueOrder batch) (message : MessageId) :
    executeFlags server (coalesce batch).steps message =
      applyFlagsAll (Stack.fold merge (operationsFor (.message message) batch)) (server message) := by
  simp only [executeFlags, foldl_applyTo, touching, messageOf_eq_some, applyFlagsAll,
    ← coalesce_operations_for _ batch ordered, List.foldl_map]

/-! One flag at a time: an operation sets it, clears it, or does not name it. -/

def polarity : Operation -> Option Bool
  | .setFlags flags => if flag ∈ flags then some true else none
  | .clearFlags flags => if flag ∈ flags then some false else none
  | _ => none

def shown : Bool :=
  operations.foldl (fun present operation => (polarity flag operation).getD present) start

theorem mem_applyFlags (operation : Operation) (flags : FlagSet) :
    decide (flag ∈ applyFlags operation flags) = (polarity flag operation).getD (decide (flag ∈ flags)) := by
  cases operation
  case setFlags added => by_cases named : flag ∈ added <;> simp [applyFlags, polarity, named]
  case clearFlags removed => by_cases named : flag ∈ removed <;> simp [applyFlags, polarity, named]
  all_goals rfl

theorem mem_applyFlagsAll (flags : FlagSet) :
    decide (flag ∈ applyFlagsAll operations flags) = shown flag operations (decide (flag ∈ flags)) := by
  induction operations generalizing flags with
  | nil => rfl
  | cons operation rest ih =>
    have next := ih (applyFlags operation flags)
    rw [mem_applyFlags] at next
    exact next

@[simp]
theorem shown_nil : shown flag [] start = start := rfl

theorem shown_concat (last : Operation) (start : Bool) :
    shown flag (operations ++ [last]) start = (polarity flag last).getD (shown flag operations start) := by
  simp [shown]

theorem mergeOpposite_into (set cleared : FlagSet) (later joined : Operation)
    (merged : mergeOpposite set cleared later = .into joined) : set ⊆ cleared ∧ joined = later := by
  unfold mergeOpposite at merged
  split_ifs at merged with covered
  cases merged
  exact ⟨Finset.sdiff_eq_empty_iff_subset.mp covered, rfl⟩

theorem mergeOpposite_cancelled (set cleared : FlagSet) (later : Operation)
    (merged : mergeOpposite set cleared later = .cancelled) : set = cleared := by
  unfold mergeOpposite at merged
  split_ifs at merged with covered covers
  exact Finset.Subset.antisymm (Finset.sdiff_eq_empty_iff_subset.mp covered)
    (Finset.sdiff_eq_empty_iff_subset.mp covers)

theorem merge_into_polarity (top operation joined : Operation) (merged : merge top operation = .into joined) :
    polarity flag joined = (polarity flag operation).or (polarity flag top) := by
  unfold merge at merged
  split at merged
  case h_1 | h_2 =>
    cases merged
    simp only [polarity, Finset.mem_union]
    split_ifs <;> simp_all
  case h_3 | h_4 =>
    obtain ⟨within, rfl⟩ := mergeOpposite_into _ _ _ _ merged
    have covers := @within flag
    simp only [polarity]
    split_ifs <;> simp_all
  all_goals
    try split_ifs at merged
    all_goals cases merged
    all_goals rfl

theorem merge_cancelled_polarity (top operation : Operation) (merged : merge top operation = .cancelled) :
    polarity flag top = (polarity flag operation).map (!·) := by
  unfold merge at merged
  split at merged
  case h_3 | h_4 =>
    rw [mergeOpposite_cancelled _ _ _ merged]
    simp only [polarity]
    split_ifs <;> rfl
  all_goals
    try split_ifs at merged
    all_goals cases merged
    all_goals rfl

/-! A cancellation leaves a flag to what lies under it; every other push leaves it as the row would. -/

theorem push_shown (stack : List Operation) (operation : Operation) (start : Bool)
    (kept : ∀ below top, stack = below ++ [top] -> merge top operation ≠ .cancelled) :
    shown flag (Stack.push merge stack operation) start =
      (polarity flag operation).getD (shown flag stack start) := by
  rcases List.eq_nil_or_concat' stack with rfl | ⟨below, top, rfl⟩
  · rfl
  · rw [Stack.push_concat]
    cases merged : merge top operation with
    | into joined =>
      rw [shown_concat, shown_concat, merge_into_polarity flag top operation joined merged]
      cases polarity flag operation <;> simp
    | cancelled => exact absurd merged (kept below top rfl)
    | no => exact shown_concat flag _ operation start

theorem push_unnamed (stack : List Operation) (operation : Operation) (start : Bool)
    (unnamed : polarity flag operation = none) :
    shown flag (Stack.push merge stack operation) start = shown flag stack start := by
  by_cases cancels : ∃ below top, stack = below ++ [top] ∧ merge top operation = .cancelled
  · obtain ⟨below, top, rfl, merged⟩ := cancels
    have silent := merge_cancelled_polarity flag top operation merged
    rw [Stack.push_concat, merged, shown_concat, silent, unnamed]
    rfl
  · rw [push_shown flag stack operation start (fun below top split merged => cancels ⟨below, top, split, merged⟩),
      unnamed]
    rfl

theorem fold_unnamed (later : List Operation) (start : Bool)
    (unnamed : ∀ operation ∈ later, polarity flag operation = none) :
    shown flag (Stack.fold merge (operations ++ later)) start = shown flag (Stack.fold merge operations) start := by
  induction later using List.reverseRecOn with
  | nil => simp
  | append_singleton later last ih =>
    rw [← List.append_assoc, Stack.fold_concat, push_unnamed flag _ last start (unnamed last (by simp))]
    exact ih (fun operation member => unnamed operation (List.mem_append_left _ member))

theorem shown_unnamed (later : List Operation) (start : Bool)
    (unnamed : ∀ operation ∈ later, polarity flag operation = none) :
    shown flag (operations ++ later) start = shown flag operations start := by
  induction later using List.reverseRecOn with
  | nil => simp
  | append_singleton later last ih =>
    rw [← List.append_assoc, shown_concat, unnamed last (by simp), Option.getD_none]
    exact ih (fun operation member => unnamed operation (List.mem_append_left _ member))

theorem last_naming : (∀ operation ∈ operations, polarity flag operation = none) ∨
      ∃ earlier operation later wanted, operations = earlier ++ operation :: later ∧
        polarity flag operation = some wanted ∧ ∀ other ∈ later, polarity flag other = none := by
  induction operations using List.reverseRecOn with
  | nil => exact .inl (by simp)
  | append_singleton operations last ih =>
    cases named : polarity flag last with
    | some wanted => exact .inr ⟨operations, last, [], wanted, rfl, named, by simp⟩
    | none =>
      rcases ih with silent | ⟨earlier, operation, later, wanted, split, names, unnamed⟩
      · exact .inl (by simpa [or_imp, forall_and, named] using silent)
      · exact .inr ⟨earlier, operation, later ++ [last], wanted, by simp [split], names,
          by simpa [or_imp, forall_and, named] using unnamed⟩

def QuietAt : Prop :=
  -- Wherever the last change that names the flag cancels against the newest step, the flag already stands, after the
  -- steps below, as that change wants it.
  ∀ earlier operation later below top wanted, operations = earlier ++ operation :: later ->
    polarity flag operation = some wanted -> (∀ other ∈ later, polarity flag other = none) ->
      Stack.fold merge earlier = below ++ [top] -> merge top operation = .cancelled ->
        shown flag below start = wanted

theorem fold_shown_iff (present original : Bool)
    (untouched : (∀ operation ∈ operations, polarity flag operation = none) -> present = original) :
    shown flag (Stack.fold merge operations) present = shown flag operations original <->
      QuietAt flag operations present := by
  -- What the rows leave is what the last row that names the flag wants.
  have replayed (earlier later : List Operation) (operation : Operation) (wanted : Bool)
      (split : operations = earlier ++ operation :: later) (named : polarity flag operation = some wanted)
      (unnamed : ∀ other ∈ later, polarity flag other = none) : shown flag operations original = wanted := by
    have regroup : operations = (earlier ++ [operation]) ++ later := by simpa using split
    rw [regroup, shown_unnamed flag _ later original unnamed, shown_concat, named, Option.getD_some]
  have folded (earlier later : List Operation) (operation : Operation)
      (split : operations = earlier ++ operation :: later)
      (unnamed : ∀ other ∈ later, polarity flag other = none) :
      shown flag (Stack.fold merge operations) present =
        shown flag (Stack.push merge (Stack.fold merge earlier) operation) present := by
    have regroup : operations = (earlier ++ [operation]) ++ later := by simpa using split
    rw [regroup, fold_unnamed flag _ later present unnamed, Stack.fold_concat]
  constructor
  · intro equal earlier operation later below top wanted split named unnamed newest cancelled
    rw [replayed earlier later operation wanted split named unnamed, folded earlier later operation split unnamed,
      newest, Stack.push_concat, cancelled] at equal
    exact equal
  · intro quiet
    rcases last_naming flag operations with silent | ⟨earlier, operation, later, wanted, split, named, unnamed⟩
    · have left := fold_unnamed flag [] operations present silent
      have right := shown_unnamed flag [] operations original silent
      rw [List.nil_append] at left right
      rw [left, right]
      exact untouched silent
    · rw [replayed earlier later operation wanted split named unnamed, folded earlier later operation split unnamed]
      by_cases cancels : ∃ below top, Stack.fold merge earlier = below ++ [top] ∧ merge top operation = .cancelled
      · obtain ⟨below, top, newest, cancelled⟩ := cancels
        rw [newest, Stack.push_concat, cancelled]
        exact quiet earlier operation later below top wanted split named unnamed newest cancelled
      · rw [push_shown flag _ operation present
          (fun below top newest cancelled => cancels ⟨below, top, newest, cancelled⟩), named, Option.getD_some]

/-! The whole batch. -/

def QuietCancellations : Prop :=
  ∀ message flag, QuietAt flag (operationsFor (.message message) batch) (decide (flag ∈ server message))

theorem coalesce_preserves_flags_iff (ordered : InQueueOrder batch) :
    executeFlags server (coalesce batch).steps = replayFlags server batch <-> QuietCancellations server batch := by
  simp only [funext_iff, executeFlags_coalesce server batch ordered, replayFlags_at, Finset.ext_iff]
  refine forall_congr' fun message => forall_congr' fun flag => ?_
  rw [← fold_shown_iff flag _ _ _ (fun _ => rfl), ← mem_applyFlagsAll, ← mem_applyFlagsAll, decide_eq_decide]

def setThenCleared : List QueuedOperation :=
  queuedFor ⟨7⟩ [(1, .setFlags {.flagged}), (2, .clearFlags {.flagged})]

theorem set_then_cleared_not_preserved :
    ¬ (InQueueOrder setThenCleared ->
      executeFlags (fun _ => {.flagged}) (coalesce setThenCleared).steps =
        replayFlags (fun _ => {.flagged}) setThenCleared) := by
  intro preserved
  have same := congrFun (preserved (by unfold InQueueOrder; decide)) ⟨7⟩
  revert same
  decide

theorem set_then_cleared_quiet : QuietCancellations (fun _ => ∅) setThenCleared :=
  (coalesce_preserves_flags_iff (fun _ => ∅) setThenCleared (by unfold InQueueOrder; decide)).mp
    (by
      funext message
      by_cases same : message = ⟨7⟩
      · subst same
        decide
      · rw [executeFlags_coalesce _ _ (by unfold InQueueOrder; decide), replayFlags_at, setThenCleared,
          operationsFor_other ⟨7⟩ message _ same]
        rfl)

end Postio

import Mathlib.Data.List.Sort
import Postio.Lib.Stack
import Postio.Store.OperationQueue

set_option autoImplicit false

namespace Postio

/-- One operation to send, and the queue rows it settles, in queue order. -/
structure Step where
  operation : Operation
  target : OperationTarget
  rows : List OperationId
  nonempty : rows ≠ []
  deriving DecidableEq

def Step.head (step : Step) : OperationId := step.rows.head step.nonempty

def Step.ofRow (queued : QueuedOperation) : Step :=
  { operation := queued.operation
    target := queued.target
    rows := [queued.id]
    nonempty := by simp }

def Step.join (step : Step) (operation : Operation) (queued : QueuedOperation) : Step :=
  { step with
    operation
    rows := step.rows ++ [queued.id]
    nonempty := by simp }

structure Plan where
  steps : List Step
  obsolete : List OperationId
  deriving DecidableEq

def foldable : Operation -> Bool
  | .setFlags _ | .clearFlags _ | .move _ _ | .delete _ _ | .saveDraft _ | .discardDraft _ _ => true
  | _ => false

def mergeOpposite (set cleared : FlagSet) (later : Operation) : Merged Operation :=
  if set \ cleared = ∅ then
    if cleared \ set = ∅ then .cancelled else .into later
  else .no

def merge : Operation -> Operation -> Merged Operation
  | .setFlags first, .setFlags second => .into (.setFlags (first ∪ second))
  | .clearFlags first, .clearFlags second => .into (.clearFlags (first ∪ second))
  | .setFlags set, .clearFlags cleared => mergeOpposite set cleared (.clearFlags cleared)
  | .clearFlags set, .setFlags cleared => mergeOpposite set cleared (.setFlags cleared)
  | .move source dest, .move via finish =>
    if dest = via then
      if source = finish then .cancelled else .into (.move source finish)
    else .no
  | .move source dest, .delete via trash =>
    if dest = via then .into (.delete source trash) else .no
  | .delete source trash, .move via finish =>
    if trash = via then
      -- The joined move starts at the trash, not at `source`.
      if source = finish then .cancelled else .into (.move trash finish)
    else .no
  | .saveDraft first, .saveDraft second =>
    if first = second then .into (.saveDraft second) else .no
  | .saveDraft first, .discardDraft second remoteId =>
    if first = second then .into (.discardDraft second remoteId) else .no
  | _, _ => .no

/-- The running fold for one target. -/
structure Fold where
  target : OperationTarget
  steps : List Step
  obsolete : List OperationId
  isOpen : Bool
  deriving DecidableEq

variable (target : OperationTarget) (steps : List Step) (message : MessageId) (fold : Fold)
    (batch : List QueuedOperation) (folds : List Fold) (queued : QueuedOperation)

def Fold.push : Fold :=
  if foldable queued.operation then
    match fold.steps.getLast? with
    | none => { fold with steps := fold.steps ++ [Step.ofRow queued] }
    | some previous =>
      match merge previous.operation queued.operation with
      | .into operation => { fold with steps := fold.steps.dropLast ++ [previous.join operation queued] }
      | .cancelled =>
        { fold with
          steps := fold.steps.dropLast
          obsolete := fold.obsolete ++ (previous.rows ++ [queued.id]) }
      | .no => { fold with steps := fold.steps ++ [Step.ofRow queued] }
  else
    { fold with
      steps := fold.steps ++ [Step.ofRow queued]
      isOpen := false }

def Fold.new : Fold :=
  Fold.push { target := queued.target, steps := [], obsolete := [], isOpen := true } queued

/-- The loop body of `coalesce`: the first open fold of the row's target takes it. -/
def pushRow : List Fold -> QueuedOperation -> List Fold
  | [], queued => [Fold.new queued]
  | fold :: folds, queued =>
    if fold.target = queued.target ∧ fold.isOpen then fold.push queued :: folds
    else fold :: pushRow folds queued

def coalesce : Plan :=
  let folds := batch.foldl pushRow []
  { steps := (folds.flatMap Fold.steps).insertionSort (fun first second => first.head ≤ second.head)
    obsolete := (folds.flatMap Fold.obsolete).insertionSort (· ≤ ·) }

theorem merge_unfoldable_left (earlier later : Operation) (barrier : foldable earlier = false) :
    merge earlier later = .no := by
  cases earlier <;> simp_all [foldable, merge]

theorem merge_unfoldable_right (earlier later : Operation) (barrier : foldable later = false) :
    merge earlier later = .no := by
  cases earlier <;> cases later <;> simp_all [foldable, merge]

/-! `coalesce` keeps one stack of steps for each target, barriers included. -/

def pushStep : List Step :=
  match steps.getLast? with
  | none => steps ++ [Step.ofRow queued]
  | some previous =>
    match merge previous.operation queued.operation with
    | .into operation => steps.dropLast ++ [previous.join operation queued]
    | .cancelled => steps.dropLast
    | .no => steps ++ [Step.ofRow queued]

def rowsFor : List QueuedOperation :=
  batch.filter (fun queued => queued.target = target)

def stackFor : List Step :=
  (rowsFor target batch).foldl pushStep []

def stepsOf : List Step :=
  (folds.filter (fun fold => fold.target = target)).flatMap Fold.steps

@[simp]
theorem pushStep_nil : pushStep [] queued = [Step.ofRow queued] := rfl

theorem pushStep_concat (below : List Step) (previous : Step) (queued : QueuedOperation) :
    pushStep (below ++ [previous]) queued =
      match merge previous.operation queued.operation with
      | .into operation => below ++ [previous.join operation queued]
      | .cancelled => below
      | .no => below ++ [previous] ++ [Step.ofRow queued] := by
  cases merged : merge previous.operation queued.operation <;> simp [pushStep, merged]

theorem mem_pushStep (step : Step) (member : step ∈ pushStep steps queued) :
    step ∈ steps ∨ step = Step.ofRow queued ∨
      ∃ previous operation, previous ∈ steps ∧ step = previous.join operation queued := by
  rcases List.eq_nil_or_concat' steps with rfl | ⟨below, previous, rfl⟩
  · exact .inr (.inl (by simpa using member))
  · rw [pushStep_concat] at member
    split at member
    · rcases List.mem_append.mp member with old | joined
      · exact .inl (List.mem_append_left _ old)
      · exact .inr (.inr ⟨previous, _, by simp, by simpa using joined⟩)
    · exact .inl (List.mem_append_left _ member)
    · rcases List.mem_append.mp member with old | new
      · exact .inl old
      · exact .inr (.inl (by simpa using new))

theorem pushStep_targets (same : queued.target = target) (all : ∀ step ∈ steps, step.target = target) :
    ∀ step ∈ pushStep steps queued, step.target = target := by
  intro step member
  rcases mem_pushStep steps queued step member with old | rfl | ⟨previous, operation, old, rfl⟩
  · exact all step old
  · exact same
  · exact all previous old

@[simp]
theorem push_target : (fold.push queued).target = fold.target := by
  unfold Fold.push
  repeat' split
  all_goals rfl

theorem push_steps : (fold.push queued).steps = pushStep fold.steps queued:= by
  unfold Fold.push
  split
  next foldable_row =>
    unfold pushStep
    repeat' split
    all_goals simp_all
  next barrier =>
    have never := fun previous : Step => merge_unfoldable_right previous.operation queued.operation (by simpa using barrier)
    unfold pushStep
    split
    · rfl
    · simp [never]

def Sealed : Prop :=
  ∃ below last, steps = below ++ [last] ∧ foldable last.operation = false

theorem push_closed (wasOpen : fold.isOpen = true)
    (closed : (fold.push queued).isOpen = false) : Sealed (fold.push queued).steps := by
  unfold Fold.push at closed ⊢
  split at closed
  next foldable_row =>
    repeat' split at closed
    all_goals simp_all
  next barrier =>
    rw [if_neg barrier]
    exact ⟨fold.steps, Step.ofRow queued, rfl, by simpa [Step.ofRow] using barrier⟩

theorem pushStep_append (first second : List Step) (queued : QueuedOperation)
    (closed : first = [] ∨ Sealed first) :
    first ++ pushStep second queued = pushStep (first ++ second) queued := by
  rcases List.eq_nil_or_concat' second with rfl | ⟨below, previous, rfl⟩
  · rcases closed with rfl | ⟨below, last, rfl, barrier⟩
    · rfl
    · rw [List.append_nil, pushStep_concat, merge_unfoldable_left _ _ barrier, pushStep_nil]
  · rw [← List.append_assoc, pushStep_concat, pushStep_concat]
    cases merge previous.operation queued.operation <;> simp

/-- Folds of one target are closed, all but the newest. -/
structure WellFolded (folds : List Fold) : Prop where
  newest : folds.Pairwise (fun first second => first.target = second.target -> first.isOpen = false)
  sealed : ∀ fold ∈ folds, fold.isOpen = false -> Sealed fold.steps
  aligned : ∀ fold ∈ folds, ∀ step ∈ fold.steps, step.target = fold.target

theorem wellFolded_nil : WellFolded [] :=
  { newest := List.Pairwise.nil
    sealed := by simp
    aligned := by simp }

theorem WellFolded.tail {fold : Fold} {folds : List Fold} (well : WellFolded (fold :: folds)) :
    WellFolded folds :=
  { newest := (List.pairwise_cons.mp well.newest).2
    sealed := fun other member => well.sealed other (List.mem_cons_of_mem _ member)
    aligned := fun other member => well.aligned other (List.mem_cons_of_mem _ member) }

theorem push_aligned (same : fold.target = queued.target) (aligned : ∀ step ∈ fold.steps, step.target = fold.target) :
    ∀ step ∈ (fold.push queued).steps, step.target = (fold.push queued).target := by
  rw [push_steps, push_target]
  exact pushStep_targets fold.target fold.steps queued same.symm aligned

theorem pushRow_targets (fold : Fold) (member : fold ∈ pushRow folds queued) :
    fold.target = queued.target ∨ fold ∈ folds := by
  induction folds with
  | nil =>
    simp only [pushRow, List.mem_singleton] at member
    exact .inl (by rw [member, Fold.new, push_target])
  | cons head folds ih =>
    rw [pushRow] at member
    split at member
    next taken =>
      rcases List.mem_cons.mp member with rfl | old
      · exact .inl (by rw [push_target, taken.1])
      · exact .inr (List.mem_cons_of_mem _ old)
    next passed =>
      rcases List.mem_cons.mp member with rfl | old
      · exact .inr List.mem_cons_self
      · exact (ih old).imp_right (List.mem_cons_of_mem _)

theorem pushRow_wellFolded (well : WellFolded folds) :
    WellFolded (pushRow folds queued) := by
  induction folds with
  | nil =>
    refine { newest := List.pairwise_singleton _ _, sealed := ?_, aligned := ?_ }
    · intro fold member closed
      simp only [pushRow, List.mem_singleton] at member
      subst member
      exact push_closed _ queued rfl closed
    · intro fold member
      simp only [pushRow, List.mem_singleton] at member
      subst member
      exact push_aligned _ queued rfl (by simp)
  | cons head folds ih =>
    have tail := ih well.tail
    have later := List.pairwise_cons.mp well.newest
    rw [pushRow]
    split
    next taken =>
      refine { newest := List.pairwise_cons.mpr ⟨?_, later.2⟩, sealed := ?_, aligned := ?_ }
      · intro other member same
        rw [push_target] at same
        simp [later.1 other member same] at taken
      · intro fold member closed
        rcases List.mem_cons.mp member with rfl | old
        · exact push_closed head queued taken.2 closed
        · exact well.sealed fold (List.mem_cons_of_mem _ old) closed
      · intro fold member
        rcases List.mem_cons.mp member with rfl | old
        · exact push_aligned head queued taken.1 (well.aligned head List.mem_cons_self)
        · exact well.aligned fold (List.mem_cons_of_mem _ old)
    next passed =>
      refine { newest := List.pairwise_cons.mpr ⟨?_, tail.newest⟩, sealed := ?_, aligned := ?_ }
      · intro other member same
        rcases pushRow_targets folds queued other member with pushed | old
        · simpa [same, pushed] using passed
        · exact later.1 other old same
      · intro fold member closed
        rcases List.mem_cons.mp member with rfl | old
        · exact well.sealed _ List.mem_cons_self closed
        · exact tail.sealed fold old closed
      · intro fold member
        rcases List.mem_cons.mp member with rfl | old
        · exact well.aligned _ List.mem_cons_self
        · exact tail.aligned fold old

theorem stepsOf_cons :
    stepsOf target (fold :: folds) = (if fold.target = target then fold.steps else []) ++ stepsOf target folds := by
  by_cases same : fold.target = target <;> simp [stepsOf, same]

theorem stepsOf_pushRow (well : WellFolded folds) :
    stepsOf target (pushRow folds queued) =
      if queued.target = target then pushStep (stepsOf target folds) queued else stepsOf target folds := by
  induction folds with
  | nil =>
    by_cases same : queued.target = target <;>
      simp [pushRow, stepsOf, Fold.new, push_steps, same]
  | cons head folds ih =>
    rw [pushRow]
    split
    next taken =>
      obtain ⟨same, wasOpen⟩ := taken
      rw [stepsOf_cons, stepsOf_cons, push_target, push_steps, same]
      by_cases here : queued.target = target
      · -- No later fold has this target: the one that takes the row is the newest.
        have none_later : stepsOf target folds = [] := by
          simp only [stepsOf, List.flatMap_eq_nil_iff, List.mem_filter, decide_eq_true_eq]
          rintro other ⟨member, other_target⟩
          have closed := (List.pairwise_cons.mp well.newest).1 other member (by rw [same, here, other_target])
          simp [wasOpen] at closed
        simp [here, none_later]
      · simp [here]
    next passed =>
      rw [stepsOf_cons, stepsOf_cons, ih well.tail]
      by_cases here : queued.target = target
      · rw [if_pos here, if_pos here]
        apply pushStep_append
        by_cases same : head.target = target
        · rw [if_pos same]
          refine .inr (well.sealed head List.mem_cons_self ?_)
          simpa [same, here] using passed
        · exact .inl (if_neg same)
      · rw [if_neg here, if_neg here]

theorem stepsOf_folds (well : WellFolded folds) :
    stepsOf target (batch.foldl pushRow folds) = (rowsFor target batch).foldl pushStep (stepsOf target folds) := by
  induction batch generalizing folds with
  | nil => rfl
  | cons queued batch ih =>
    rw [List.foldl_cons, ih _ (pushRow_wellFolded folds queued well), stepsOf_pushRow target folds queued well]
    by_cases here : queued.target = target <;> simp [rowsFor, here]

theorem foldl_wellFolded (well : WellFolded folds) :
    WellFolded (batch.foldl pushRow folds) := by
  induction batch generalizing folds with
  | nil => exact well
  | cons queued batch ih => exact ih _ (pushRow_wellFolded folds queued well)

theorem filter_flatMap_steps (well : WellFolded folds) :
    (folds.flatMap Fold.steps).filter (fun step => step.target = target) = stepsOf target folds := by
  induction folds with
  | nil => rfl
  | cons head folds ih =>
    rw [List.flatMap_cons, List.filter_append, ih well.tail, stepsOf_cons]
    have aligned := well.aligned head List.mem_cons_self
    congr 1
    split
    next same => exact List.filter_eq_self.mpr (fun step member => by simp [aligned step member, same])
    next other => exact List.filter_eq_nil_iff.mpr (fun step member => by simp [aligned step member, other])

/-! Heads of one stack ascend, so sorting by head keeps each target's steps in stack order. -/

def InQueueOrder : Prop :=
  batch.Pairwise (fun first second => first.id < second.id)

@[simp]
theorem head_join (step : Step) (operation : Operation) (queued : QueuedOperation) :
    (step.join operation queued).head = step.head := by
  simp [Step.head, Step.join, List.head_append_of_ne_nil step.nonempty]

theorem heads_from_rows (rows : List QueuedOperation) :
    ∀ step ∈ rows.foldl pushStep [], ∃ row ∈ rows, step.head = row.id := by
  induction rows using List.reverseRecOn with
  | nil => simp
  | append_singleton rows last ih =>
    intro step member
    rw [List.foldl_append] at member
    rcases mem_pushStep _ last step member with old | rfl | ⟨previous, operation, old, rfl⟩
    · obtain ⟨row, there, same⟩ := ih step old
      exact ⟨row, List.mem_append_left _ there, same⟩
    · exact ⟨last, by simp, rfl⟩
    · obtain ⟨row, there, same⟩ := ih previous old
      exact ⟨row, List.mem_append_left _ there, by rw [head_join, same]⟩

theorem stack_heads_ascend (rows : List QueuedOperation) (ordered : InQueueOrder rows) :
    (rows.foldl pushStep []).Pairwise (fun first second => first.head < second.head) := by
  induction rows using List.reverseRecOn with
  | nil => exact List.Pairwise.nil
  | append_singleton rows last ih =>
    obtain ⟨before, -, above⟩ := List.pairwise_append.mp ordered
    have ascending := ih before
    have below_last : ∀ step ∈ rows.foldl pushStep [], step.head < last.id := by
      intro step member
      obtain ⟨row, there, same⟩ := heads_from_rows rows step member
      rw [same]
      exact above row there last (by simp)
    rw [List.foldl_append, List.foldl_cons, List.foldl_nil]
    rcases List.eq_nil_or_concat' (rows.foldl pushStep []) with empty | ⟨below, previous, split⟩
    · rw [empty]
      exact List.pairwise_singleton _ _
    · rw [split] at ascending below_last ⊢
      rw [pushStep_concat]
      have parts := List.pairwise_append.mp ascending
      cases merge previous.operation last.operation with
      | into operation => simpa [List.pairwise_append] using ascending
      | cancelled => exact parts.1
      | no =>
        refine List.pairwise_append.mpr ⟨ascending, List.pairwise_singleton _ _, ?_⟩
        intro step member new fresh
        simp only [List.mem_singleton] at fresh
        subst fresh
        exact below_last step member

theorem rowsFor_ordered (ordered : InQueueOrder batch) :
    InQueueOrder (rowsFor target batch) := ordered.filter _

instance : Std.Total (fun first second : Step => first.head ≤ second.head) :=
  ⟨fun first second => Nat.le_total first.head.get second.head.get⟩

instance : IsTrans Step (fun first second => first.head ≤ second.head) :=
  ⟨fun _ _ _ => Nat.le_trans⟩

theorem coalesce_steps_for (ordered : InQueueOrder batch) :
    (coalesce batch).steps.filter (fun step => step.target = target) = stackFor target batch := by
  have well := foldl_wellFolded batch [] wellFolded_nil
  have stacked : ((batch.foldl pushRow []).flatMap Fold.steps).filter (fun step => step.target = target) =
      stackFor target batch := by
    rw [filter_flatMap_steps target _ well, stepsOf_folds target batch [] wellFolded_nil]
    rfl
  have ascending := stack_heads_ascend _ (rowsFor_ordered target batch ordered)
  have permuted : ((coalesce batch).steps.filter (fun step => step.target = target)).Perm (stackFor target batch) := by
    rw [← stacked]
    exact (List.perm_insertionSort _ _).filter _
  refine @List.Perm.eq_of_pairwise _ (fun first second => first.head ≤ second.head) _ _ ?_ ?_ ?_ permuted
  · intro first second left right ahead behind
    have distinct : ((stackFor target batch).map Step.head).Nodup :=
      List.pairwise_map.mpr (ascending.imp (fun less same => by
        simp only [OperationId.lt_def, same, Nat.lt_irrefl] at less))
    refine List.inj_on_of_nodup_map distinct (permuted.mem_iff.mp left) right ?_
    simp only [OperationId.le_def] at ahead behind
    exact OperationId.get_injective (Nat.le_antisymm ahead behind)
  · have sorted := List.pairwise_insertionSort (fun first second : Step => first.head ≤ second.head)
      ((batch.foldl pushRow []).flatMap Fold.steps)
    exact sorted.filter _
  · exact ascending.imp (fun less => Nat.le_of_lt less)

/-! The operations of one target's steps are a fold of that target's rows. -/

def operationsFor : List Operation :=
  (rowsFor target batch).map QueuedOperation.operation

theorem map_pushStep : (pushStep steps queued).map Step.operation =
      Stack.push merge (steps.map Step.operation) queued.operation := by
  rcases List.eq_nil_or_concat' steps with rfl | ⟨below, previous, rfl⟩
  · rfl
  · rw [pushStep_concat, List.map_append, List.map_singleton, Stack.push_concat]
    cases merge previous.operation queued.operation <;> simp [Step.join, Step.ofRow]

theorem map_stackFor : (stackFor target batch).map Step.operation = Stack.fold merge (operationsFor target batch):= by
  rw [stackFor, operationsFor]
  induction rowsFor target batch using List.reverseRecOn with
  | nil => rfl
  | append_singleton rows last ih =>
    rw [List.foldl_append, List.map_append, List.map_singleton, Stack.fold_concat, ← ih]
    exact map_pushStep _ last

theorem coalesce_operations_for (ordered : InQueueOrder batch) :
    ((coalesce batch).steps.filter (fun step => step.target = target)).map Step.operation =
      Stack.fold merge (operationsFor target batch) := by
  rw [coalesce_steps_for target batch ordered, map_stackFor]

def messageOf : OperationTarget -> Option MessageId
  | .message id => some id
  | _ => none

@[simp]
theorem messageOf_eq_some :
    messageOf target = some message <-> target = .message message := by
  cases target <;> simp [messageOf]

def queuedFor (operations : List (Nat × Operation)) : List QueuedOperation :=
  operations.map (fun numbered =>
    OperationQueue.fresh ⟨1⟩ (.message message) numbered.2 0 none none ⟨numbered.1⟩)

theorem operationsFor_other (other : MessageId) (operations : List (Nat × Operation))
    (apart : other ≠ message) : operationsFor (.message other) (queuedFor message operations) = [] := by
  simp only [operationsFor, rowsFor, queuedFor, List.map_eq_nil_iff, List.filter_eq_nil_iff, List.mem_map]
  rintro row ⟨numbered, -, rfl⟩
  simp [OperationQueue.fresh, apart.symm]

end Postio

import Mathlib.Algebra.GroupWithZero.Nat
import Postio.Sync.Coalesce

set_option autoImplicit false

namespace Postio

/-! Every row of the batch is behind one step or cancelled, and nothing else is. -/

def Fold.count (fold : Fold) (id : OperationId) : Nat :=
  (fold.steps.flatMap Step.rows).count id + fold.obsolete.count id

variable (rows batch : List QueuedOperation) (folds : List Fold) (step : Step) (id : OperationId)

def foldsCount : Nat :=
  (folds.map (fun fold => fold.count id)).sum

def Plan.ids (plan : Plan) : List OperationId := plan.obsolete ++ plan.steps.flatMap Step.rows

theorem count_push (fold : Fold) (queued : QueuedOperation) (id : OperationId) :
    (fold.push queued).count id = fold.count id + [queued.id].count id := by
  unfold Fold.push Fold.count
  split
  next =>
    rcases List.eq_nil_or_concat' fold.steps with empty | ⟨below, previous, split⟩
    · simp [empty, Step.ofRow, Nat.add_comm]
    · cases merged : merge previous.operation queued.operation <;>
        simp only [split, List.getLast?_concat, merged, List.dropLast_concat, List.flatMap_append,
          List.flatMap_singleton, List.count_append, Step.join, Step.ofRow] <;>
        omega
  next =>
    simp only [List.flatMap_append, List.flatMap_singleton, List.count_append, Step.ofRow]
    omega

theorem count_pushRow (queued : QueuedOperation) (id : OperationId) :
    foldsCount (pushRow folds queued) id = foldsCount folds id + [queued.id].count id := by
  induction folds with
  | nil =>
    have fresh := count_push { target := queued.target, steps := [], obsolete := [], isOpen := true } queued id
    simpa [foldsCount, pushRow, Fold.new, Fold.count] using fresh
  | cons fold folds ih =>
    rw [pushRow]
    split
    next =>
      simp only [foldsCount, List.map_cons, List.sum_cons, count_push]
      omega
    next =>
      simp only [foldsCount, List.map_cons, List.sum_cons] at ih ⊢
      omega

theorem count_folds :
    foldsCount (batch.foldl pushRow folds) id =
      foldsCount folds id + (batch.map QueuedOperation.id).count id := by
  induction batch generalizing folds with
  | nil => simp
  | cons queued batch ih =>
    have parts : (queued.id :: batch.map QueuedOperation.id).count id =
        [queued.id].count id + (batch.map QueuedOperation.id).count id := by
      rw [← List.singleton_append, List.count_append]
    rw [List.foldl_cons, ih, count_pushRow, List.map_cons, parts]
    omega

theorem foldsCount_eq :
    foldsCount folds id =
      ((folds.flatMap Fold.steps).flatMap Step.rows).count id + (folds.flatMap Fold.obsolete).count id := by
  induction folds with
  | nil => rfl
  | cons fold folds ih =>
    simp only [foldsCount, List.map_cons, List.sum_cons, List.flatMap_cons, List.flatMap_append,
      List.count_append] at ih ⊢
    rw [ih, Fold.count]
    omega

theorem coalesce_ids : (coalesce batch).ids.Perm (batch.map QueuedOperation.id):= by
  rw [List.perm_iff_count]
  intro id
  have whole := count_folds batch [] id
  rw [foldsCount_eq] at whole
  have steps := ((List.perm_insertionSort (fun first second : Step => first.head ≤ second.head)
    ((batch.foldl pushRow []).flatMap Fold.steps)).flatMap_right Step.rows).count_eq id
  have obsolete := (List.perm_insertionSort (fun first second : OperationId => first ≤ second)
    ((batch.foldl pushRow []).flatMap Fold.obsolete)).count_eq id
  simp only [Plan.ids, coalesce, List.count_append, steps, obsolete]
  simp only [foldsCount, List.map_nil, List.sum_nil] at whole
  omega

/-! Rows of one target keep their order from step to step. -/

theorem merge_into_foldable (top operation joined : Operation) (merged : merge top operation = .into joined) :
    foldable operation = true ∧ foldable joined = true := by
  unfold merge mergeOpposite at merged
  split at merged
  all_goals
    try split_ifs at merged
    all_goals cases merged
    all_goals exact ⟨rfl, rfl⟩

def Carries (row : QueuedOperation) : Prop :=
  row.operation = step.operation ∨ foldable row.operation = true ∧ foldable step.operation = true

theorem step_rows_from :
    ∀ step ∈ rows.foldl pushStep [], ∀ id ∈ step.rows, ∃ row ∈ rows, row.id = id ∧ Carries step row := by
  induction rows using List.reverseRecOn with
  | nil => simp
  | append_singleton rows last ih =>
    intro step member id inside
    rw [List.foldl_append, List.foldl_cons, List.foldl_nil] at member
    have older (previous : Step) (old : previous ∈ rows.foldl pushStep []) (there : id ∈ previous.rows) :
        ∃ row ∈ rows ++ [last], row.id = id ∧ Carries previous row := by
      obtain ⟨row, found, same⟩ := ih previous old id there
      exact ⟨row, List.mem_append_left _ found, same⟩
    rcases List.eq_nil_or_concat' (rows.foldl pushStep []) with empty | ⟨below, previous, split⟩
    · rw [empty, pushStep_nil, List.mem_singleton] at member
      subst member
      exact ⟨last, by simp, by simpa [Step.ofRow, eq_comm] using inside, .inl rfl⟩
    · have within (other : Step) (under : other ∈ below) : other ∈ rows.foldl pushStep [] := by simp [split, under]
      rw [split, pushStep_concat] at member
      cases merged : merge previous.operation last.operation with
      | into operation =>
        rw [merged] at member
        obtain ⟨lastFolds, joinedFolds⟩ := merge_into_foldable _ _ _ merged
        rcases List.mem_append.mp member with under | joined
        · exact older step (within step under) inside
        · rw [List.mem_singleton.mp joined] at inside ⊢
          rcases List.mem_append.mp inside with there | new
          · obtain ⟨row, found, same, carries⟩ := older previous (by simp [split]) there
            refine ⟨row, found, same, .inr ⟨?_, joinedFolds⟩⟩
            rcases carries with alone | ⟨folds, -⟩
            · by_contra barrier
              rw [merge_unfoldable_left _ _ (by simpa [alone] using barrier)] at merged
              cases merged
            · exact folds
          · exact ⟨last, by simp, by simpa [eq_comm] using new, .inr ⟨lastFolds, joinedFolds⟩⟩
      | cancelled =>
        rw [merged] at member
        exact older step (within step member) inside
      | no =>
        rw [merged] at member
        rcases List.mem_append.mp member with old | new
        · exact older step (by rw [split]; exact old) inside
        · rw [List.mem_singleton.mp new] at inside ⊢
          exact ⟨last, by simp, by simpa [Step.ofRow, eq_comm] using inside, .inl rfl⟩

def RowsBefore (first second : Step) : Prop := ∀ one ∈ first.rows, ∀ other ∈ second.rows, one < other

theorem stack_rows_ascend (ordered : InQueueOrder rows) : (rows.foldl pushStep []).Pairwise RowsBefore:= by
  induction rows using List.reverseRecOn with
  | nil => exact List.Pairwise.nil
  | append_singleton rows last ih =>
    obtain ⟨before, -, above⟩ := List.pairwise_append.mp ordered
    have ascending := ih before
    have below_last : ∀ step ∈ rows.foldl pushStep [], ∀ id ∈ step.rows, id < last.id := by
      intro step member id inside
      obtain ⟨row, there, rfl, -⟩ := step_rows_from rows step member id inside
      exact above row there last (by simp)
    rw [List.foldl_append, List.foldl_cons, List.foldl_nil]
    rcases List.eq_nil_or_concat' (rows.foldl pushStep []) with empty | ⟨below, previous, split⟩
    · rw [empty]
      exact List.pairwise_singleton _ _
    · rw [split] at ascending below_last ⊢
      rw [pushStep_concat]
      obtain ⟨under, -, above⟩ := List.pairwise_append.mp ascending
      have append_last (steps : List Step) (pairs : steps.Pairwise RowsBefore) (next : Step)
          (ahead : ∀ step ∈ steps, RowsBefore step next) : (steps ++ [next]).Pairwise RowsBefore := by
        refine List.pairwise_append.mpr ⟨pairs, List.pairwise_singleton _ _, ?_⟩
        intro step member other fresh
        rw [List.mem_singleton.mp fresh]
        exact ahead step member
      cases merge previous.operation last.operation with
      | into operation =>
        refine append_last below under _ (fun step member one inside other joined => ?_)
        rcases List.mem_append.mp joined with old | new
        · exact above step member previous (by simp) one inside other old
        · rw [List.mem_singleton.mp new]
          exact below_last step (List.mem_append_left _ member) one inside
      | cancelled => exact under
      | no =>
        refine append_last _ ascending _ (fun step member one inside other fresh => ?_)
        rw [List.mem_singleton.mp fresh]
        exact below_last step member one inside

theorem coalesce_step_rows (ordered : InQueueOrder batch) (step : Step)
    (member : step ∈ (coalesce batch).steps) (id : OperationId) (inside : id ∈ step.rows) :
    ∃ row ∈ batch, row.id = id ∧ row.target = step.target ∧ Carries step row := by
  have filtered : step ∈ (coalesce batch).steps.filter (fun other => other.target = step.target) := by
    simp [member]
  rw [coalesce_steps_for step.target batch ordered] at filtered
  obtain ⟨row, there, same, carries⟩ := step_rows_from _ step filtered id inside
  simp only [rowsFor, List.mem_filter, decide_eq_true_eq] at there
  exact ⟨row, there.1, same, there.2, carries⟩

theorem coalesce_steps_ascend (ordered : InQueueOrder batch) :
    (coalesce batch).steps.Pairwise (fun first second => first.target = second.target -> RowsBefore first second) := by
  rw [List.pairwise_iff_forall_sublist]
  intro first second both same
  have ascending := stack_rows_ascend _ (rowsFor_ordered second.target batch ordered)
  change (stackFor second.target batch).Pairwise RowsBefore at ascending
  rw [← coalesce_steps_for second.target batch ordered, List.pairwise_iff_forall_sublist] at ascending
  apply ascending
  have kept := both.filter (fun step => step.target = second.target)
  simpa [same] using kept

/-! ### Nothing folds across a barrier -/

theorem foldl_sealed (steps : List Step) (sealed : Sealed steps) :
    rows.foldl pushStep steps = steps ++ rows.foldl pushStep [] := by
  -- Steps that end in a barrier stay as they are, and what follows is folded by itself.
  induction rows using List.reverseRecOn with
  | nil => simp
  | append_singleton rows last ih =>
    rw [List.foldl_append, List.foldl_append, ih]
    exact (pushStep_append steps _ last (.inr sealed)).symm

theorem pushStep_barrier (steps : List Step) (queued : QueuedOperation) (barrier : foldable queued.operation = false) :
    pushStep steps queued = steps ++ [Step.ofRow queued] := by
  rcases List.eq_nil_or_concat' steps with rfl | ⟨below, previous, rfl⟩
  next => rfl
  next => rw [pushStep_concat, merge_unfoldable_right _ _ barrier]

theorem stackFor_barrier (before after : List QueuedOperation) (queued : QueuedOperation)
    (barrier : foldable queued.operation = false) :
    stackFor queued.target (before ++ queued :: after) =
      stackFor queued.target before ++ Step.ofRow queued :: stackFor queued.target after := by
  have rows : rowsFor queued.target (before ++ queued :: after) =
      rowsFor queued.target before ++ queued :: rowsFor queued.target after := by
    simp [rowsFor]
  unfold stackFor
  rw [rows, List.foldl_append, List.foldl_cons, pushStep_barrier _ queued barrier,
    foldl_sealed _ _ ⟨_, Step.ofRow queued, rfl, barrier⟩, List.append_assoc]
  rfl

/-! ### What a plan keeps of its batch -/

theorem ordered_nodup (ordered : InQueueOrder batch) : (batch.map QueuedOperation.id).Nodup:= by
  apply List.pairwise_map.mpr
  apply ordered.imp
  intro first second less same
  rw [OperationId.lt_def, same] at less
  exact Nat.lt_irrefl _ less

theorem coalesce_ids_nodup (ordered : InQueueOrder batch) : (coalesce batch).ids.Nodup:= (coalesce_ids batch).nodup_iff.mpr (ordered_nodup batch ordered)

theorem head_mem_rows : step.head ∈ step.rows := List.head_mem step.nonempty

theorem coalesce_heads_ascend (ordered : InQueueOrder batch) :
    (coalesce batch).steps.Pairwise (fun first second => first.head < second.head) := by
  -- Two steps share no row, so their heads differ, and sorting by head puts them in strict order.
  have apart : (coalesce batch).steps.Pairwise (fun first second => first.head ≠ second.head) := by
    have rows := (List.nodup_append.mp (coalesce_ids_nodup batch ordered)).2.1
    have disjoint := (List.nodup_flatMap.mp rows).2
    apply disjoint.imp
    intro first second disjoint same
    exact disjoint (head_mem_rows first) (same ▸ head_mem_rows second)
  have sorted := List.pairwise_insertionSort (fun first second : Step => first.head ≤ second.head)
    ((batch.foldl pushRow []).flatMap Fold.steps)
  apply (sorted.and apart).imp
  rintro first second ⟨less, different⟩
  rcases Nat.lt_or_ge first.head.get second.head.get with before | behind
  next => exact before
  next => exact absurd (OperationId.get_injective (Nat.le_antisymm less behind)) different

def Step.last : OperationId := step.rows.getLast step.nonempty

theorem coalesce_lasts_ascend (ordered : InQueueOrder batch) : (coalesce batch).steps.Pairwise (fun first second =>
      first.target = second.target -> first.last < second.last) := by
  apply (coalesce_steps_ascend batch ordered).imp
  intro first second ascend same
  exact ascend same _ (List.getLast_mem first.nonempty) _ (List.getLast_mem second.nonempty)

theorem mem_stackFor (ordered : InQueueOrder batch) (step : Step) :
    step ∈ (coalesce batch).steps <-> step ∈ stackFor step.target batch := by
  rw [← coalesce_steps_for step.target batch ordered, List.mem_filter]
  simp

theorem obsolete_iff (ordered : InQueueOrder batch) (row : QueuedOperation)
    (member : row ∈ batch) :
    row.id ∈ (coalesce batch).obsolete <-> ∀ step ∈ stackFor row.target batch, row.id ∉ step.rows := by
  -- A row is obsolete exactly when no step of its target is left with it.
  have there : row.id ∈ (coalesce batch).ids :=
    (coalesce_ids batch).mem_iff.mpr (List.mem_map_of_mem member)
  have once := List.nodup_append.mp (coalesce_ids_nodup batch ordered)
  constructor
  next =>
    intro obsolete step stacked inside
    have kept : step ∈ (coalesce batch).steps := by
      rw [← coalesce_steps_for row.target batch ordered] at stacked
      exact List.mem_of_mem_filter stacked
    exact once.2.2 row.id obsolete row.id (List.mem_flatMap.mpr ⟨step, kept, inside⟩) rfl
  next =>
    intro outside
    rcases List.mem_append.mp there with obsolete | inside
    next => exact obsolete
    next =>
      obtain ⟨step, kept, holds⟩ := List.mem_flatMap.mp inside
      obtain ⟨other, found, same, target, -⟩ := coalesce_step_rows batch ordered step kept row.id holds
      have equal := List.inj_on_of_nodup_map (ordered_nodup batch ordered) found member same
      subst equal
      rw [target] at outside
      exact absurd holds (outside step ((mem_stackFor batch ordered step).mp kept))

theorem stack_row_mem (target : OperationTarget) (batch : List QueuedOperation) (step : Step)
    (member : step ∈ stackFor target batch) (id : OperationId) (inside : id ∈ step.rows) :
    ∃ row ∈ batch, row.id = id := by
  obtain ⟨row, there, same, -⟩ := step_rows_from _ step member id inside
  exact ⟨row, List.mem_of_mem_filter there, same⟩

/-- Neither joined nor cancelled across it: on its target the plan is the plan of what stands before, the barrier, and
the plan of what stands behind. -/
structure Divides (before after : List QueuedOperation) (barrier : QueuedOperation) (plan : Plan) : Prop where
  steps : plan.steps.filter (fun step => step.target = barrier.target) =
    (coalesce before).steps.filter (fun step => step.target = barrier.target) ++
      Step.ofRow barrier :: (coalesce after).steps.filter (fun step => step.target = barrier.target)
  obsolete : ∀ row ∈ before ++ barrier :: after, row.target = barrier.target ->
    (row.id ∈ plan.obsolete <-> row.id ∈ (coalesce before).obsolete ∨ row.id ∈ (coalesce after).obsolete)

theorem obsolete_mem (obsolete : id ∈ (coalesce batch).obsolete) :
    ∃ row ∈ batch, row.id = id := by
  have listed : id ∈ (coalesce batch).ids := List.mem_append_left _ obsolete
  exact List.mem_map.mp ((coalesce_ids batch).mem_iff.mp listed)

theorem coalesce_divides (before after : List QueuedOperation) (barrier : QueuedOperation)
    (ordered : InQueueOrder (before ++ barrier :: after)) (unfoldable : foldable barrier.operation = false) :
    Divides before after barrier (coalesce (before ++ barrier :: after)) := by
  obtain ⟨first, tail, across⟩ := List.pairwise_append.mp ordered
  obtain ⟨ahead, second⟩ := List.pairwise_cons.mp tail
  have split := stackFor_barrier before after barrier unfoldable
  constructor
  next =>
    rw [coalesce_steps_for _ _ ordered, coalesce_steps_for _ _ first, coalesce_steps_for _ _ second, split]
  next =>
    intro row member same
    have apart : ∀ early ∈ before, ∀ late ∈ barrier :: after, early.id ≠ late.id := by
      intro early one late other equal
      have less := across early one late other
      rw [OperationId.lt_def, equal] at less
      exact Nat.lt_irrefl _ less
    have behind : ∀ late ∈ after, barrier.id ≠ late.id := by
      intro late other equal
      have less := ahead late other
      rw [OperationId.lt_def, equal] at less
      exact Nat.lt_irrefl _ less
    rw [obsolete_iff _ ordered row member, same, split]
    rcases List.mem_append.mp member with early | late
    next =>
      have never : row.id ∉ (coalesce after).obsolete := by
        intro obsolete
        obtain ⟨other, there, equal⟩ := obsolete_mem after row.id obsolete
        exact apart row early other (List.mem_cons_of_mem barrier there) equal.symm
      rw [or_iff_left never, obsolete_iff before first row early, same]
      constructor
      next => exact fun outside step stacked => outside step (List.mem_append_left _ stacked)
      next =>
        intro outside step stacked inside
        rcases List.mem_append.mp stacked with old | new
        next => exact outside step old inside
        next =>
          rcases List.mem_cons.mp new with here | later
          next =>
            rw [here] at inside
            exact apart row early barrier List.mem_cons_self (List.mem_singleton.mp inside)
          next =>
            obtain ⟨other, there, equal⟩ := stack_row_mem _ after step later row.id inside
            exact apart row early other (List.mem_cons_of_mem barrier there) equal.symm
    next =>
      have never : row.id ∉ (coalesce before).obsolete := by
        intro obsolete
        obtain ⟨other, there, equal⟩ := obsolete_mem before row.id obsolete
        exact apart other there row late equal
      rw [or_iff_right never]
      rcases List.mem_cons.mp late with here | later
      next =>
        subst here
        constructor
        next =>
          intro outside
          exact absurd List.mem_cons_self (outside (Step.ofRow row) (List.mem_append_right _ List.mem_cons_self))
        next =>
          intro obsolete
          obtain ⟨other, there, equal⟩ := obsolete_mem after row.id obsolete
          exact absurd equal.symm (behind other there)
      next =>
        rw [obsolete_iff after second row later, same]
        constructor
        next => exact fun outside step stacked =>
          outside step (List.mem_append_right _ (List.mem_cons_of_mem _ stacked))
        next =>
          intro outside step stacked inside
          rcases List.mem_append.mp stacked with old | new
          next =>
            obtain ⟨other, there, equal⟩ := stack_row_mem _ before step old row.id inside
            exact apart other there row late equal
          next =>
            rcases List.mem_cons.mp new with barrierStep | kept
            next =>
              rw [barrierStep] at inside
              exact behind row later (List.mem_singleton.mp inside).symm
            next => exact outside step kept inside

/-- What a plan keeps of the rows it was made from. -/
structure Orderly (batch : List QueuedOperation) (plan : Plan) : Prop where
  once : ∀ row ∈ batch, (plan.steps.flatMap Step.rows ++ plan.obsolete).count row.id = 1
  only : ∀ id ∈ plan.steps.flatMap Step.rows ++ plan.obsolete, ∃ row ∈ batch, row.id = id
  heads : plan.steps.Pairwise (fun first second => first.head < second.head)
  own : ∀ step ∈ plan.steps, ∀ id ∈ step.rows, ∃ row ∈ batch, row.id = id ∧ row.target = step.target
  lasts : plan.steps.Pairwise (fun first second => first.target = second.target -> first.last < second.last)
  barriers : ∀ before barrier after, batch = before ++ barrier :: after -> foldable barrier.operation = false ->
    Divides before after barrier plan

/-- However a batch folds, no row is lost or doubled, and what is left keeps the order of the queue. -/
theorem coalesce_orderly (ordered : InQueueOrder batch) :
    Orderly batch (coalesce batch) := by
  have swapped : ((coalesce batch).steps.flatMap Step.rows ++ (coalesce batch).obsolete).Perm
      (batch.map QueuedOperation.id) := List.perm_append_comm.trans (coalesce_ids batch)
  refine ⟨fun row member => ?_, fun id member => ?_, coalesce_heads_ascend batch ordered,
    fun step member id inside => ?_, coalesce_lasts_ascend batch ordered, fun before barrier after split => ?_⟩
  next =>
    rw [swapped.count_eq]
    exact List.count_eq_one_of_mem (ordered_nodup batch ordered) (List.mem_map_of_mem member)
  next => exact List.mem_map.mp (swapped.mem_iff.mp member)
  next =>
    obtain ⟨row, there, same, target, -⟩ := coalesce_step_rows batch ordered step member id inside
    exact ⟨row, there, same, target⟩
  next =>
    subst split
    exact coalesce_divides before after barrier ordered

theorem coalesce_orderly_moves :
    Orderly (queuedFor ⟨1⟩ [(1, .move ⟨1⟩ ⟨2⟩), (2, .expunge ⟨2⟩), (3, .move ⟨2⟩ ⟨1⟩)])
      (coalesce (queuedFor ⟨1⟩ [(1, .move ⟨1⟩ ⟨2⟩), (2, .expunge ⟨2⟩), (3, .move ⟨2⟩ ⟨1⟩)])) :=
  coalesce_orderly _ (by
    unfold InQueueOrder
    decide)

end Postio

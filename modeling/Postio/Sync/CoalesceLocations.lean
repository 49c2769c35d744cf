import Postio.Sync.Coalesce

set_option autoImplicit false

namespace Postio

open Keyed

abbrev Locations := MessageId -> MailboxId

def relocation : Operation -> Option (MailboxId × MailboxId)
  | .move source dest => some (source, dest)
  | .delete source trash => some (source, trash)
  | _ => none

variable (trash : MailboxId) (server after : Locations) (top : Operation) (operations : List Operation)
    (batch : List QueuedOperation) (start : MailboxId) (operation : Operation)

def relocate (here : MailboxId) : Option MailboxId :=
  -- A move or a delete takes the message out of the mailbox it names; nothing else moves a message.
  match relocation operation with
  | none => some here
  | some (source, dest) => if source = here then some dest else none

def replayLocations : Locations -> List QueuedOperation -> Option Locations :=
  perform (fun queued => messageOf queued.target) (fun queued => relocate queued.operation)

def executeLocations : Locations -> List Step -> Option Locations :=
  perform (fun step => messageOf step.target) (fun step => relocate step.operation)

def Stray : Operation -> Operation -> Prop
  | .delete source trash, .move via finish => trash = via ∧ source ≠ finish ∧ source ≠ trash
  | _, _ => False

def StrayFree : Prop :=
  ∀ message top operation,
    Stack.Meets merge (operationsFor (.message message) batch) top operation -> ¬ Stray top operation

theorem replayLocations_eq_some :
    replayLocations server batch = some after <->
      ∀ message, runAt relocate (server message) (operationsFor (.message message) batch) = some (after message) := by
  simp only [replayLocations, perform_eq_some, touching, messageOf_eq_some, operationsFor, rowsFor, runAt_map]

theorem executeLocations_coalesce (ordered : InQueueOrder batch) :
    executeLocations server (coalesce batch).steps = some after <->
      ∀ message, runAt relocate (server message) (Stack.fold merge (operationsFor (.message message) batch)) =
        some (after message) := by
  simp only [executeLocations, perform_eq_some, touching, messageOf_eq_some,
    ← coalesce_operations_for _ batch ordered, runAt_map]

theorem merge_into_relocation (joined : Operation) (merged : merge top operation = .into joined) :
    relocation top = none ∧ relocation operation = none ∧ relocation joined = none ∨
      ∃ source via finish, relocation top = some (source, via) ∧ relocation operation = some (via, finish) ∧
        (relocation joined = some (source, finish) ∨
          Stray top operation ∧ relocation joined = some (via, finish)) := by
  unfold merge mergeOpposite at merged
  split at merged
  case h_7 source trash via finish =>
    split_ifs at merged with chained back
    cases merged
    by_cases same : source = trash <;> simp_all [relocation, Stray]
  all_goals
    try split_ifs at merged
    all_goals cases merged
    all_goals simp_all [relocation]

theorem merge_cancelled_relocation (merged : merge top operation = .cancelled) :
    relocation top = none ∧ relocation operation = none ∨
      ∃ source via, relocation top = some (source, via) ∧ relocation operation = some (via, source) := by
  unfold merge mergeOpposite at merged
  split at merged
  all_goals
    try split_ifs at merged
    all_goals simp_all [relocation]

@[simp]
theorem relocate_none (here : MailboxId) (still : relocation operation = none) :
    relocate operation here = some here := by
  simp [relocate, still]

theorem relocate_eq_some (source dest here there : MailboxId) (moves : relocation operation = some (source, dest)) :
    relocate operation here = some there <-> source = here ∧ dest = there := by
  simp [relocate, moves]

theorem merge_exact (straight : ¬ Stray top operation) :
    Stack.Exact merge relocate top operation := by
  intro before middle after first second
  cases merged : merge top operation with
  | into joined =>
    rcases merge_into_relocation top operation joined merged with ⟨still, stays, kept⟩ | chained
    · simp_all
    · obtain ⟨source, via, finish, out, back, whole | ⟨stray, -⟩⟩ := chained
      · rw [relocate_eq_some _ _ _ _ _ out] at first
        rw [relocate_eq_some _ _ _ _ _ back] at second
        exact (relocate_eq_some _ _ _ _ _ whole).mpr ⟨first.1, second.2⟩
      · exact absurd stray straight
  | cancelled =>
    rcases merge_cancelled_relocation top operation merged with ⟨still, stays⟩ | ⟨source, via, out, back⟩
    · simp_all
    · rw [relocate_eq_some _ _ _ _ _ out] at first
      rw [relocate_eq_some _ _ _ _ _ back] at second
      exact first.1.symm.trans second.2
  | no => trivial

theorem stray_merge (stray : Stray top operation) :
    ∃ source trash finish, top = .delete source trash ∧ operation = .move trash finish ∧ source ≠ trash ∧
      source ≠ finish ∧ merge top operation = .into (.move trash finish) := by
  cases top <;> cases operation <;> simp only [Stray] at stray
  case delete.move source trash via finish =>
    obtain ⟨rfl, away, apart⟩ := stray
    exact ⟨source, trash, finish, rfl, rfl, apart, away, by simp [merge, away]⟩

theorem stray_free_preserves (finish : MailboxId)
    (straight : ∀ top operation, Stack.Meets merge operations top operation -> ¬ Stray top operation)
    (reached : runAt relocate start operations = some finish) :
    runAt relocate start (Stack.fold merge operations) = some finish :=
  Stack.fold_run merge relocate operations start finish
    (fun top operation meets => merge_exact top operation (straight top operation meets)) reached

theorem stray_breaks (earlier below : List Operation) (top operation : Operation) (start middle : MailboxId)
    (folded : Stack.fold merge earlier = below ++ [top]) (stray : Stray top operation)
    (reached : runAt relocate start (Stack.fold merge earlier) = some middle) :
    runAt relocate start (Stack.fold merge (earlier ++ [operation])) = none := by
  -- A stray fold asks for the message in the trash, where it is not.
  obtain ⟨source, trash, finish, rfl, rfl, apart, -, merged⟩ := stray_merge top operation stray
  rw [Stack.fold_concat, folded, Stack.push_concat, merged]
  rw [folded, runAt_concat_some] at reached
  obtain ⟨before, down, up⟩ := reached
  obtain ⟨rfl, -⟩ := (relocate_eq_some _ source trash _ _ rfl).mp up
  simp [runAt_concat, down, relocate, relocation, apart.symm]

/-! Where every delete of a message names one trash, nothing later hides a stray fold. -/

def OneTrash : Prop :=
  ∀ source other, Operation.delete source other ∈ operations -> other = trash

theorem oneTrash_push (stack : List Operation) (operation : Operation)
    (kept : OneTrash trash stack) (one : OneTrash trash [operation]) :
    OneTrash trash (Stack.push merge stack operation) := by
  rcases List.eq_nil_or_concat' stack with rfl | ⟨below, top, rfl⟩
  · exact one
  · intro source other member
    rw [Stack.push_concat] at member
    split at member
    next joined merged =>
      rcases List.mem_append.mp member with old | new
      · exact kept source other (List.mem_append_left _ old)
      · rw [List.mem_singleton] at new
        subst new
        -- Only a delete folds into a delete, and it keeps its trash.
        have last : ∃ via, operation = .delete via other := by
          cases top <;> cases operation <;> simp only [merge, mergeOpposite] at merged
          all_goals
            try split_ifs at merged
            all_goals simp_all
        obtain ⟨via, rfl⟩ := last
        exact one via other (by simp)
    next => exact kept source other (List.mem_append_left _ member)
    next =>
      rcases List.mem_append.mp member with old | new
      · exact kept source other old
      · exact one source other new

def Astray (stack : List Operation) (rows : MailboxId) : Prop :=
  -- The stack no longer leads where the rows do: it ends away from the trash the rows end in, or one of its operations
  -- starts at the trash with the message elsewhere.
  (∃ away, away ≠ trash ∧ runAt relocate start stack = some away ∧ rows = trash) ∨
    ∃ before broken above away dest, stack = before ++ broken :: above ∧
      runAt relocate start before = some away ∧ away ≠ trash ∧ relocation broken = some (trash, dest)

theorem astray_not_reached (rows : MailboxId) (stack : List Operation)
    (astray : Astray trash start stack rows) : runAt relocate start stack ≠ some rows := by
  rcases astray with ⟨away, apart, reached, rfl⟩ | ⟨before, broken, above, away, dest, rfl, down, apart, moves⟩
  · simpa [reached] using apart
  · rw [runAt_append, down]
    simp [runAt, relocate, moves, apart.symm]

theorem astray_ends (away rows next : MailboxId) (stack : List Operation) (operation : Operation)
    (apart : away ≠ trash) (reached : runAt relocate start stack = some away) (ends : rows = trash)
    (stepped : relocate operation rows = some next) :
    Astray trash start (Stack.push merge stack operation) next := by
  have appended : Astray trash start (stack ++ [operation]) next := by
    cases moves : relocation operation with
    | none =>
      rw [relocate_none operation rows moves, Option.some.injEq] at stepped
      exact .inl ⟨away, apart, (runAt_concat_some ..).mpr ⟨away, reached, relocate_none operation away moves⟩,
        stepped ▸ ends⟩
    | some ends_of =>
      obtain ⟨source, dest⟩ := ends_of
      obtain ⟨rfl, -⟩ := (relocate_eq_some operation source dest rows next moves).mp stepped
      exact .inr ⟨stack, operation, [], away, dest, rfl, reached, apart, by rw [moves, ends]⟩
  rcases List.eq_nil_or_concat' stack with rfl | ⟨below, top, rfl⟩
  · exact appended
  · obtain ⟨before, down, up⟩ := (runAt_concat_some ..).mp reached
    -- A relocation that ends away from the trash does not meet one that starts there.
    have unmet (source via finish : MailboxId) (out : relocation top = some (source, via))
        (back : relocation operation = some (via, finish)) : False := by
      obtain ⟨-, rfl⟩ := (relocate_eq_some top source via before away out).mp up
      obtain ⟨rfl, -⟩ := (relocate_eq_some operation via finish rows next back).mp stepped
      exact apart ends
    rw [Stack.push_concat]
    cases merged : merge top operation with
    | into joined =>
      rcases merge_into_relocation top operation joined merged with ⟨still, stays, kept⟩ | chained
      · rw [relocate_none operation rows stays, Option.some.injEq] at stepped
        rw [relocate_none top before still, Option.some.injEq] at up
        exact .inl ⟨away, apart, (runAt_concat_some ..).mpr ⟨before, down, by rw [relocate_none joined before kept, up]⟩,
          stepped ▸ ends⟩
      · obtain ⟨source, via, finish, out, back, -⟩ := chained
        exact (unmet source via finish out back).elim
    | cancelled =>
      rcases merge_cancelled_relocation top operation merged with ⟨still, stays⟩ | ⟨source, via, out, back⟩
      · rw [relocate_none operation rows stays, Option.some.injEq] at stepped
        rw [relocate_none top before still, Option.some.injEq] at up
        exact .inl ⟨away, apart, up ▸ down, stepped ▸ ends⟩
      · exact (unmet source via source out back).elim
    | no => exact appended

theorem astray_broken (away dest rows next : MailboxId) (before above : List Operation)
    (broken operation : Operation) (down : runAt relocate start before = some away) (apart : away ≠ trash)
    (moves : relocation broken = some (trash, dest)) (one : OneTrash trash (before ++ broken :: above))
    (stepped : relocate operation rows = some next) :
    Astray trash start (Stack.push merge (before ++ broken :: above) operation) next := by
  have still_broken (more : List Operation) : Astray trash start (before ++ broken :: more) next :=
    .inr ⟨before, broken, more, away, dest, rfl, down, apart, moves⟩
  rcases List.eq_nil_or_concat' above with rfl | ⟨rest, top, rfl⟩
  · rw [Stack.push_concat]
    cases merged : merge broken operation with
    | into joined =>
      have from_trash : ∃ finish, relocation joined = some (trash, finish) := by
        rcases merge_into_relocation broken operation joined merged with ⟨still, -⟩ | chained
        · simp [still] at moves
        · obtain ⟨source, via, finish, out, -, whole | ⟨stray, whole⟩⟩ := chained
          · rw [moves] at out
            cases out
            exact ⟨finish, whole⟩
          · obtain ⟨source, other, finish, rfl, -⟩ := stray_merge broken operation stray
            cases out
            exact ⟨_, by rw [whole, one source via (by simp)]⟩
      obtain ⟨finish, leaves⟩ := from_trash
      exact .inr ⟨before, joined, [], away, finish, rfl, down, apart, leaves⟩
    | cancelled =>
      rcases merge_cancelled_relocation broken operation merged with ⟨still, -⟩ | ⟨source, via, out, back⟩
      · simp [still] at moves
      · rw [moves] at out
        cases out
        exact .inl ⟨away, apart, down, ((relocate_eq_some _ _ _ _ _ back).mp stepped).2.symm⟩
    | no =>
      rw [List.append_assoc]
      exact still_broken [operation]
  · rw [← List.cons_append, ← List.append_assoc, Stack.push_concat]
    cases merge top operation with
    | into joined => simpa using still_broken (rest ++ [joined])
    | cancelled => simpa using still_broken rest
    | no => simpa using still_broken (rest ++ [top, operation])

theorem astray_push (rows next : MailboxId) (stack : List Operation) (operation : Operation)
    (one : OneTrash trash stack) (astray : Astray trash start stack rows)
    (stepped : relocate operation rows = some next) :
    Astray trash start (Stack.push merge stack operation) next := by
  rcases astray with ⟨away, apart, reached, ends⟩ | ⟨before, broken, above, away, dest, rfl, down, apart, moves⟩
  · exact astray_ends trash start away rows next stack operation apart reached ends stepped
  · exact astray_broken trash start away dest rows next before above broken operation down apart moves one stepped

theorem astray_first (middle next : MailboxId) (below : List Operation) (top operation : Operation)
    (one : OneTrash trash (below ++ [top])) (stray : Stray top operation)
    (reached : runAt relocate start (below ++ [top]) = some middle) :
    Astray trash start (Stack.push merge (below ++ [top]) operation) next := by
  obtain ⟨source, other, finish, rfl, rfl, apart, -, merged⟩ := stray_merge top operation stray
  obtain rfl := one source other (by simp)
  obtain ⟨before, down, up⟩ := (runAt_concat_some ..).mp reached
  obtain ⟨rfl, -⟩ := (relocate_eq_some _ source other _ _ rfl).mp up
  rw [Stack.push_concat, merged]
  exact .inr ⟨below, _, [], source, finish, rfl, down, apart, rfl⟩

theorem oneTrash_append (first second : List Operation) :
    OneTrash trash (first ++ second) <-> OneTrash trash first ∧ OneTrash trash second := by
  simp only [OneTrash, List.mem_append]
  constructor
  · intro all
    exact ⟨fun source other member => all source other (.inl member),
      fun source other member => all source other (.inr member)⟩
  · rintro ⟨left, right⟩ source other (member | member)
    · exact left source other member
    · exact right source other member

theorem oneTrash_fold (one : OneTrash trash operations) :
    OneTrash trash (Stack.fold merge operations) := by
  induction operations using List.reverseRecOn with
  | nil => simp [OneTrash]
  | append_singleton operations last ih =>
    obtain ⟨earlier, final⟩ := (oneTrash_append trash operations [last]).mp one
    rw [Stack.fold_concat]
    exact oneTrash_push trash _ last (ih earlier) final

theorem stray_astray (finish : MailboxId) (operations : List Operation)
    (one : OneTrash trash operations) (reached : runAt relocate start operations = some finish)
    (strays : ∃ top operation, Stack.Meets merge operations top operation ∧ Stray top operation) :
    Astray trash start (Stack.fold merge operations) finish := by
  induction operations using List.reverseRecOn generalizing finish with
  | nil =>
    obtain ⟨top, operation, ⟨earlier, later, below, split, -⟩, -⟩ := strays
    simp at split
  | append_singleton operations last ih =>
    obtain ⟨middle, down, up⟩ := (runAt_concat_some ..).mp reached
    obtain ⟨earlier, -⟩ := (oneTrash_append trash operations [last]).mp one
    have folded := oneTrash_fold trash operations earlier
    rw [Stack.fold_concat]
    by_cases before : ∃ top operation, Stack.Meets merge operations top operation ∧ Stray top operation
    · exact astray_push trash start middle finish _ last folded (ih middle earlier down before) up
    · obtain ⟨top, operation, meets, stray⟩ := strays
      rcases (Stack.meets_concat merge operations last top operation).mp meets with old | ⟨rfl, below, newest⟩
      · exact absurd ⟨top, operation, old, stray⟩ before
      · have straight := stray_free_preserves operations start middle
          (fun top operation meets stray => before ⟨top, operation, meets, stray⟩) down
        rw [newest] at folded straight ⊢
        exact astray_first trash start middle finish below top operation folded stray straight

/-! The whole batch. -/

def PreservesLocations : Prop :=
  ∀ after, replayLocations server batch = some after ->
    executeLocations server (coalesce batch).steps = some after

def OneTrashEach : Prop :=
  ∀ message, ∃ trash, OneTrash trash (operationsFor (.message message) batch)

theorem stray_free_batch (ordered : InQueueOrder batch) (straight : StrayFree batch) : PreservesLocations server batch:= by
  intro after replayed
  rw [replayLocations_eq_some] at replayed
  rw [executeLocations_coalesce _ _ _ ordered]
  intro message
  exact stray_free_preserves _ _ _ (straight message) (replayed message)

theorem oneTrash_stray_free (ordered : InQueueOrder batch)
    (one : OneTrashEach batch) (replayed : replayLocations server batch = some after)
    (executed : executeLocations server (coalesce batch).steps = some after) : StrayFree batch := by
  intro message top operation meets stray
  rw [replayLocations_eq_some] at replayed
  rw [executeLocations_coalesce _ _ _ ordered] at executed
  obtain ⟨trash, trashes⟩ := one message
  exact astray_not_reached _ _ _ _
    (stray_astray trash _ _ _ trashes (replayed message) ⟨top, operation, meets, stray⟩) (executed message)

theorem operationsFor_split (target : OperationTarget) (batch : List QueuedOperation)
    (earlier later : List Operation) (split : operationsFor target batch = earlier ++ later) :
    ∃ first second, batch = first ++ second ∧ operationsFor target first = earlier := by
  rw [operationsFor, List.map_eq_append_iff] at split
  obtain ⟨rows, rest, parted, rfl, rfl⟩ := split
  rw [rowsFor, List.filter_eq_append_iff] at parted
  obtain ⟨first, second, rfl, rfl, rfl⟩ := parted
  exact ⟨first, second, rfl, rfl⟩

theorem prefixes_stray_free (ordered : InQueueOrder batch) (replayed : replayLocations server batch = some after)
    (all : ∀ first, first <+: batch -> PreservesLocations server first) : StrayFree batch := by
  have located (first second : List QueuedOperation) (split : batch = first ++ second) (message : MessageId) :
      (runAt relocate (server message) (Stack.fold merge (operationsFor (.message message) first))).isSome := by
    rw [split, replayLocations, perform_append, Option.bind_eq_some_iff] at replayed
    obtain ⟨middle, before, -⟩ := replayed
    have executed := all first ⟨second, split.symm⟩ middle before
    rw [executeLocations_coalesce _ _ _ (ordered.sublist (split ▸ List.sublist_append_left first second))] at executed
    simp [executed message]
  intro message top operation meets stray
  obtain ⟨earlier, later, below, split, folded⟩ := meets
  obtain ⟨first, rest, parts, before⟩ := operationsFor_split _ _ earlier (operation :: later) split
  obtain ⟨through, more, whole, upto⟩ := operationsFor_split _ _ (earlier ++ [operation]) later (by simpa using split)
  obtain ⟨middle, reached⟩ := Option.isSome_iff_exists.mp (located first rest parts message)
  rw [before] at reached
  have broken := stray_breaks earlier below top operation _ middle folded stray reached
  have unbroken := located through more whole message
  rw [upto, broken] at unbroken
  cases unbroken

theorem coalesce_preserves_locations_iff (ordered : InQueueOrder batch) (replayed : replayLocations server batch = some after) :
    (StrayFree batch -> executeLocations server (coalesce batch).steps = some after) ∧
      (OneTrashEach batch -> executeLocations server (coalesce batch).steps = some after -> StrayFree batch) ∧
      ((∀ first, first <+: batch -> PreservesLocations server first) <-> StrayFree batch) := by
  refine ⟨fun straight => stray_free_batch server batch ordered straight after replayed,
    fun one executed => oneTrash_stray_free server after batch ordered one replayed executed,
    fun all => prefixes_stray_free server after batch ordered replayed all, ?_⟩
  intro straight first initial
  apply stray_free_batch server first (ordered.sublist initial.sublist)
  intro message top operation meets
  obtain ⟨second, rfl⟩ := initial
  apply straight message top operation
  simpa [operationsFor, rowsFor] using
    Stack.meets_append merge _ (operationsFor (.message message) second) top operation meets

def deletedThenMoved : List QueuedOperation :=
  queuedFor ⟨7⟩ [(1, .delete ⟨1⟩ ⟨9⟩), (2, .move ⟨9⟩ ⟨3⟩)]

def archivedThenDeleted : List QueuedOperation :=
  queuedFor ⟨7⟩ [(1, .move ⟨1⟩ ⟨2⟩), (2, .delete ⟨2⟩ ⟨9⟩)]

theorem deleted_then_moved_not_preserved :
    ¬ (InQueueOrder deletedThenMoved -> PreservesLocations (fun _ => ⟨1⟩) deletedThenMoved) := by
  intro preserved
  have replayed : replayLocations (fun _ => ⟨1⟩) deletedThenMoved =
      some (Function.update (Function.update (fun _ => ⟨1⟩) ⟨7⟩ ⟨9⟩) ⟨7⟩ ⟨3⟩) := rfl
  have executed := preserved (by unfold InQueueOrder; decide) _ replayed
  have stuck : executeLocations (fun _ => ⟨1⟩) (coalesce deletedThenMoved).steps = none := rfl
  rw [stuck] at executed
  cases executed

theorem archived_then_deleted_stray_free : StrayFree archivedThenDeleted := by
  have exact_fold := coalesce_preserves_locations_iff (fun _ => ⟨1⟩)
    (Function.update (Function.update (fun _ => ⟨1⟩) ⟨7⟩ ⟨2⟩) ⟨7⟩ ⟨9⟩) archivedThenDeleted
    (by unfold InQueueOrder; decide) rfl
  apply exact_fold.2.1
  · intro message
    refine ⟨⟨9⟩, fun source other member => ?_⟩
    simp only [operationsFor, rowsFor, List.mem_map, List.mem_filter] at member
    obtain ⟨row, ⟨queued, -⟩, same⟩ := member
    simp only [archivedThenDeleted, queuedFor, List.map_cons, List.map_nil, List.mem_cons, List.not_mem_nil,
      or_false] at queued
    rcases queued with rfl | rfl <;> simp_all [OperationQueue.fresh]
  · exact congrArg some (by funext message; by_cases same : message = ⟨7⟩ <;> simp [Function.update, same])

end Postio

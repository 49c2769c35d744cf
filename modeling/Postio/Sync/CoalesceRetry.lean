import Postio.Sync.CoalesceFlags
import Postio.Sync.CoalesceLocations

set_option autoImplicit false

namespace Postio

open Keyed

def attempt (operation : Operation) (here : MailboxId) : MailboxId := (relocate operation here).getD here

variable (operations : List Operation) (server locations : Locations) (flags : FlagState) (start : MailboxId)
    (batch : List QueuedOperation) (applied : OperationId -> Bool) (here : MailboxId)

def attemptAll : MailboxId :=
  operations.foldl (fun here operation => attempt operation here) here

def attemptRows (rows : List QueuedOperation) : Locations :=
  rows.foldl (applyTo (fun queued => messageOf queued.target) (fun queued => attempt queued.operation)) server

def attemptSteps (steps : List Step) : Locations :=
  steps.foldl (applyTo (fun step => messageOf step.target) (fun step => attempt step.operation)) server

def appliedRows (batch : List QueuedOperation) : List QueuedOperation :=
  batch.filter (fun queued => applied queued.id)

def RetrySafe : Prop :=
  -- Draining the batch again, on a server that already holds what `applied` names, ends where the full replay from the
  -- original state would have ended.
  ∀ after, replayLocations locations batch = some after ->
    attemptSteps (attemptRows locations (appliedRows applied batch)) (coalesce batch).steps = after ∧
      executeFlags (replayFlags flags (appliedRows applied batch)) (coalesce batch).steps = replayFlags flags batch

theorem attemptSteps_coalesce (ordered : InQueueOrder batch) (message : MessageId) :
    attemptSteps server (coalesce batch).steps message =
      attemptAll (Stack.fold merge (operationsFor (.message message) batch)) (server message) := by
  simp only [attemptSteps, foldl_applyTo, touching, messageOf_eq_some, attemptAll,
    ← coalesce_operations_for _ batch ordered, List.foldl_map]

def Stop : Prop :=
  here = start ∨ ∃ operation ∈ operations, ∃ source, relocation operation = some (source, here)

theorem attempt_of_relocation (operation : Operation) (source dest here : MailboxId)
    (moves : relocation operation = some (source, dest)) :
    attempt operation here = if source = here then dest else here := by
  by_cases same : source = here <;> simp [attempt, relocate, moves, same]

theorem attemptAll_eq_iff (finish here : MailboxId) (reached : runAt relocate start operations = some finish) :
    attemptAll operations here = finish <-> Stop operations start here := by
  -- Along steps that follow one another, a message reaches the end from every stop and from nowhere else.
  induction operations generalizing start here with
  | nil =>
    simp only [runAt_nil, Option.some.injEq] at reached
    simp [attemptAll, Stop, reached]
  | cons operation rest ih =>
    rw [runAt, Option.bind_eq_some_iff] at reached
    obtain ⟨middle, first, others⟩ := reached
    have next := ih middle (attempt operation here) others
    change attemptAll rest (attempt operation here) = finish <-> _
    rw [next]
    cases moves : relocation operation with
    | none =>
      rw [relocate_none operation start moves, Option.some.injEq] at first
      simp [Stop, attempt, relocate, moves, first]
    | some ends =>
      obtain ⟨source, dest⟩ := ends
      obtain ⟨rfl, rfl⟩ := (relocate_eq_some operation source dest start middle moves).mp first
      rw [attempt_of_relocation operation source dest here moves]
      by_cases same : source = here
      · simp [Stop, same]
      · simp only [Stop, same, if_false, List.mem_cons, exists_eq_or_imp, moves, Option.some.injEq, Prod.mk.injEq,
          exists_eq_left', Ne.symm same, false_or]
        constructor
        · rintro (rfl | later)
          · exact .inl rfl
          · exact .inr later
        · rintro (rfl | later)
          · exact .inl rfl
          · exact .inr later

def StillStops : Prop :=
  -- The message is where it began, or where a row put it that neither cancelled nor had a later row folded onto it.
  here = start ∨ ∃ earlier operation later source, operations = earlier ++ operation :: later ∧
    relocation operation = some (source, here) ∧ Stack.Lands merge earlier operation ∧
      Stack.Lasts merge (earlier ++ [operation]) later

theorem lands_destination (earlier below : List Operation) (operation entry : Operation) (here : MailboxId)
    (lands : Stack.Lands merge earlier operation)
    (newest : Stack.fold merge (earlier ++ [operation]) = below ++ [entry]) :
    (∃ source, relocation entry = some (source, here)) <-> ∃ source, relocation operation = some (source, here) := by
  -- A row that lands leaves, on top, a step that ends where the row does.
  rw [Stack.fold_concat] at newest
  rcases List.eq_nil_or_concat' (Stack.fold merge earlier) with empty | ⟨under, top, split⟩
  · rw [empty, Stack.push_nil] at newest
    have same : entry = operation := by
      have lone := (List.append_inj' (by simpa using newest.symm : below ++ [entry] = [] ++ [operation]) rfl).2
      simpa using lone
    rw [same]
  · rw [split, Stack.push_concat] at newest
    cases merged : merge top operation with
    | into joined =>
      rw [merged] at newest
      have same : joined = entry := by simpa using (List.append_inj' newest rfl).2
      subst same
      rcases merge_into_relocation top operation joined merged with ⟨-, stays, kept⟩ | chained
      · simp [stays, kept]
      · obtain ⟨source, via, finish, -, back, whole | ⟨-, whole⟩⟩ := chained <;> simp [back, whole]
    | cancelled => exact absurd merged (lands under top split)
    | no =>
      rw [merged] at newest
      have same : operation = entry := by simpa using (List.append_inj' newest rfl).2
      rw [same]

theorem fold_nonempty (earlier : List Operation) (operation : Operation) (lands : Stack.Lands merge earlier operation) :
    ∃ below entry, Stack.fold merge (earlier ++ [operation]) = below ++ [entry] := by
  rw [Stack.fold_concat]
  rcases List.eq_nil_or_concat' (Stack.fold merge earlier) with empty | ⟨under, top, split⟩
  · exact ⟨[], operation, by rw [empty]; rfl⟩
  · rw [split, Stack.push_concat]
    cases merged : merge top operation with
    | into joined => exact ⟨under, joined, rfl⟩
    | cancelled => exact absurd merged (lands under top split)
    | no => exact ⟨under ++ [top], operation, rfl⟩

theorem stop_fold_iff :
    Stop (Stack.fold merge operations) start here <-> StillStops operations start here := by
  refine or_congr Iff.rfl ?_
  constructor
  · rintro ⟨entry, member, ends⟩
    obtain ⟨below, above, split⟩ := List.append_of_mem member
    obtain ⟨earlier, operation, later, parts, newest, lands, lasts⟩ :=
      Stack.entry_origin merge operations below above entry split
    obtain ⟨source, moves⟩ := (lands_destination earlier below operation entry here lands newest).mp ends
    exact ⟨earlier, operation, later, source, parts, moves, lands, lasts⟩
  · rintro ⟨earlier, operation, later, source, rfl, moves, lands, lasts⟩
    obtain ⟨below, entry, newest⟩ := fold_nonempty earlier operation lands
    obtain ⟨above, whole⟩ := Stack.fold_lasts merge (earlier ++ [operation]) later (by simp [newest]) lasts
    have regroup : earlier ++ operation :: later = earlier ++ [operation] ++ later := by simp
    obtain ⟨origin, ends⟩ := (lands_destination earlier below operation entry here lands newest).mpr ⟨source, moves⟩
    exact ⟨entry, by rw [regroup, whole, newest]; simp, origin, ends⟩

def RetryQuiet : Prop :=
  -- Every message sits at a stop the fold kept, and every flag the fold cancelled stands already as its last row wants
  -- it.
  (∀ message, StillStops (operationsFor (.message message) batch) (locations message)
    (attemptRows locations (appliedRows applied batch) message)) ∧
  QuietCancellations (replayFlags flags (appliedRows applied batch)) batch

theorem operationsFor_applied (target : OperationTarget) (batch : List QueuedOperation) :
    ∀ operation ∈ operationsFor target (appliedRows applied batch), operation ∈ operationsFor target batch := by
  intro operation member
  simp only [operationsFor, rowsFor, appliedRows, List.mem_map, List.mem_filter] at member ⊢
  obtain ⟨row, ⟨⟨queued, -⟩, same⟩, rfl⟩ := member
  exact ⟨row, ⟨queued, same⟩, rfl⟩

theorem retry_flags_iff (ordered : InQueueOrder batch) :
    executeFlags (replayFlags flags (appliedRows applied batch)) (coalesce batch).steps = replayFlags flags batch <->
      QuietCancellations (replayFlags flags (appliedRows applied batch)) batch := by
  simp only [funext_iff, executeFlags_coalesce _ batch ordered, replayFlags_at flags batch, Finset.ext_iff]
  refine forall_congr' fun message => forall_congr' fun flag => ?_
  rw [← fold_shown_iff flag _ _ (decide (flag ∈ flags message)), ← mem_applyFlagsAll, ← mem_applyFlagsAll,
    decide_eq_decide]
  intro unnamed
  have silent := shown_unnamed flag [] (operationsFor (.message message) (appliedRows applied batch))
    (decide (flag ∈ flags message))
    (fun operation member => unnamed operation (operationsFor_applied applied _ batch operation member))
  rw [List.nil_append, ← mem_applyFlagsAll] at silent
  rw [replayFlags_at, silent, shown_nil]

def movedOn : List QueuedOperation :=
  queuedFor ⟨7⟩ [(1, .move ⟨1⟩ ⟨2⟩), (2, .move ⟨2⟩ ⟨3⟩)]

example : attemptSteps (attemptRows (fun _ => ⟨1⟩) (appliedRows (fun id => id = ⟨1⟩) movedOn))
    (coalesce movedOn).steps ⟨7⟩ = ⟨2⟩ := rfl

def archivedOnce : List QueuedOperation := queuedFor ⟨7⟩ [(1, .move ⟨1⟩ ⟨2⟩)]

theorem stray_free_archivedOnce : StrayFree archivedOnce := by
  rintro message top operation ⟨earlier, later, below, split, folded⟩ stray
  by_cases same : message = ⟨7⟩
  · subst same
    have single : operationsFor (.message ⟨7⟩) archivedOnce = [.move ⟨1⟩ ⟨2⟩] := rfl
    rw [single] at split
    cases earlier with
    | nil => simp at folded
    | cons first rest => simp at split
  · rw [archivedOnce, operationsFor_other ⟨7⟩ message _ same] at split
    simp at split

end Postio

import Postio.Drafts.Upload

set_option autoImplicit false

namespace Postio.Drafts.World

variable (buildDraft : DraftId -> Text -> Raw)

/-! ### What has been uploaded of a draft -/

variable (before world : World) (rows : List OperationId) (landings : List Landing) (after : World) (event : Event)
    (job : SaveJob) (draft : DraftId)

def newest : Option Landing :=
  landings.find? (fun landing => landing.draft = draft)

theorem newest_mem (landing : Landing)
    (found : newest landings draft = some landing) : landing ∈ landings ∧ landing.draft = draft :=
  ⟨List.mem_of_find?_eq_some found, by simpa using List.find?_some found⟩

theorem newest_cons (landing : Landing) (draft : DraftId) :
    newest (landing :: landings) draft = if landing.draft = draft then some landing else newest landings draft := by
  unfold newest
  rw [List.find?_cons]
  by_cases same : landing.draft = draft
  next => simp [same]
  next => simp [same]

theorem mem_markRecorded (named : Bool) (landings : List Landing) (landing : Landing)
    (there : landing ∈ markRecorded draft named landings) :
    ∃ old ∈ landings, old.draft = landing.draft ∧ old.copy = landing.copy := by
  induction landings with
  | nil => cases there
  | cons first rest ih =>
    unfold markRecorded at there
    split at there
    next =>
      rcases List.mem_cons.mp there with rfl | later
      next => exact ⟨first, List.mem_cons_self .., rfl, rfl⟩
      next => exact ⟨landing, List.mem_cons_of_mem _ later, rfl, rfl⟩
    next =>
      rcases List.mem_cons.mp there with rfl | later
      next => exact ⟨_, List.mem_cons_self .., rfl, rfl⟩
      next =>
        obtain ⟨old, held, same⟩ := ih later
        exact ⟨old, List.mem_cons_of_mem _ held, same⟩

theorem newest_markRecorded (other : DraftId) (named : Bool) (landings : List Landing) :
    newest (markRecorded draft named landings) other =
      (newest landings other).map (fun landing =>
        if other = draft then { landing with recorded := true, named } else landing) := by
  induction landings with
  | nil => rfl
  | cons first rest ih =>
    unfold markRecorded
    by_cases here : first.draft = draft
    next =>
      rw [if_pos here, newest_cons, newest_cons]
      by_cases same : first.draft = other
      next => simp [same, ← here]
      next =>
        rw [if_neg same, if_neg same]
        have apart : other ≠ draft := fun equal => same (here.trans equal.symm)
        simp [apart]
    next =>
      rw [if_neg here, newest_cons, newest_cons]
      by_cases same : first.draft = other
      next =>
        have apart : other ≠ draft := fun equal => here (same.trans equal)
        simp [same, apart]
      next => rw [if_neg same, if_neg same, ih]

theorem newest_shifted (offset : Nat) (landings : List Landing) (draft : DraftId) :
    newest (landings.map (fun landing => { landing with copy := shifted offset landing.copy })) draft =
      (newest landings draft).map (fun landing => { landing with copy := shifted offset landing.copy }) := by
  unfold newest
  rw [List.find?_map]
  rfl

/-! ### What is asked of a step -/

def Stands : Prop :=
  ∀ row ∈ world.drafts.rows, ∀ landing, newest world.landings row.id = some landing ->
    { id := landing.copy, raw := landing.raw, deleted := false } ∈ world.server

def Ordered (known : Landing -> Bool) (world : World) (event : Event) : Prop :=
  -- A copy is taken from the server only by a discard, or by a save whose own upload is known and is another one.
  event ≠ .renumber -> ∀ copy ∈ world.server, copy.deleted = false -> copy ∉ (world.step buildDraft event).server ->
    ∃ rows cause marked, world.stage = .removing rows cause copy.id marked ∧
      ∀ draft, cause = .replaced draft ->
        ∃ landing, newest world.landings draft = some landing ∧ known landing = true ∧ landing.copy ≠ copy.id

def AppendsOnce (excused : World -> OperationId -> Prop) (world : World) (event : Event) : Prop :=
  ∀ answer rows job, event = .append answer -> world.stage = .appending rows job ->
    ∀ operation ∈ rows, (operation, job.raw) ∈ world.uploaded -> excused world operation

/-! ### Whose the identities are that are held -/

def Owns (id : RemoteId) : Prop :=
  id.get < world.nextCopy ∧ ∀ landing ∈ world.landings, landing.copy = id -> landing.draft = draft

def StageKnows : Stage -> DraftId -> RemoteId -> Prop
  | .appending _ job, draft, id => job.draft = draft ∧ job.previous = some id
  | .recording _ job location, draft, id => job.draft = draft ∧ (job.previous = some id ∨ location = some id)
  | .removing _ cause copy _, draft, id => cause.draft = draft ∧ copy = id
  | .idle, _, _ | .settling _ _, _, _ => False

/-- An identity is held as that of a draft's copy. -/
inductive Knows (world : World) (draft : DraftId) (id : RemoteId) : Prop where
  | row (row : DraftRow) (there : row ∈ world.drafts.rows) (same : row.id = draft) (names : row.remoteId = some id)
  | buffer (buffer : Buffer) (there : buffer ∈ world.buffers) (same : buffer.draft = draft)
      (names : buffer.remoteId = some id)
  | queued (row : QueueRow) (there : row ∈ world.queue.rows) (asks : row.work = .discardDraft draft id)
  | hand (names : StageKnows world.stage draft id)

def Gone : Prop :=
  draft.get < world.drafts.nextId ∧ ∀ row ∈ world.drafts.rows, row.id ≠ draft

/-- What a stage is reached with. -/
def Ready : Stage -> Prop
  | .appending _ job => job.draft.get < world.drafts.nextId
  | .recording _ job _ =>
    ∃ landing, newest world.landings job.draft = some landing ∧ job.previous ≠ some landing.copy
  | .removing _ (.replaced draft) copy _ =>
    ∃ landing, newest world.landings draft = some landing ∧ landing.recorded = true ∧ landing.copy ≠ copy
  | .removing _ (.discarded draft) _ _ => Gone world draft
  | .idle | .settling _ _ => True

structure Held (world : World) : Prop where
  landed : ∀ landing ∈ world.landings, landing.copy.get < world.nextCopy ∧ landing.draft.get < world.drafts.nextId
  owned : ∀ draft id, Knows world draft id -> Owns world draft id
  queued : ∀ row ∈ world.queue.rows, ∀ draft copy, row.work = .discardDraft draft copy -> Gone world draft
  ready : Ready world world.stage
  stands : Stands world

/-! ### Steps that leave the server as it is -/

/-- Neither the server nor what was uploaded to it changes, and drafts are only issued or deleted. -/
structure Quiet (before after : World) : Prop where
  server : after.server = before.server
  nextCopy : after.nextCopy = before.nextCopy
  landings : after.landings = before.landings
  issued : before.drafts.nextId ≤ after.drafts.nextId
  rows : ∀ row ∈ after.drafts.rows, before.drafts.nextId ≤ row.id.get ∨ ∃ old ∈ before.drafts.rows, old.id = row.id

theorem gone_quiet (quiet : Quiet before after) (draft : DraftId) (gone : Gone before draft) :
    Gone after draft := by
  refine ⟨Nat.lt_of_lt_of_le gone.1 quiet.issued, ?_⟩
  intro row there same
  rcases quiet.rows row there with fresh | ⟨old, held, again⟩
  next =>
    rw [same] at fresh
    exact absurd gone.1 (Nat.not_lt.mpr fresh)
  next => exact gone.2 old held (again.trans same)

theorem ready_quiet (quiet : Quiet before after) (stage : Stage) (ready : Ready before stage) :
    Ready after stage := by
  cases stage with
  | idle => trivial
  | settling rows outcome => trivial
  | appending rows job => exact Nat.lt_of_lt_of_le ready quiet.issued
  | recording rows job location =>
    unfold Ready
    rw [quiet.landings]
    exact ready
  | removing rows cause copy marked =>
    cases cause with
    | replaced draft =>
      unfold Ready
      rw [quiet.landings]
      exact ready
    | discarded draft => exact gone_quiet before after quiet draft ready

theorem ready_same (landings : after.landings = before.landings)
    (drafts : after.drafts = before.drafts) (stage : Stage) (ready : Ready before stage) : Ready after stage := by
  cases stage with
  | idle => trivial
  | settling rows outcome => trivial
  | appending rows job =>
    unfold Ready
    rw [drafts]
    exact ready
  | recording rows job location =>
    unfold Ready
    rw [landings]
    exact ready
  | removing rows cause copy marked =>
    cases cause with
    | replaced draft =>
      unfold Ready
      rw [landings]
      exact ready
    | discarded draft =>
      unfold Ready Gone
      rw [drafts]
      exact ready

theorem knows_same (drafts : after.drafts = before.drafts) (buffers : after.buffers = before.buffers)
    (queue : after.queue = before.queue) (stage : after.stage = before.stage) (draft : DraftId) (id : RemoteId)
    (knows : Knows after draft id) : Knows before draft id := by
  cases knows with
  | row row there same names => exact .row row (drafts ▸ there) same names
  | buffer buffer there same names => exact .buffer buffer (buffers ▸ there) same names
  | queued row there asks => exact .queued row (queue ▸ there) asks
  | hand names => exact .hand (stage ▸ names)

theorem held_quiet (held : Held before) (quiet : Quiet before after)
    (known : ∀ draft id, Knows after draft id -> Knows before draft id)
    (queued : ∀ row ∈ after.queue.rows, ∀ draft copy, row.work = .discardDraft draft copy ->
      Gone after draft ∨ ∃ old ∈ before.queue.rows, old.work = row.work)
    (ready : Ready after after.stage) : Held after where
  landed := by
    intro landing there
    rw [quiet.landings] at there
    rw [quiet.nextCopy]
    obtain ⟨copy, draft⟩ := held.landed landing there
    exact ⟨copy, Nat.lt_of_lt_of_le draft quiet.issued⟩
  owned := by
    intro draft id knows
    unfold Owns
    rw [quiet.landings, quiet.nextCopy]
    exact held.owned draft id (known draft id knows)
  queued := by
    intro row there draft copy asks
    rcases queued row there draft copy asks with gone | ⟨old, before_, same⟩
    next => exact gone
    next => exact gone_quiet before after quiet draft (held.queued old before_ draft copy (same.trans asks))
  ready := ready
  stands := by
    intro row there landing found
    rw [quiet.landings] at found
    rw [quiet.server]
    rcases quiet.rows row there with fresh | ⟨old, before_, same⟩
    next =>
      -- a draft that has just been issued has no uploads
      obtain ⟨member, named⟩ := newest_mem _ _ landing found
      have below := (held.landed landing member).2
      rw [named] at below
      exact absurd below (Nat.not_lt.mpr fresh)
    next => exact held.stands old before_ landing (same ▸ found)

theorem mem_enqueue (work : Work) (row : QueueRow) (there : row ∈ (world.enqueue work).queue.rows) :
    row ∈ world.queue.rows ∨ row = { id := ⟨world.queue.nextId⟩, work, state := .pending } := by
  unfold enqueue at there
  rw [Table.insert_rows] at there
  rcases List.mem_append.mp there with before | last
  next => exact .inl before
  next => exact .inr (List.mem_singleton.mp last)

theorem mem_setState (operation : OperationId) (state : OperationState) (row : QueueRow)
    (there : row ∈ (world.setState operation state).queue.rows) :
    ∃ old ∈ world.queue.rows, row = if old.id = operation then { old with state } else old := by
  unfold setState Table.updateAt at there
  rw [Table.update_rows] at there
  obtain ⟨old, held, same⟩ := List.mem_map.mp there
  refine ⟨old, held, same.symm.trans ?_⟩
  by_cases here : old.id = operation
  next => rw [if_pos here, if_pos (congrArg OperationId.get here)]
  next =>
    have apart : old.id.get ≠ operation.get := fun equal => here (OperationId.get_injective equal)
    rw [if_neg here, if_neg apart]

theorem inFlight_queue (world : World) :
    ∃ queue, rows.foldl (fun world operation => world.setState operation .inFlight) world = { world with queue } ∧
      queue.nextId = world.queue.nextId ∧
      ∀ row ∈ queue.rows, ∃ old ∈ world.queue.rows, old.id = row.id ∧ old.work = row.work ∧
        (row.state = old.state ∨ row.state = .inFlight ∧ row.id ∈ rows) := by
  -- The rows of a step are marked, and nothing else is touched.
  induction rows generalizing world with
  | nil => exact ⟨world.queue, rfl, rfl, fun row there => ⟨row, there, rfl, rfl, .inl rfl⟩⟩
  | cons operation rest ih =>
    obtain ⟨queue, same, next, kept⟩ := ih (world.setState operation .inFlight)
    refine ⟨queue, same, next, ?_⟩
    intro row there
    obtain ⟨old, held, id, work, state⟩ := kept row there
    obtain ⟨first, before, was⟩ := mem_setState world operation .inFlight old held
    refine ⟨first, before, ?_⟩
    by_cases here : first.id = operation
    next =>
      rw [if_pos here] at was
      subst was
      refine ⟨id, work, .inr ?_⟩
      rcases state with same | ⟨flying, among⟩
      next => exact ⟨same, List.mem_cons.mpr (.inl (id.symm.trans here))⟩
      next => exact ⟨flying, List.mem_cons_of_mem _ among⟩
    next =>
      rw [if_neg here] at was
      subst was
      refine ⟨id, work, ?_⟩
      rcases state with same | ⟨flying, among⟩
      next => exact .inl same
      next => exact .inr ⟨flying, List.mem_cons_of_mem _ among⟩

theorem held_compose (text : Text) (held : Held world) : Held (world.compose text) := by
  have quiet : Quiet world (world.compose text) :=
    { server := rfl, nextCopy := rfl, landings := rfl, issued := Nat.le_succ _
      rows := by
        intro row there
        change row ∈ (world.drafts.insert _ _).rows at there
        rw [Table.insert_rows] at there
        rcases List.mem_append.mp there with before | last
        next => exact .inr ⟨row, before, rfl⟩
        next =>
          rw [List.mem_singleton.mp last]
          exact .inl (Nat.le_refl _) }
  apply held_quiet world _ held quiet
  next =>
    intro draft id knows
    cases knows with
    | row row there same names =>
      change row ∈ (world.drafts.insert _ _).rows at there
      rw [Table.insert_rows] at there
      rcases List.mem_append.mp there with before | last
      next => exact .row row before same names
      next =>
        rw [List.mem_singleton.mp last] at names
        cases names
    | buffer buffer there same names =>
      rcases List.mem_cons.mp there with rfl | before
      next => cases names
      next => exact .buffer buffer before same names
    | queued row there asks =>
      rcases mem_enqueue _ _ row there with before | fresh
      next => exact .queued row before asks
      next =>
        rw [fresh] at asks
        cases asks
    | hand names => exact .hand names
  next =>
    intro row there draft copy asks
    rcases mem_enqueue _ _ row there with before | fresh
    next => exact .inr ⟨row, before, rfl⟩
    next =>
      rw [fresh] at asks
      cases asks
  next => exact ready_quiet world _ quiet _ held.ready

theorem held_reopen (held : Held world) : Held (world.reopen draft) := by
  unfold reopen
  cases found : world.drafts.get draft.get with
  | none => exact held
  | some row =>
    obtain ⟨there, named⟩ := (world.drafts.get_eq_some draft.get row).mp found
    have quiet : Quiet world { world with buffers := { draft, remoteId := row.remoteId } :: world.buffers } :=
      { server := rfl, nextCopy := rfl, landings := rfl, issued := Nat.le_refl _
        rows := fun row there => .inr ⟨row, there, rfl⟩ }
    apply held_quiet world _ held quiet
    next =>
      intro other id knows
      cases knows with
      | row row there same names => exact .row row there same names
      | buffer buffer there' same names =>
        rcases List.mem_cons.mp there' with rfl | before
        next =>
          refine .row row there ?_ names
          rw [← same]
          exact DraftId.get_injective named
        next => exact .buffer buffer before same names
      | queued row there asks => exact .queued row there asks
      | hand names => exact .hand names
    next => exact fun row there _ _ _ => .inr ⟨row, there, rfl⟩
    next => exact ready_quiet world _ quiet _ held.ready

theorem mem_updateAt (drafts : Table DraftRow (fun row => row.id.get)) (draft : DraftId) (change : DraftRow -> DraftRow)
    (kept : ∀ row, (change row).id.get = row.id.get) (row : DraftRow)
    (there : row ∈ (drafts.updateAt draft.get change kept).rows) :
    ∃ old ∈ drafts.rows, (row = old ∨ row = change old ∧ old.id = draft) := by
  -- What an update of one draft's row leaves of a row's id.
  unfold Table.updateAt at there
  rw [Table.update_rows] at there
  obtain ⟨old, held, same⟩ := List.mem_map.mp there
  refine ⟨old, held, ?_⟩
  by_cases here : old.id.get = draft.get
  next =>
    rw [if_pos here] at same
    exact .inr ⟨same.symm, DraftId.get_injective here⟩
  next =>
    rw [if_neg here] at same
    exact .inl same.symm

theorem mem_saved (composed : Buffer) (text : Text) (row : DraftRow)
    (there : row ∈ (world.drafts.updateAt composed.draft.get (written text composed.remoteId) (fun _ => rfl)).rows) :
    ∃ old ∈ world.drafts.rows, (row = old ∨ row = written text composed.remoteId old ∧ old.id = composed.draft) :=
  mem_updateAt world.drafts composed.draft (written text composed.remoteId) (fun _ => rfl) row there

theorem held_save (buffer : Nat) (text : Text) (held : Held world) : Held (world.save buffer text) := by
  unfold save
  split
  next => exact held
  next composed found =>
    split
    next => exact held
    next =>
      have member : composed ∈ world.buffers := List.mem_of_getElem? found
      have quiet : Quiet world (enqueue { world with
          drafts := world.drafts.updateAt composed.draft.get (written text composed.remoteId) (fun _ => rfl) }
          (.saveDraft composed.draft)) := by
        refine { server := rfl, nextCopy := rfl, landings := rfl, issued := Nat.le_refl _, rows := ?_ }
        intro row there
        obtain ⟨old, before, rfl | ⟨rfl, -⟩⟩ := mem_saved world composed text row there
        next => exact .inr ⟨_, before, rfl⟩
        next => exact .inr ⟨old, before, rfl⟩
      apply held_quiet world _ held quiet
      next =>
        intro draft id knows
        cases knows with
        | row row there same names =>
          obtain ⟨old, before, rfl | ⟨rfl, here⟩⟩ := mem_saved world composed text row there
          next => exact .row _ before same names
          next =>
            -- the identity is the composer's, or else the one the row had
            cases knew : composed.remoteId with
            | some known =>
              simp only [written, knew, Option.some_or] at names
              exact .buffer composed member (here.symm.trans same) (knew.trans names)
            | none =>
              simp only [written, knew, Option.none_or] at names
              exact .row old before same names
        | buffer other there same names => exact .buffer other there same names
        | queued row there asks =>
          rcases mem_enqueue _ _ row there with before | fresh
          next => exact .queued row before asks
          next =>
            rw [fresh] at asks
            cases asks
        | hand names => exact .hand names
      next =>
        intro row there draft copy asks
        rcases mem_enqueue _ _ row there with before | fresh
        next => exact .inr ⟨row, before, rfl⟩
        next =>
          rw [fresh] at asks
          cases asks
      next => exact ready_quiet world _ quiet _ held.ready

theorem gone_delete (row : DraftRow) (there : row ∈ world.drafts.rows)
    (same : row.id = draft) : Gone (world.delete draft) draft := by
  refine ⟨same ▸ world.drafts.issued row there, ?_⟩
  intro other inside named
  have left := (List.mem_filter.mp inside).2
  simp [named] at left

theorem quiet_delete : Quiet world (world.delete draft) where
  server := rfl
  nextCopy := rfl
  landings := rfl
  issued := Nat.le_refl _
  rows := fun row there => .inr ⟨row, List.mem_of_mem_filter there, rfl⟩

theorem held_delete (held : Held world) : Held (world.delete draft) := by
  apply held_quiet world _ held (quiet_delete world draft)
  next =>
    intro other id knows
    cases knows with
    | row row there same names => exact .row row (List.mem_of_mem_filter there) same names
    | buffer buffer there same names => exact .buffer buffer there same names
    | queued row there asks => exact .queued row there asks
    | hand names => exact .hand names
  next => exact fun row there _ _ _ => .inr ⟨row, there, rfl⟩
  next => exact ready_quiet world _ (quiet_delete world draft) _ held.ready

theorem held_discard (held : Held world) : Held (world.discard draft) := by
  unfold discard
  split
  next => exact held
  next row found =>
    obtain ⟨there, named⟩ := (world.drafts.get_eq_some draft.get row).mp found
    have same : row.id = draft := DraftId.get_injective named
    split
    next copy names =>
      have quiet : Quiet world ((world.delete draft).enqueue (.discardDraft draft copy)) :=
        { quiet_delete world draft with }
      apply held_quiet world _ held quiet
      next =>
        intro other id knows
        cases knows with
        | row row there same names => exact .row row (List.mem_of_mem_filter there) same names
        | buffer buffer there same names => exact .buffer buffer there same names
        | queued asked inside asks =>
          rcases mem_enqueue _ _ asked inside with before | fresh
          next => exact .queued asked before asks
          next =>
            rw [fresh] at asks
            cases asks
            exact .row row there same names
        | hand names => exact .hand names
      next =>
        intro asked inside other held_ asks
        rcases mem_enqueue _ _ asked inside with before | fresh
        next => exact .inr ⟨asked, before, rfl⟩
        next =>
          rw [fresh] at asks
          cases asks
          exact .inl (gone_delete world draft row there same)
      next => exact ready_quiet world _ quiet _ held.ready
    next => exact held_delete world draft held

theorem quiet_stage (queue : Table QueueRow (fun row => row.id.get)) (stage : Stage) (resync : Bool)
    (stopped : List OperationId) : Quiet world { world with queue, stage, resync, stopped } where
  server := rfl
  nextCopy := rfl
  landings := rfl
  issued := Nat.le_refl _
  rows := fun row there => .inr ⟨row, there, rfl⟩

theorem held_stage (queue : Table QueueRow (fun row => row.id.get)) (stage : Stage) (resync : Bool)
    (stopped : List OperationId) (held : Held world)
    (kept : ∀ row ∈ queue.rows, ∃ old ∈ world.queue.rows, old.work = row.work)
    (known : ∀ draft id, StageKnows stage draft id -> Knows world draft id) (ready : Ready world stage) :
    Held { world with queue, stage, resync, stopped } := by
  -- Only the queue's states and the stage change, and what the stage knows was known.
  have quiet := quiet_stage world queue stage resync stopped
  apply held_quiet world _ held quiet
  next =>
    intro draft id knows
    cases knows with
    | row row there same names => exact .row row there same names
    | buffer buffer there same names => exact .buffer buffer there same names
    | queued row there asks =>
      obtain ⟨old, before, same⟩ := kept row there
      exact .queued old before (same.trans asks)
    | hand names => exact known draft id names
  next =>
    intro row there draft copy asks
    obtain ⟨old, before, same⟩ := kept row there
    exact .inr ⟨old, before, same⟩
  next => exact ready_quiet world _ quiet stage ready

theorem settling_knows (outcome : Outcome) (draft : DraftId) (id : RemoteId)
    (names : StageKnows (.settling rows outcome) draft id) : Knows world draft id := names.elim

theorem held_take (hindrance : Option Hindrance) (held : Held world) :
    Held (world.take buildDraft rows hindrance) := by
  unfold take
  split
  next head rest idle =>
    split
    next => exact held
    next row found =>
      split
      next =>
        obtain ⟨queue, same, -, kept⟩ := inFlight_queue (head :: rest) world
        rw [same]
        have works : ∀ row ∈ queue.rows, ∃ old ∈ world.queue.rows, old.work = row.work := by
          intro row there
          obtain ⟨old, before, -, work, -⟩ := kept row there
          exact ⟨old, before, work⟩
        have member := ((world.queue.get_eq_some head.get row).mp found).1
        cases hindrance with
        | some hindrance =>
          exact held_stage world queue _ world.resync world.stopped held works (fun _ _ none => none.elim) trivial
        | none =>
          cases asks : row.work with
          | discardDraft draft copy =>
            apply held_stage world queue _ world.resync world.stopped held works
            next =>
              rintro other id ⟨rfl, rfl⟩
              exact .queued row member asks
            next => exact held.queued row member draft copy asks
          | saveDraft draft =>
            dsimp only
            cases saved : world.drafts.get draft.get with
            | none =>
              exact held_stage world queue _ world.resync world.stopped held works (fun _ _ none => none.elim) trivial
            | some row =>
              obtain ⟨there, named⟩ := (world.drafts.get_eq_some draft.get row).mp saved
              apply held_stage world queue _ world.resync world.stopped held works
              next =>
                rintro other id ⟨rfl, names⟩
                exact .row row there (DraftId.get_injective named) names
              next =>
                change draft.get < _
                rw [← named]
                exact world.drafts.issued row there
      next => exact held
  next => exact held

theorem held_settle (exhausted : Bool) (held : Held world) : Held (world.settle exhausted) := by
  have works : ∀ operation state, ∀ row ∈ (world.setState operation state).queue.rows,
      ∃ old ∈ world.queue.rows, old.work = row.work := by
    intro operation state row there
    obtain ⟨old, before, rfl⟩ := mem_setState world operation state row there
    refine ⟨old, before, ?_⟩
    split
    next => rfl
    next => rfl
  unfold settle
  split
  next operation rest outcome settling =>
    apply held_stage world _ _ world.resync world.stopped held (works operation _)
    next =>
      intro draft id knows
      split at knows
      next => exact knows.elim
      next => exact knows.elim
    next =>
      split
      next => trivial
      next => trivial
  next =>
    exact held_stage world world.queue .idle world.resync world.stopped held (fun row there => ⟨row, there, rfl⟩)
      (fun _ _ none => none.elim) trivial
  next => exact held

theorem held_stop (held : Held world) : Held world.stop :=
  held_stage world world.queue .idle world.resync _ held (fun row there => ⟨row, there, rfl⟩)
    (fun _ _ none => none.elim) trivial

theorem held_requeue (held : Held world) : Held world.requeue := by
  unfold requeue
  split
  next idle =>
    apply held_stage world _ world.stage world.resync world.stopped held
    next =>
      intro row there
      rw [Table.update_rows] at there
      obtain ⟨old, before, rfl⟩ := List.mem_map.mp there
      refine ⟨old, before, ?_⟩
      unfold requeued
      split
      next => rfl
      next => rfl
    next =>
      intro draft id knows
      exact .hand knows
    next => exact held.ready
  next => exact held

/-! ### Steps on the server -/

theorem owns_land (id : RemoteId) (owns : Owns world draft id) :
    Owns (world.land job) draft id := by
  refine ⟨Nat.lt_succ_of_lt owns.1, ?_⟩
  intro landing there same
  rcases List.mem_cons.mp there with rfl | before
  next =>
    rw [← same] at owns
    exact absurd owns.1 (Nat.lt_irrefl _)
  next => exact owns.2 landing before same

theorem owns_landed (held : Held world) :
    Owns (world.land job) job.draft ⟨world.nextCopy⟩ := by
  refine ⟨Nat.lt_succ_self _, ?_⟩
  intro landing there same
  rcases List.mem_cons.mp there with rfl | before
  next => rfl
  next =>
    have below := (held.landed landing before).1
    rw [same] at below
    exact absurd below (Nat.lt_irrefl _)

theorem stands_land (stands : Stands world) : Stands (world.land job) := by
  intro row there landing found
  change newest (_ :: world.landings) row.id = some landing at found
  rw [newest_cons] at found
  change _ ∈ world.server ++ [_]
  rw [List.mem_append, List.mem_singleton]
  split at found
  next =>
    cases found
    exact .inr rfl
  next => exact .inl (stands row there landing found)

theorem held_land (stage : Stage) (resync : Bool) (held : Held world) (appending : world.stage = .appending rows job)
    (known : ∀ draft id, StageKnows stage draft id ->
      StageKnows world.stage draft id ∨ draft = job.draft ∧ id = ⟨world.nextCopy⟩)
    (ready : Ready (world.land job) stage) : Held { world.land job with stage, resync } := by
  -- A copy lands, and the stage the append leads to knows of no more than it.
  have issued : job.draft.get < world.drafts.nextId := by
    have ready := held.ready
    rw [appending] at ready
    exact ready
  constructor
  next =>
    intro landing there
    rcases List.mem_cons.mp there with rfl | before
    next => exact ⟨Nat.lt_succ_self _, issued⟩
    next => exact ⟨Nat.lt_succ_of_lt (held.landed landing before).1, (held.landed landing before).2⟩
  next =>
    intro draft id knows
    cases knows with
    | row row there same names => exact owns_land world job draft id (held.owned draft id (.row row there same names))
    | buffer buffer there same names =>
      exact owns_land world job draft id (held.owned draft id (.buffer buffer there same names))
    | queued row there asks => exact owns_land world job draft id (held.owned draft id (.queued row there asks))
    | hand names =>
      rcases known draft id names with before | ⟨rfl, rfl⟩
      next => exact owns_land world job draft id (held.owned draft id (.hand before))
      next => exact owns_landed world job held
  next => exact held.queued
  next => exact ready_same (world.land job) _ rfl rfl stage ready
  next => exact stands_land world job held.stands

theorem held_append (answer : AppendAnswer) (held : Held world) : Held (world.append answer) := by
  unfold append
  split
  next rows job appending =>
    have ready : ∀ location, Ready (world.land job) (.recording rows job location) := by
      intro location
      refine ⟨{ draft := job.draft, copy := ⟨world.nextCopy⟩, raw := job.raw, recorded := false, named := false }, ?_, ?_⟩
      next =>
        change newest (_ :: world.landings) job.draft = _
        rw [newest_cons, if_pos rfl]
      next =>
        intro same
        have owns := held.owned job.draft ⟨world.nextCopy⟩ (.hand (by
          rw [appending]
          exact ⟨rfl, same⟩))
        exact absurd owns.1 (Nat.lt_irrefl _)
    cases answer with
    | landed tells =>
      cases tells with
      | true =>
        apply held_land world rows job _ world.resync held appending ?_ (ready _)
        rintro draft id ⟨same, previous | told⟩
        next =>
          rw [appending]
          exact .inl ⟨same, previous⟩
        next =>
          cases told
          exact .inr ⟨same.symm, rfl⟩
      | false =>
        apply held_land world rows job _ true held appending ?_ (ready _)
        rintro draft id ⟨same, previous | told⟩
        next =>
          rw [appending]
          exact .inl ⟨same, previous⟩
        next => cases told
    | failed landed error =>
      cases landed with
      | true => exact held_land world rows job _ _ held appending (fun _ _ none => none.elim) trivial
      | false =>
        exact held_stage world world.queue _ _ world.stopped held (fun row there => ⟨row, there, rfl⟩)
          (fun _ _ none => none.elim) trivial
  next => exact held

theorem held_located (location : Option RemoteId)
    (stage : Stage) (resync : Bool) (held : Held world) (recording : world.stage = .recording rows job location)
    (known : ∀ draft id, StageKnows stage draft id -> StageKnows world.stage draft id)
    (ready : Ready (world.located rows job location) stage) :
    Held { world.located rows job location with stage, resync } := by
  -- What `set_server_copy` writes on the draft's row was known to the stage.
  have rowsOf : ∀ row ∈ (world.located rows job location).drafts.rows, ∃ old ∈ world.drafts.rows, old.id = row.id ∧
      (row.remoteId = old.remoteId ∨ row.remoteId = location ∧ row.id = job.draft) := by
    intro row there
    obtain ⟨old, before, rfl | ⟨rfl, here⟩⟩ := mem_updateAt world.drafts job.draft
      (fun row => { row with remoteId := location }) (fun _ => rfl) row there
    next => exact ⟨_, before, rfl, .inl rfl⟩
    next => exact ⟨old, before, rfl, .inr ⟨rfl, here⟩⟩
  have owns : ∀ draft id, Owns world draft id -> Owns (world.located rows job location) draft id := by
    intro draft id ⟨below, mine⟩
    refine ⟨below, ?_⟩
    intro landing there same
    obtain ⟨old, before, drafted, copied⟩ := mem_markRecorded _ _ _ landing there
    rw [← drafted]
    exact mine old before (copied.trans same)
  constructor
  next =>
    intro landing there
    obtain ⟨old, before, drafted, copied⟩ := mem_markRecorded _ _ _ landing there
    rw [← drafted, ← copied]
    exact held.landed old before
  next =>
    intro draft id knows
    apply owns draft id
    cases knows with
    | row row there same names =>
      obtain ⟨old, before, named, kept | ⟨placed, here⟩⟩ := rowsOf row there
      next => exact held.owned draft id (.row old before (named.trans same) (kept.symm.trans names))
      next =>
        apply held.owned draft id
        refine .hand ?_
        rw [recording]
        exact ⟨here.symm.trans same, .inr (placed.symm.trans names)⟩
    | buffer buffer there same names => exact held.owned draft id (.buffer buffer there same names)
    | queued row there asks => exact held.owned draft id (.queued row there asks)
    | hand names => exact held.owned draft id (.hand (known draft id names))
  next =>
    intro row there draft copy asks
    obtain ⟨issued, none⟩ := held.queued row there draft copy asks
    refine ⟨issued, ?_⟩
    intro other inside same
    obtain ⟨old, before, named, -⟩ := rowsOf other inside
    exact none old before (named.trans same)
  next => exact ready_same (world.located rows job location) _ rfl rfl stage ready
  next =>
    intro row there landing found
    obtain ⟨old, before, named, -⟩ := rowsOf row there
    change newest (markRecorded _ _ _) row.id = some landing at found
    rw [newest_markRecorded] at found
    obtain ⟨first, newest, same⟩ := Option.map_eq_some_iff.mp found
    have stands := held.stands old before first (named ▸ newest)
    rw [← same]
    split
    next => exact stands
    next => exact stands

theorem held_record (answer : RecordAnswer) (held : Held world) : Held (world.record answer) := by
  unfold record
  split
  next rows job location recording =>
    have away : ∀ resync, Held { world with stage := .settling rows wentAway, resync } := fun resync =>
      held_stage world world.queue _ resync world.stopped held (fun row there => ⟨row, there, rfl⟩)
        (fun _ _ none => none.elim) trivial
    split
    next => exact away true
    next => exact away true
    next => exact held_located world rows job location _ true held recording (fun _ _ none => none.elim) trivial
    next =>
      cases had : job.previous with
      | none =>
        exact held_located world rows job location _ world.resync held recording (fun _ _ none => none.elim) trivial
      | some previous =>
        apply held_located world rows job location _ world.resync held recording
        next =>
          rintro draft id ⟨same, rfl⟩
          rw [recording]
          exact ⟨same, .inl had⟩
        next =>
          have ready := held.ready
          rw [recording] at ready
          obtain ⟨landing, found, other⟩ := ready
          refine ⟨{ landing with recorded := true, named := location.isSome }, ?_, rfl, ?_⟩
          next =>
            change newest (markRecorded _ _ _) job.draft = _
            rw [newest_markRecorded, found]
            simp
          next =>
            intro same
            rw [had] at other
            exact other (congrArg some same.symm)
  next => exact held

theorem spared (held : Held world) (rows : List OperationId) (cause : Cause) (copy : RemoteId)
    (marked : Bool) (removing : world.stage = .removing rows cause copy marked) :
    ∀ row ∈ world.drafts.rows, ∀ landing, newest world.landings row.id = some landing -> landing.copy ≠ copy := by
  -- No draft's last upload is what is being removed.
  intro row there landing found same
  obtain ⟨member, named⟩ := newest_mem _ _ landing found
  have owns := held.owned cause.draft copy (.hand (by
    rw [removing]
    exact ⟨rfl, rfl⟩))
  have mine : landing.draft = cause.draft := owns.2 landing member same
  have ready := held.ready
  rw [removing] at ready
  cases cause with
  | replaced draft =>
    obtain ⟨last, newest, -, other⟩ := ready
    have drafted : row.id = draft := named.symm.trans mine
    rw [drafted] at found
    cases found.symm.trans newest
    exact other same
  | discarded draft => exact ready.2 row there (named.symm.trans mine)

theorem held_server (server : List ServerCopy) (stage : Stage) (resync : Bool) (held : Held world)
    (kept : ∀ row ∈ world.drafts.rows, ∀ landing, newest world.landings row.id = some landing ->
      { id := landing.copy, raw := landing.raw, deleted := false } ∈ server)
    (known : ∀ draft id, StageKnows stage draft id -> Knows world draft id) (ready : Ready world stage) :
    Held { world with server, stage, resync } := by
  have quieter := held_stage world world.queue stage resync world.stopped held (fun row there => ⟨row, there, rfl⟩)
    known ready
  constructor
  next => exact quieter.landed
  next =>
    intro draft id knows
    exact quieter.owned draft id
      (knows_same { world with stage, resync } { world with server, stage, resync } rfl rfl rfl rfl draft id knows)
  next => exact quieter.queued
  next => exact ready_same world _ rfl rfl stage ready
  next => exact kept

theorem mem_marked (server : List ServerCopy) (id : RemoteId) (copy : ServerCopy) (there : copy ∈ server)
    (other : copy.id ≠ id) : copy ∈ marked server id :=
  List.mem_map.mpr ⟨copy, there, if_neg other⟩

theorem held_store (uidPlus : Bool) (answer : WireAnswer) (held : Held world) :
    Held (world.store uidPlus answer) := by
  unfold store
  split
  next rows cause copy removing =>
    have safe := spared world held rows cause copy false removing
    have kept : ∀ row ∈ world.drafts.rows, ∀ landing, newest world.landings row.id = some landing ->
        { id := landing.copy, raw := landing.raw, deleted := false } ∈ marked world.server copy := by
      intro row there landing found
      exact mem_marked _ _ _ (held.stands row there landing found) (safe row there landing found)
    have still : ∀ draft id, StageKnows (.removing rows cause copy true) draft id -> Knows world draft id := by
      intro draft id names
      refine .hand ?_
      rw [removing]
      exact names
    have ready : Ready world (.removing rows cause copy true) := by
      have ready := held.ready
      rw [removing] at ready
      cases cause with
      | replaced draft => exact ready
      | discarded draft => exact ready
    cases answer with
    | done =>
      dsimp only
      split
      next =>
        split
        next => exact held_server world _ _ world.resync held kept still ready
        next => exact held_server world _ _ true held kept (fun _ _ none => none.elim) trivial
      next =>
        exact held_stage world world.queue _ world.resync world.stopped held (fun row there => ⟨row, there, rfl⟩)
          (fun _ _ none => none.elim) trivial
    | failed took error =>
      apply held_server world _ _ _ held _ (settling_knows world rows _) trivial
      cases took with
      | true => exact kept
      | false => exact held.stands
  next => exact held

theorem held_expunge (answer : WireAnswer) (held : Held world) : Held (world.expunge answer) := by
  unfold expunge
  split
  next rows cause copy removing =>
    have safe := spared world held rows cause copy true removing
    have kept : ∀ row ∈ world.drafts.rows, ∀ landing, newest world.landings row.id = some landing ->
        { id := landing.copy, raw := landing.raw, deleted := false } ∈ world.server.filter (fun held => held.id ≠ copy) := by
      intro row there landing found
      exact List.mem_filter.mpr ⟨held.stands row there landing found, by simpa using safe row there landing found⟩
    cases answer with
    | done => exact held_server world _ _ world.resync held kept (fun _ _ none => none.elim) trivial
    | failed took error =>
      apply held_server world _ _ _ held _ (settling_knows world rows _) trivial
      cases took with
      | true => exact kept
      | false => exact held.stands
  next => exact held

theorem held_sweep (held : Held world) : Held world.sweep := by
  apply held_server world _ world.stage world.resync held ?_ (fun _ _ names => .hand names) held.ready
  intro row there landing found
  exact List.mem_filter.mpr ⟨held.stands row there landing found, rfl⟩

theorem held_arrive (raw : Raw) (held : Held world) : Held (world.arrive raw) where
  landed := fun landing there => ⟨Nat.lt_succ_of_lt (held.landed landing there).1, (held.landed landing there).2⟩
  owned := by
    intro draft id knows
    have owns := held.owned draft id (knows_same world (world.arrive raw) rfl rfl rfl rfl draft id knows)
    exact ⟨Nat.lt_succ_of_lt owns.1, owns.2⟩
  queued := held.queued
  ready := ready_same world (world.arrive raw) rfl rfl world.stage held.ready
  stands := fun row there landing found => List.mem_append_left _ (held.stands row there landing found)

theorem held_renumber (held : Held world) : Held world.renumber where
  landed := by
    intro landing there
    obtain ⟨old, before, rfl⟩ := List.mem_map.mp there
    exact ⟨Nat.add_lt_add_right (held.landed old before).1 _, (held.landed old before).2⟩
  owned := by
    intro draft id knows
    have owns := held.owned draft id (knows_same world world.renumber rfl rfl rfl rfl draft id knows)
    refine ⟨Nat.lt_add_left _ owns.1, ?_⟩
    -- an identity from before the renumbering names nothing after it
    intro landing there same
    obtain ⟨old, before, rfl⟩ := List.mem_map.mp there
    have below := owns.1
    rw [← same] at below
    exact absurd below (Nat.not_lt.mpr (Nat.le_add_left _ _))
  queued := held.queued
  ready := by
    have ready := held.ready
    change Ready world.renumber world.stage
    generalize at_ : world.stage = stage at ready ⊢
    cases stage with
    | idle => trivial
    | settling rows outcome => trivial
    | appending rows job => exact ready
    | recording rows job location =>
      obtain ⟨landing, found, -⟩ := ready
      refine ⟨{ landing with copy := shifted world.nextCopy landing.copy }, ?_, ?_⟩
      next =>
        change newest (world.landings.map _) job.draft = _
        rw [newest_shifted, found]
        rfl
      next =>
        intro same
        have owns := held.owned job.draft (shifted world.nextCopy landing.copy) (.hand (by
          rw [at_]
          exact ⟨rfl, .inl same⟩))
        exact absurd owns.1 (Nat.not_lt.mpr (Nat.le_add_left _ _))
    | removing rows cause copy marked =>
      cases cause with
      | replaced draft =>
        obtain ⟨landing, found, recorded, -⟩ := ready
        refine ⟨{ landing with copy := shifted world.nextCopy landing.copy }, ?_, recorded, ?_⟩
        next =>
          change newest (world.landings.map _) draft = _
          rw [newest_shifted, found]
          rfl
        next =>
          intro same
          have owns := held.owned draft copy (.hand (by
            rw [at_]
            exact ⟨rfl, rfl⟩))
          rw [← same] at owns
          exact absurd owns.1 (Nat.not_lt.mpr (Nat.le_add_left _ _))
      | discarded draft => exact ready
  stands := by
    intro row there landing found
    change newest (world.landings.map _) row.id = some landing at found
    rw [newest_shifted] at found
    obtain ⟨old, newest, rfl⟩ := Option.map_eq_some_iff.mp found
    exact List.mem_map.mpr ⟨_, held.stands row there old newest, rfl⟩

theorem held_step (held : Held world) : Held (world.step buildDraft event) := by
  cases event with
  | compose text => exact held_compose world text held
  | reopen draft => exact held_reopen world draft held
  | save buffer text => exact held_save world buffer text held
  | discard draft => exact held_discard world draft held
  | delete draft => exact held_delete world draft held
  | take rows hindrance => exact held_take buildDraft world rows hindrance held
  | append answer => exact held_append world answer held
  | record answer => exact held_record world answer held
  | store uidPlus answer => exact held_store world uidPlus answer held
  | expunge answer => exact held_expunge world answer held
  | settle exhausted => exact held_settle world exhausted held
  | stop => exact held_stop world held
  | requeue => exact held_requeue world held
  | arrive raw => exact held_arrive world raw held
  | sweep => exact held_sweep world held
  | renumber => exact held_renumber world held

theorem held_initial : Held initial where
  landed := fun landing there => by cases there
  owned := by
    intro draft id knows
    cases knows with
    | row row there same names => cases there
    | buffer buffer there same names => cases there
    | queued row there asks => cases there
    | hand names => exact names.elim
  queued := fun row there => by cases there
  ready := trivial
  stands := fun row there => by cases there

/-! ### What is taken from the server -/

theorem take_server (hindrance : Option Hindrance) : (world.take buildDraft rows hindrance).server = world.server:= by
  unfold take
  split
  next head rest idle =>
    split
    next => rfl
    next =>
      split
      next =>
        obtain ⟨queue, same, -⟩ := inFlight_queue (head :: rest) world
        rw [same]
        split
        next => rfl
        next => rfl
        next =>
          split
          next => rfl
          next => rfl
      next => rfl
  next => rfl

theorem record_server (answer : RecordAnswer) : (world.record answer).server = world.server := by
  unfold record
  split
  next =>
    split
    next => rfl
    next => rfl
    next => rfl
    next => rfl
  next => rfl

theorem step_server (numbered : event ≠ .renumber) (copy : ServerCopy)
    (there : copy ∈ world.server) (live : copy.deleted = false) :
    copy ∈ (world.step buildDraft event).server ∨
      ∃ rows cause marked, world.stage = .removing rows cause copy.id marked := by
  -- A copy that stands unmarked is left by every step, unless the drainer is removing it.
  cases event with
  | compose text => exact .inl there
  | delete draft => exact .inl there
  | stop => exact .inl there
  | renumber => exact absurd rfl numbered
  | arrive raw => exact .inl (List.mem_append_left _ there)
  | sweep => exact .inl (List.mem_filter.mpr ⟨there, by simp [live]⟩)
  | reopen draft =>
    left
    change copy ∈ (world.reopen draft).server
    unfold reopen
    split
    next => exact there
    next => exact there
  | save buffer text =>
    left
    change copy ∈ (world.save buffer text).server
    unfold save
    split
    next => exact there
    next =>
      split
      next => exact there
      next => exact there
  | discard draft =>
    left
    change copy ∈ (world.discard draft).server
    unfold discard
    split
    next => exact there
    next =>
      split
      next => exact there
      next => exact there
  | take rows hindrance =>
    left
    change copy ∈ (world.take buildDraft rows hindrance).server
    rw [take_server]
    exact there
  | record answer =>
    left
    change copy ∈ (world.record answer).server
    rw [record_server]
    exact there
  | settle exhausted =>
    left
    change copy ∈ (world.settle exhausted).server
    unfold settle
    split
    next => exact there
    next => exact there
    next => exact there
  | requeue =>
    left
    change copy ∈ (world.requeue).server
    unfold requeue
    split
    next => exact there
    next => exact there
  | append answer =>
    left
    change copy ∈ (world.append answer).server
    unfold append
    split
    next =>
      split
      next => exact List.mem_append_left _ there
      next => exact List.mem_append_left _ there
      next landed error =>
        cases landed with
        | true => exact List.mem_append_left _ there
        | false => exact there
    next => exact there
  | store uidPlus answer =>
    change copy ∈ (world.store uidPlus answer).server ∨ _
    unfold store
    split
    next rows cause id removing =>
      by_cases same : copy.id = id
      next =>
        subst same
        exact .inr ⟨rows, cause, false, removing⟩
      next =>
        left
        have kept := mem_marked world.server id copy there same
        split
        next =>
          split
          next =>
            split
            next => exact kept
            next => exact kept
          next => exact there
        next took error =>
          cases took with
          | true => exact kept
          | false => exact there
    next => exact .inl there
  | expunge answer =>
    change copy ∈ (world.expunge answer).server ∨ _
    unfold expunge
    split
    next rows cause id removing =>
      by_cases same : copy.id = id
      next =>
        subst same
        exact .inr ⟨rows, cause, true, removing⟩
      next =>
        left
        have kept : copy ∈ world.server.filter (fun held => held.id ≠ id) :=
          List.mem_filter.mpr ⟨there, by simpa using same⟩
        cases answer with
        | done => exact kept
        | failed took error =>
          cases took with
          | true => exact kept
          | false => exact there
    next => exact .inl there

theorem ordered_held (held : Held world) :
    Ordered buildDraft (fun landing => landing.recorded) world event := by
  intro numbered copy there live taken
  rcases step_server buildDraft world event numbered copy there live with kept | ⟨rows, cause, marked, removing⟩
  next => exact absurd kept taken
  next =>
    refine ⟨rows, cause, marked, removing, ?_⟩
    rintro draft rfl
    have ready := held.ready
    rw [removing] at ready
    exact ready

end Postio.Drafts.World

import Mathlib.Data.List.Nodup
import Postio.Sync.ResyncPass

set_option autoImplicit false

namespace Postio

namespace SyncState

variable (state : SyncState) (status : ServerStatus) (now : Instant)

@[simp]
theorem observe_generation : (state.observe status now).generation = some status.generation:= rfl

@[simp]
theorem observe_uidNext : (state.observe status now).uidNext = some status.uidNext:= rfl

theorem generation_of_unchanged (observed : Generation) (same : state.generationChanged observed = false) :
    state.generation = none ∨ state.generation = some observed := by
  unfold generationChanged at same
  cases holds : state.generation with
  | none => exact .inl rfl
  | some known =>
    rw [holds] at same
    right
    simpa using same

theorem observe_highest (modSeq : ModSeq) (holds : (state.observe status now).highestModSeq = some modSeq) :
    status.highestModSeq = some modSeq ∨
      (state.generation = none ∨ state.generation = some status.generation) ∧ state.highestModSeq = some modSeq := by
  -- A value recorded is the one reported, or one kept from a report of the same generation.
  unfold observe at holds
  simp only [Option.or_eq_some_iff] at holds
  rcases holds with told | ⟨-, kept⟩
  · exact .inl told
  · split at kept
    next => cases kept
    next same => exact .inr ⟨generation_of_unchanged state _ (by simpa using same), kept⟩

theorem observe_synced (fresh : state.generation = none -> state.lastFullSyncAt = none)
    (synced : (state.observe status now).hasSynced = true) :
    state.hasSynced = true ∧ state.generation = some status.generation := by
  unfold observe hasSynced at synced
  simp only [Option.isSome_some, Bool.true_and] at synced
  split at synced
  next => cases synced
  next same =>
    rcases generation_of_unchanged state _ (by simpa using same) with none_yet | known
    · rw [fresh none_yet] at synced
      cases synced
    · exact ⟨by simp [hasSynced, known, synced], known⟩

theorem plan_cases : (state.plan status = .full .generationChanged ∧
        ∃ stale, state.generation = some stale ∧ stale ≠ status.generation) ∨
      (state.plan status = .full .neverSynced ∧
        (state.generation = none ∨ state.generation = some status.generation)) ∨
      state.hasSynced = true ∧ state.generation = some status.generation ∧
        ((state.plan status = .full .noModSeq) ∨
          ∃ known reported, state.highestModSeq = some known ∧ status.highestModSeq = some reported ∧
            (state.plan status = .incremental known ∧ known < reported ∨
              state.plan status = .full .modSeqWentBackwards ∧ reported < known ∨
              state.plan status = .upToDate ∧ reported = known)) := by
  -- The four answers of `plan` over a mailbox, with what each was decided by.
  unfold plan
  split
  next changed =>
    refine .inl ⟨rfl, ?_⟩
    unfold generationChanged at changed
    obtain ⟨stale, known, differs⟩ := (Option.any_eq_true _ _).mp changed
    exact ⟨stale, known, by simpa using differs⟩
  next same =>
    have generation := generation_of_unchanged state status.generation (by simpa using same)
    split
    next => exact .inr (.inl ⟨rfl, generation⟩)
    next synced =>
      have holds : state.hasSynced = true := by simpa using synced
      have known : state.generation = some status.generation := by
        rcases generation with none_yet | known
        · unfold hasSynced at holds
          rw [none_yet] at holds
          cases holds
        · exact known
      refine .inr (.inr ⟨holds, known, ?_⟩)
      split
      next first second held told =>
        refine .inr ⟨first, second, held, told, ?_⟩
        split
        next more => exact .inl ⟨rfl, more⟩
        next notMore =>
          split
          next less => exact .inr (.inl ⟨rfl, less⟩)
          next notLess => exact .inr (.inr ⟨rfl, Nat.le_antisymm (Nat.le_of_not_lt notMore) (Nat.le_of_not_lt notLess)⟩)
      next => exact .inl rfl

end SyncState

namespace ResyncWorld

variable (policy : SweepPolicy) (feed : ChangeFeed) (listsFlags : Bool)

/-! ### Writing rows -/

def SameKey (first second : HeldRow) : Prop := first.generation = second.generation ∧ first.uid = second.uid

variable (world : ResyncWorld) (rows : List HeldRow) (row : HeldRow)

theorem mem_uidsIn (generation : Generation) (uid : Uid) :
    uid ∈ uidsIn rows generation <-> ∃ row ∈ rows, row.generation = generation ∧ row.uid = uid := by
  simp only [uidsIn, List.mem_map, List.mem_filter, decide_eq_true_eq, and_assoc]

theorem mem_upsert (other : HeldRow) (held : other ∈ upsert rows row) :
    other = row ∨ other ∈ rows := by
  unfold upsert at held
  split at held
  next =>
    obtain ⟨before, there, same⟩ := List.mem_map.mp held
    split at same
    next => exact .inl same.symm
    next =>
      rw [← same]
      exact .inr there
  next => exact List.mem_cons.mp held

theorem upsert_self : row ∈ upsert rows row := by
  unfold upsert
  split
  next found =>
    obtain ⟨before, there, same⟩ := List.any_eq_true.mp found
    simp only [Bool.and_eq_true, decide_eq_true_eq] at same
    exact List.mem_map.mpr ⟨before, there, if_pos same⟩
  next => exact List.mem_cons_self

theorem upsert_kept (other : HeldRow) (held : other ∈ rows)
    (agrees : SameKey other row -> row = other) : other ∈ upsert rows row := by
  by_cases same : SameKey other row
  · rw [← agrees same]
    exact upsert_self rows row
  · unfold upsert
    split
    next => exact List.mem_map.mpr ⟨other, held, if_neg same⟩
    next => exact List.mem_cons_of_mem _ held

theorem uidsIn_upsert (generation : Generation) (uid : Uid)
    (held : uid ∈ uidsIn rows generation) : uid ∈ uidsIn (upsert rows row) generation := by
  obtain ⟨other, there, rfl, rfl⟩ := (mem_uidsIn _ _ _).mp held
  apply (mem_uidsIn _ _ _).mpr
  by_cases same : SameKey other row
  · exact ⟨row, upsert_self rows row, same.1.symm, same.2.symm⟩
  · exact ⟨other, upsert_kept rows row other there (fun key => absurd key same), rfl, rfl⟩

theorem applyServerFlags_upsert (held : row.uid ∈ uidsIn rows row.generation) :
    applyServerFlags rows row = upsert rows row := by
  obtain ⟨other, there, first, second⟩ := (mem_uidsIn _ _ _).mp held
  unfold upsert
  rw [if_pos]
  · rfl
  · exact List.any_eq_true.mpr ⟨other, there, by simp [first, second]⟩

theorem mem_written (written rows : List HeldRow) (other : HeldRow) (held : other ∈ written.foldl upsert rows) :
    other ∈ written ∨ other ∈ rows := by
  induction written generalizing rows with
  | nil => exact .inr held
  | cons row rest ih =>
    rcases ih (upsert rows row) held with later | before
    · exact .inl (List.mem_cons_of_mem _ later)
    · rcases mem_upsert rows row other before with rfl | there
      · exact .inl List.mem_cons_self
      · exact .inr there

theorem written_holds (written rows : List HeldRow) (target : HeldRow)
    (agrees : ∀ row ∈ written, SameKey target row -> row = target) (held : target ∈ rows ∨ target ∈ written) :
    target ∈ written.foldl upsert rows := by
  -- A row that nothing written contradicts is there, once it was there or is written.
  induction written generalizing rows with
  | nil => simpa using held
  | cons row rest ih =>
    apply ih (upsert rows row) (fun other later => agrees other (List.mem_cons_of_mem _ later))
    rcases held with before | named
    · exact .inl (upsert_kept rows row target before (agrees row List.mem_cons_self))
    · rcases List.mem_cons.mp named with rfl | later
      · exact .inl (upsert_self rows target)
      · exact .inr later

theorem uidsIn_written (written rows : List HeldRow) (generation : Generation) (uid : Uid)
    (held : uid ∈ uidsIn rows generation) : uid ∈ uidsIn (written.foldl upsert rows) generation := by
  induction written generalizing rows with
  | nil => exact held
  | cons row rest ih => exact ih _ (uidsIn_upsert rows row generation uid held)

theorem corrected_written (written rows : List HeldRow) (held : ∀ row ∈ written, row.uid ∈ uidsIn rows row.generation) :
    written.foldl applyServerFlags rows = written.foldl upsert rows := by
  induction written generalizing rows with
  | nil => rfl
  | cons row rest ih =>
    rw [List.foldl_cons, List.foldl_cons, applyServerFlags_upsert rows row (held row List.mem_cons_self)]
    apply ih
    intro other later
    exact uidsIn_upsert rows row _ _ (held other (List.mem_cons_of_mem _ later))

/-! ### What is on its way to the rows -/

/-- Of the messages unchanged since `modSeq`: each is held as it is, or is in hand, or is to be asked about later; and
what is in hand about them is true. -/
structure Ready (remote : RemoteMailbox) (rows : List HeldRow) (modSeq : ModSeq) (inHand : List HeldRow)
    (later : Uid -> Prop) : Prop where
  owed : ∀ message ∈ remote.messages, message.modSeq ≤ modSeq ->
    reportedRow remote message ∈ rows ∨ reportedRow remote message ∈ inHand ∨ later message.uid
  fresh : ∀ message ∈ remote.messages, message.modSeq ≤ modSeq -> ∀ row ∈ inHand,
    SameKey (reportedRow remote message) row -> row = reportedRow remote message

section ready

variable (remote : RemoteMailbox) (rows inHand : List HeldRow) (modSeq : ModSeq) (later : Uid -> Prop)

theorem Ready.holds (ready : Ready remote rows modSeq [] (fun _ => False)) (message : RemoteMessage)
    (there : message ∈ remote.messages) (below : message.modSeq ≤ modSeq) : reportedRow remote message ∈ rows := by
  rcases ready.owed message there below with held | none_in | none_later
  · exact held
  · cases none_in
  · exact none_later.elim

theorem ready_of_holds (held : ∀ message ∈ remote.messages, message.modSeq ≤ modSeq -> reportedRow remote message ∈ rows) :
    Ready remote rows modSeq [] later :=
  { owed := fun message there below => .inl (held message there below)
    fresh := fun _ _ _ _ absent => absurd absent List.not_mem_nil }

theorem Ready.written (count : Nat) (ready : Ready remote rows modSeq inHand later) :
    Ready remote ((inHand.take count).foldl upsert rows) modSeq (inHand.drop count) later := by
  constructor
  · intro message there below
    have agrees : ∀ row ∈ inHand.take count, SameKey (reportedRow remote message) row ->
        row = reportedRow remote message :=
      fun row taken => ready.fresh message there below row (List.mem_of_mem_take taken)
    rcases ready.owed message there below with held | named | asked
    · exact .inl (written_holds _ _ _ agrees (.inl held))
    · rw [← List.take_append_drop count inHand] at named
      rcases List.mem_append.mp named with taken | left
      · exact .inl (written_holds _ _ _ agrees (.inr taken))
      · exact .inr (.inl left)
    · exact .inr (.inr asked)
  · intro message there below row left
    exact ready.fresh message there below row (List.mem_of_mem_drop left)

theorem holds_written (count : Nat) (message : RemoteMessage) (there : message ∈ remote.messages)
    (below : message.modSeq ≤ modSeq) (ready : Ready remote rows modSeq inHand later)
    (held : reportedRow remote message ∈ rows) :
    reportedRow remote message ∈ (inHand.take count).foldl upsert rows := by
  refine written_holds _ _ _ (fun row taken => ?_) (.inl held)
  exact ready.fresh message there below row (List.mem_of_mem_take taken)

theorem Ready.moved (after : RemoteMailbox) (generation : after.generation = remote.generation)
    (kept : ∀ message ∈ after.messages, message.modSeq ≤ modSeq -> message ∈ remote.messages)
    (ready : Ready remote rows modSeq inHand later) : Ready after rows modSeq inHand later := by
  -- The server moved on. What it left alone is as ready as it was.
  have same (message : RemoteMessage) : reportedRow after message = reportedRow remote message := by
    simp [reportedRow, generation]
  constructor
  · intro message there below
    rw [same]
    exact ready.owed message (kept message there below) below
  · intro message there below
    rw [same]
    exact ready.fresh message (kept message there below) below

theorem Ready.weaken (other : Uid -> Prop) (weaker : ∀ message ∈ remote.messages, later message.uid -> other message.uid)
    (ready : Ready remote rows modSeq inHand later) : Ready remote rows modSeq inHand other :=
  { owed := fun message there below => (ready.owed message there below).imp_right (Or.imp_right (weaker message there))
    fresh := ready.fresh }

theorem reportedRow_unique (message other : RemoteMessage) (there : message ∈ remote.messages)
    (among : other ∈ remote.messages) (same : SameKey (reportedRow remote message) (reportedRow remote other)) :
    reportedRow remote other = reportedRow remote message := by
  have equal : message = other := List.inj_on_of_nodup_map remote.distinct there among same.2
  rw [equal]

theorem mem_answered (asked : RemoteMessage -> Bool) (row : HeldRow) :
    row ∈ answered remote asked <-> ∃ message ∈ remote.messages, asked message = true ∧ reportedRow remote message = row := by
  simp only [answered, List.mem_map, List.mem_filter, and_assoc]

theorem Ready.answer (asked : RemoteMessage -> Bool) (other : Uid -> Prop)
    (covered : ∀ message ∈ remote.messages, message.modSeq ≤ modSeq -> later message.uid ->
      asked message = true ∨ other message.uid) (ready : Ready remote rows modSeq inHand later) :
    Ready remote rows modSeq (inHand ++ answered remote asked) other := by
  -- An answer of now is true of everything, and settles what was asked for.
  constructor
  · intro message there below
    rcases ready.owed message there below with held | named | to_ask
    · exact .inl held
    · exact .inr (.inl (List.mem_append_left _ named))
    · rcases covered message there below to_ask with met | still
      · exact .inr (.inl (List.mem_append_right _ ((mem_answered _ _ _).mpr ⟨message, there, met, rfl⟩)))
      · exact .inr (.inr still)
  · intro message there below row named same
    rcases List.mem_append.mp named with before | told
    · exact ready.fresh message there below row before same
    · obtain ⟨other, among, -, rfl⟩ := (mem_answered _ _ _).mp told
      exact reportedRow_unique remote message other there among same

end ready

/-! ### The invariant -/

def Told (report : ServerStatus) : Prop :=
  -- A report is of a generation there has been, and no sequence it gave has been taken back.
  report.generation ∈ world.past ∧
    (report.generation = world.remote.generation -> ∀ modSeq, report.highestModSeq = some modSeq ->
      modSeq ≤ world.remote.highest)

/-- What a pass over a synced mailbox was decided from still stands. -/
structure Deciding (sync : SyncState) (reports : List ServerStatus) (pass : ResyncPass) : Prop where
  same : sync = pass.previous
  synced : sync.hasSynced = true
  generation : sync.generation = some pass.selected.generation
  report : pass.selected ∈ reports
  onward : ∃ known reported, sync.highestModSeq = some known ∧ pass.selected.highestModSeq = some reported ∧
    known ≤ reported

def ReadyFor (pass : ResyncPass) (inHand : List HeldRow) (later : Uid -> Prop) : Prop :=
  world.Current -> ∀ modSeq, pass.selected.highestModSeq = some modSeq ->
    Ready world.remote world.rows modSeq inHand later

def Swept (pass : ResyncPass) (uid : Uid) : Prop :=
  pass.flagPass = .sweep ∧ listsFlags = true ∧ uid ∈ uidsIn world.rows pass.selected.generation

def StageHolds : PassStage -> Prop
  | .idle | .recorded _ => True
  | .selecting previous => world.sync = previous
  | .pulling pass since => Deciding world.sync world.reports pass ∧ world.sync.highestModSeq = some since
  | .witnessing pass _ pulled _ | .writing pass _ _ pulled =>
    Deciding world.sync world.reports pass ∧ (∀ row ∈ pulled, row.generation = pass.selected.generation) ∧
      ReadyFor world pass pulled (Swept listsFlags world pass)
  | .reconciling pass _ _ recorded =>
    recorded = false -> Deciding world.sync world.reports pass ∧ ReadyFor world pass [] (Swept listsFlags world pass)
  | .sweeping pass => Deciding world.sync world.reports pass ∧ ReadyFor world pass [] (Swept listsFlags world pass)
  | .correcting pass differing =>
    Deciding world.sync world.reports pass ∧
      (∀ row ∈ differing, row.generation = pass.selected.generation ∧ row.uid ∈ uidsIn world.rows row.generation) ∧
      ReadyFor world pass differing (fun _ => False)
  | .recording pass _ => Deciding world.sync world.reports pass ∧ ReadyFor world pass [] (fun _ => False)
  | .rebuilding known => known = world.sync.generation
  | .wiping stale selected =>
    world.sync.generation = some stale ∧ stale ≠ world.remote.generation ∧ selected ∈ world.reports
  | .observing selected _ =>
    selected ∈ world.reports ∧ (world.rows = [] ∨ world.sync.generation = some selected.generation)
  | .enumerating _ recordAfter => recordAfter = none
  | .listing _ selected recordAfter =>
    recordAfter = none ∧ world.sync.generation = some selected.generation ∧
      (world.Current -> ∀ modSeq, world.sync.highestModSeq = some modSeq ->
        ∀ message ∈ world.remote.messages, message.modSeq ≤ modSeq -> message.uid < selected.uidNext)
  | .filling generation remaining inHand whole recordAfter =>
    recordAfter = none ∧ whole = true ∧ world.sync.generation = some generation ∧
      (∀ row ∈ inHand, row.generation = generation) ∧
      (world.Current -> ∀ modSeq, world.sync.highestModSeq = some modSeq ->
        Ready world.remote world.rows modSeq inHand (fun uid => uid ∈ remaining))
  | .recordingAfter _ => False

structure Invariant (world : ResyncWorld) : Prop where
  coherent : Coherent world
  told : ∀ report ∈ world.reports, Told world report
  present : world.remote.generation ∈ world.past
  seen : ∀ generation, world.sync.generation = some generation -> generation ∈ world.past
  fresh : world.sync.generation = none -> world.sync.lastFullSyncAt = none
  stage : StageHolds listsFlags world world.stage

theorem invariant_initial (remote : RemoteMailbox) : Invariant listsFlags (initial remote) :=
  { coherent :=
      { highest := fun _ none_yet => nomatch none_yet
        uidNext := fun _ none_yet => nomatch none_yet
        rows := fun _ absent => absurd absent List.not_mem_nil
        read := fun synced => nomatch synced
        enumerated := fun synced => nomatch synced }
    told := fun _ absent => absurd absent List.not_mem_nil
    present := List.mem_singleton_self _
    seen := fun _ none_yet => nomatch none_yet
    fresh := fun _ => rfl
    stage := trivial }

theorem Invariant.toStage (stage : PassStage) (invariant : Invariant listsFlags world)
    (holds : StageHolds listsFlags world stage) : Invariant listsFlags { world with stage } :=
  { coherent :=
      { highest := invariant.coherent.highest
        uidNext := invariant.coherent.uidNext
        rows := invariant.coherent.rows
        read := invariant.coherent.read
        enumerated := invariant.coherent.enumerated }
    told := invariant.told
    present := invariant.present
    seen := invariant.seen
    fresh := invariant.fresh
    stage := by cases stage <;> exact holds }

theorem Invariant.bounded (invariant : Invariant listsFlags world) (current : world.Current)
    (modSeq : ModSeq) (holds : world.sync.highestModSeq = some modSeq) : modSeq ≤ world.remote.highest := by
  -- The stored sequence is one the server reported, and has not taken back.
  obtain ⟨report, member, generation, told⟩ := invariant.coherent.highest modSeq holds
  have same : report.generation = world.remote.generation := Option.some.inj (generation.symm.trans current)
  exact (invariant.told report member).2 same modSeq told

theorem Invariant.toRows (stage : PassStage) (invariant : Invariant listsFlags world)
    (generation : ∀ row ∈ rows, world.sync.generation = some row.generation)
    (read : world.sync.hasSynced = true -> world.Current -> ∀ modSeq, world.sync.highestModSeq = some modSeq ->
      ∀ message ∈ world.remote.messages, message.modSeq ≤ modSeq -> reportedRow world.remote message ∈ rows)
    (holds : StageHolds listsFlags { world with rows } stage) : Invariant listsFlags { world with rows, stage } :=
  { coherent :=
      { highest := invariant.coherent.highest
        uidNext := invariant.coherent.uidNext
        rows := generation
        read := read
        enumerated := invariant.coherent.enumerated }
    told := invariant.told
    present := invariant.present
    seen := invariant.seen
    fresh := invariant.fresh
    stage := by cases stage <;> exact holds }

theorem Invariant.toObserved (selected : ServerStatus) (now : Instant) (stage : PassStage)
    (invariant : Invariant listsFlags world) (report : selected ∈ world.reports)
    (rows : world.rows = [] ∨ world.sync.generation = some selected.generation) (moves : world.MovesWithin selected)
    (holds : StageHolds listsFlags { world with sync := world.sync.observe selected now } stage) :
    Invariant listsFlags { world with sync := world.sync.observe selected now, stage } := by
  -- A report is recorded: under its own generation, or over a mailbox without rows; and not past what is held.
  have synced := world.sync.observe_synced selected now invariant.fresh
  refine
    { coherent :=
        { highest := ?_
          uidNext := fun uid same => ⟨selected, report, rfl, Option.some.inj same⟩
          rows := ?_
          read := ?_
          enumerated := ?_ }
      told := invariant.told
      present := invariant.present
      seen := ?_
      fresh := fun none_yet => nomatch none_yet
      stage := by cases stage <;> exact holds }
  · intro modSeq recorded
    rcases world.sync.observe_highest selected now modSeq recorded with told | ⟨same, held⟩
    · exact ⟨selected, report, rfl, told⟩
    · obtain ⟨before, member, generation, told⟩ := invariant.coherent.highest modSeq held
      refine ⟨before, member, ?_, told⟩
      rcases same with none_yet | same
      · rw [none_yet] at generation
        cases generation
      · exact same.symm.trans generation
  · intro row there
    rcases rows with empty | same
    · have absent : row ∈ world.rows := there
      rw [empty] at absent
      cases absent
    · exact same.symm.trans (invariant.coherent.rows row there)
  · intro complete current modSeq recorded message there below
    obtain ⟨before, same⟩ := synced complete
    have stays : world.Current := same.trans current
    rcases world.sync.observe_highest selected now modSeq recorded with told | ⟨-, held⟩
    · exact moves before same stays modSeq told message there below
    · exact invariant.coherent.read before stays modSeq held message there below
  · intro complete
    obtain ⟨before, same⟩ := synced complete
    obtain ⟨generation, member, named⟩ := invariant.coherent.enumerated before
    exact ⟨generation, member, same.symm.trans named⟩
  · intro generation same
    cases same
    exact (invariant.told selected report).1

theorem Invariant.toReport (invariant : Invariant listsFlags world)
    (idle : StageHolds listsFlags world.report world.stage) :
    Invariant listsFlags world.report :=
  { coherent :=
      { highest := fun modSeq holds =>
          let ⟨report, member, rest⟩ := invariant.coherent.highest modSeq holds
          ⟨report, List.mem_cons_of_mem _ member, rest⟩
        uidNext := fun uid holds =>
          let ⟨report, member, rest⟩ := invariant.coherent.uidNext uid holds
          ⟨report, List.mem_cons_of_mem _ member, rest⟩
        rows := invariant.coherent.rows
        read := invariant.coherent.read
        enumerated := invariant.coherent.enumerated }
    told := by
      intro report member
      rcases List.mem_cons.mp member with rfl | before
      · refine ⟨invariant.present, fun _ modSeq told => ?_⟩
        exact Nat.le_of_eq (world.remote.status_bound modSeq told)
      · exact invariant.told report before
    present := invariant.present
    seen := invariant.seen
    fresh := invariant.fresh
    stage := idle }

end ResyncWorld

end Postio

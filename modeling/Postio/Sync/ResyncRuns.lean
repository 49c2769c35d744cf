import Postio.Sync.ResyncCoherent

set_option autoImplicit false

namespace Postio

namespace ResyncWorld

variable (policy : SweepPolicy) (feed : ChangeFeed) (listsFlags : Bool)

/-! ### The server moves -/

variable (world : ResyncWorld) (remote : RemoteMailbox) (event : RemoteEvent) (pass : ResyncPass) (now : Instant)
    (generation : Generation) (count : Nat) (inHand : List HeldRow) (known : List Uid) (expectedGone : Nat)

def moved : ResyncWorld :=
  { world with
    remote := world.remote.next world.past event
    past := (world.remote.next world.past event).generation :: world.past }

theorem moved_current (seen : ∀ generation, world.sync.generation = some generation -> generation ∈ world.past)
    (current : (world.moved event).Current) :
    world.Current ∧ (world.moved event).remote.generation = world.remote.generation ∧
      ∀ modSeq ≤ world.remote.highest, ∀ message ∈ (world.moved event).remote.messages, message.modSeq ≤ modSeq ->
        message ∈ world.remote.messages := by
  -- While the stored state is of the server's generation, the server only adds to its sequence.
  rcases world.remote.next_cases world.past event with unknown | ⟨same, -, kept⟩
  · exact absurd (seen _ current) unknown
  · refine ⟨current.trans (congrArg some same), same, ?_⟩
    intro modSeq bound message there below
    exact kept message there (Nat.le_trans below bound)

theorem readyFor_moved (later : Uid -> Prop) (invariant : Invariant listsFlags world)
    (deciding : Deciding world.sync world.reports pass) (ready : ReadyFor world pass inHand later) :
    ReadyFor (world.moved event) pass inHand later := by
  intro current modSeq told
  obtain ⟨before, same, kept⟩ := moved_current world event invariant.seen current
  have generation : pass.selected.generation = world.remote.generation :=
    Option.some.inj (deciding.generation.symm.trans before)
  have bound := (invariant.told pass.selected deciding.report).2 generation modSeq told
  exact Ready.moved _ _ _ _ _ _ same (kept modSeq bound) (ready before modSeq told)

theorem stage_moved (stage : PassStage)
    (invariant : Invariant listsFlags world) (holds : StageHolds listsFlags world stage) :
    StageHolds listsFlags (world.moved event) stage := by
  cases stage with
  | idle => trivial
  | recorded pass => trivial
  | selecting previous => exact holds
  | pulling pass since => exact holds
  | witnessing pass known pulled floor =>
    obtain ⟨deciding, generation, ready⟩ := holds
    exact ⟨deciding, generation, readyFor_moved listsFlags world event pass pulled _ invariant deciding ready⟩
  | writing pass known newlyArrived pulled =>
    obtain ⟨deciding, generation, ready⟩ := holds
    exact ⟨deciding, generation, readyFor_moved listsFlags world event pass pulled _ invariant deciding ready⟩
  | reconciling pass known expectedGone recorded =>
    intro first
    obtain ⟨deciding, ready⟩ := holds first
    exact ⟨deciding, readyFor_moved listsFlags world event pass [] _ invariant deciding ready⟩
  | sweeping pass =>
    obtain ⟨deciding, ready⟩ := holds
    exact ⟨deciding, readyFor_moved listsFlags world event pass [] _ invariant deciding ready⟩
  | correcting pass differing =>
    obtain ⟨deciding, generation, ready⟩ := holds
    exact ⟨deciding, generation, readyFor_moved listsFlags world event pass differing _ invariant deciding ready⟩
  | recording pass swept =>
    obtain ⟨deciding, ready⟩ := holds
    exact ⟨deciding, readyFor_moved listsFlags world event pass [] _ invariant deciding ready⟩
  | rebuilding known => exact holds
  | wiping stale selected =>
    obtain ⟨generation, other, report⟩ := holds
    refine ⟨generation, ?_, report⟩
    rcases world.remote.next_cases world.past event with unknown | ⟨same, -, -⟩
    · intro back
      rw [back] at generation
      exact unknown (invariant.seen _ generation)
    · intro back
      exact other (back.trans same)
  | observing selected coverage => exact holds
  | enumerating coverage recordAfter => exact holds
  | listing coverage selected recordAfter =>
    obtain ⟨none_after, generation, below⟩ := holds
    refine ⟨none_after, generation, ?_⟩
    intro current modSeq recorded message there under
    obtain ⟨before, -, kept⟩ := moved_current world event invariant.seen current
    have bound := invariant.bounded listsFlags world before modSeq recorded
    exact below before modSeq recorded message (kept modSeq bound message there under) under
  | filling generation remaining inHand whole recordAfter =>
    obtain ⟨none_after, complete, under, answers, ready⟩ := holds
    refine ⟨none_after, complete, under, answers, ?_⟩
    intro current modSeq recorded
    obtain ⟨before, same, kept⟩ := moved_current world event invariant.seen current
    have bound := invariant.bounded listsFlags world before modSeq recorded
    exact Ready.moved _ _ _ _ _ _ same (kept modSeq bound) (ready before modSeq recorded)
  | recordingAfter selected => exact holds.elim

theorem invariant_moved (invariant : Invariant listsFlags world) :
    Invariant listsFlags (world.moved event) := by
  refine
    { coherent :=
        { highest := invariant.coherent.highest
          uidNext := invariant.coherent.uidNext
          rows := invariant.coherent.rows
          read := ?_
          enumerated := invariant.coherent.enumerated }
      told := ?_
      present := List.mem_cons_self
      seen := fun generation same => List.mem_cons_of_mem _ (invariant.seen generation same)
      fresh := invariant.fresh
      stage := stage_moved listsFlags world event world.stage invariant invariant.stage }
  · intro synced current modSeq recorded message there below
    obtain ⟨before, same, kept⟩ := moved_current world event invariant.seen current
    have bound := invariant.bounded listsFlags world before modSeq recorded
    have held := invariant.coherent.read synced before modSeq recorded message (kept modSeq bound message there below) below
    have row : reportedRow (world.moved event).remote message = reportedRow world.remote message := by
      simp [reportedRow, same]
    unfold Holds
    rw [row]
    exact held
  · intro report member
    obtain ⟨had, bound⟩ := invariant.told report member
    refine ⟨List.mem_cons_of_mem _ had, ?_⟩
    intro generation modSeq told
    rcases world.remote.next_cases world.past event with unknown | ⟨same, raised, -⟩
    · exact absurd (generation ▸ had) unknown
    · exact Nat.le_trans (bound (generation.trans same) modSeq told) raised

/-! ### A pass is decided -/

theorem stage_afterPull (deciding : Deciding world.sync world.reports pass)
    (ready : ReadyFor world pass [] (Swept listsFlags world pass)) : StageHolds listsFlags world (afterPull pass) := by
  unfold afterPull
  split
  next => exact ⟨deciding, ready⟩
  next trusts =>
    refine ⟨deciding, fun current modSeq told => ?_⟩
    exact Ready.weaken _ _ _ _ _ _ (fun _ _ sweeps => trusts sweeps.1) (ready current modSeq told)

theorem stage_planned (selected : ServerStatus) (invariant : Invariant listsFlags world)
    (report : selected ∈ world.reports) (now : selected = world.remote.status) :
    StageHolds listsFlags world (planned policy feed world.sync selected) := by
  have generation : selected.generation = world.remote.generation := by rw [now]; rfl
  unfold planned
  rcases world.sync.plan_cases selected with
    ⟨plan, stale, known, differs⟩ | ⟨plan, never⟩ | ⟨synced, known, reason⟩
  · simp only [plan, known]
    exact ⟨known, generation ▸ differs, report⟩
  · simp only [plan]
    refine ⟨report, ?_⟩
    rcases never with none_yet | known
    · left
      apply List.eq_nil_iff_forall_not_mem.mpr
      intro row there
      have under := invariant.coherent.rows row there
      rw [none_yet] at under
      cases under
    · exact .inr known
  · have current : world.Current := known.trans (congrArg some generation)
    rcases reason with plan | ⟨first, second, held, told, ⟨plan, more⟩ | ⟨plan, less⟩ | ⟨plan, equal⟩⟩
    · simp only [plan]
      exact ⟨report, .inr known⟩
    · simp only [plan]
      exact ⟨⟨rfl, synced, known, report, first, second, held, told, Nat.le_of_lt more⟩, held⟩
    · -- A server does not take its sequence back.
      have bound := invariant.bounded listsFlags world current first held
      rw [now] at told
      rw [← world.remote.status_bound second told] at bound
      exact absurd less (Nat.not_lt_of_le bound)
    · simp only [plan]
      refine stage_afterPull listsFlags world ⟨world.sync, selected, _⟩
        ⟨rfl, synced, known, report, first, second, held, told, Nat.le_of_eq equal.symm⟩ ?_
      intro _ modSeq asked
      have same : modSeq = first := by
        rw [← equal]
        exact Option.some.inj (asked.symm.trans told)
      subst same
      exact ready_of_holds _ _ _ _ (invariant.coherent.read synced current modSeq held)

theorem stage_rebuilt (selected : ServerStatus) (invariant : Invariant listsFlags world)
    (report : selected ∈ world.reports) (now : selected = world.remote.status) :
    StageHolds listsFlags world (rebuilt world.sync.generation selected) := by
  have generation : selected.generation = world.remote.generation := by rw [now]; rfl
  unfold rebuilt
  split
  next stale known =>
    split
    next differs => exact ⟨known, generation ▸ differs, report⟩
    next same => exact ⟨report, .inr (known.trans (congrArg some (not_not.mp same)))⟩
  next none_yet =>
    refine ⟨report, .inl (List.eq_nil_iff_forall_not_mem.mpr ?_)⟩
    intro row there
    have under := invariant.coherent.rows row there
    rw [none_yet] at under
    cases under

theorem invariant_report (invariant : Invariant listsFlags world) :
    Invariant listsFlags { world.report with stage := .idle } :=
  (invariant.toStage listsFlags world .idle trivial).toReport listsFlags _ trivial

theorem invariant_enumerate (coverage : Coverage) (now : Instant)
    (steady : (world.rows = [] ∨ world.Current) ∧ world.MovesWithin world.remote.status)
    (invariant : Invariant listsFlags world) : Invariant listsFlags (enumerate world coverage none now) := by
  obtain ⟨rows, moves⟩ := steady
  refine (invariant_report listsFlags world invariant).toObserved listsFlags _ world.remote.status now _
    List.mem_cons_self rows moves ?_
  split
  next empty =>
    refine ⟨rfl, rfl, rfl, fun _ absent => absurd absent List.not_mem_nil, ?_⟩
    intro current modSeq recorded
    refine ready_of_holds _ _ _ _ fun message there _ => ?_
    -- Nothing is numbered below the first UID.
    obtain ⟨positive, below⟩ := world.remote.numbered message there
    have none_left (uid ceiling : Nat) (first : 0 < uid) (last : uid < ceiling) (bound : ceiling - 1 < 1) : False := by
      omega
    exact (none_left message.uid world.remote.uidNext positive below empty).elim
  next =>
    refine ⟨rfl, rfl, ?_⟩
    intro current modSeq recorded message there below
    exact (world.remote.numbered message there).2

theorem invariant_select (steady : Steady world (.select now))
    (invariant : Invariant listsFlags world) : Invariant listsFlags (select policy feed world now) := by
  have holds := invariant.stage
  have reported := invariant_report listsFlags world invariant
  unfold select
  split
  next previous stage =>
    rw [stage] at holds
    have same : world.sync = previous := holds
    subst same
    exact reported.toStage listsFlags _ _
      (stage_planned policy feed listsFlags _ world.remote.status reported List.mem_cons_self rfl)
  next known stage =>
    rw [stage] at holds
    have same : known = world.sync.generation := holds
    subst same
    exact reported.toStage listsFlags _ _
      (stage_rebuilt listsFlags _ world.remote.status reported List.mem_cons_self rfl)
  next coverage recordAfter stage =>
    rw [stage] at holds
    have same : recordAfter = none := holds
    subst same
    simp only [Steady, stage] at steady
    exact invariant_enumerate listsFlags world coverage now steady invariant
  next => exact invariant

theorem invariant_refuse (invariant : Invariant listsFlags world) :
    Invariant listsFlags (refuse world) := by
  have holds := invariant.stage
  have rebuilds (pass : ResyncPass) (deciding : Deciding world.sync world.reports pass) :
      Invariant listsFlags { world with stage := .rebuilding pass.previous.generation } :=
    invariant.toStage listsFlags world _ (congrArg SyncState.generation deciding.same.symm)
  unfold refuse
  split
  next previous stage =>
    rw [stage] at holds
    exact invariant.toStage listsFlags world _ (congrArg SyncState.generation (Eq.symm holds))
  next pass since stage =>
    rw [stage] at holds
    exact rebuilds pass holds.1
  next pass known pulled floor stage =>
    rw [stage] at holds
    exact rebuilds pass holds.1
  next pass stage =>
    rw [stage] at holds
    exact rebuilds pass holds.1
  next pass known expectedGone stage =>
    rw [stage] at holds
    exact rebuilds pass (holds rfl).1
  next => exact invariant.toStage listsFlags world .idle trivial

/-! ### The pull -/

theorem ready_changed (since modSeq : ModSeq) (hidden : List Uid)
    (invariant : Invariant listsFlags world) (deciding : Deciding world.sync world.reports pass)
    (held : world.sync.highestModSeq = some since) (current : world.Current) :
    Ready world.remote world.rows modSeq
      (changedSince world.remote since
        (if sweeps listsFlags pass then
          hidden.filter (fun uid => (uidsIn world.rows pass.selected.generation).contains uid) else []))
      (Swept listsFlags world pass) := by
  -- The feed's answer, with what was read before it, is everything up to what the server has.
  have read := invariant.coherent.read deciding.synced current since held
  constructor
  · intro message there below
    by_cases old : message.modSeq ≤ since
    · exact .inl (read message there old)
    · right
      by_cases excused : message.uid ∈ (if sweeps listsFlags pass then
          hidden.filter (fun uid => (uidsIn world.rows pass.selected.generation).contains uid) else [])
      · right
        split at excused
        next due =>
          simp only [sweeps, Bool.and_eq_true, decide_eq_true_eq] at due
          obtain ⟨-, known⟩ := List.mem_filter.mp excused
          exact ⟨due.1, due.2, by simpa using known⟩
        next => cases excused
      · left
        refine (mem_answered _ _ _).mpr ⟨message, there, ?_, rfl⟩
        refine (Bool.and_eq_true _ _).mpr ⟨decide_eq_true (Nat.lt_of_not_le old), ?_⟩
        rw [Bool.not_eq_true', ← Bool.not_eq_true, List.contains_iff_mem]
        exact excused
  · intro message there below row told same
    obtain ⟨other, among, -, rfl⟩ := (mem_answered _ _ _).mp told
    exact reportedRow_unique world.remote message other there among same

theorem answered_generation (asked : RemoteMessage -> Bool) (row : HeldRow)
    (told : row ∈ answered remote asked) : row.generation = remote.generation := by
  obtain ⟨message, -, -, rfl⟩ := (mem_answered _ _ _).mp told
  rfl

theorem invariant_pull (hidden : List Uid) (steady : Steady world (.pull hidden))
    (invariant : Invariant listsFlags world) : Invariant listsFlags (pull listsFlags world hidden) := by
  have holds := invariant.stage
  unfold pull
  split
  next pass since stage =>
    rw [stage] at holds
    obtain ⟨deciding, held⟩ := holds
    have under : world.remote.generation = pass.selected.generation :=
      steady pass.selected.generation (by rw [stage]; rfl)
    have current : world.Current := deciding.generation.trans (congrArg some under.symm)
    have ready (modSeq : ModSeq) := ready_changed listsFlags world pass since modSeq hidden invariant deciding held current
    refine invariant.toStage listsFlags world _ ?_
    split
    next floor =>
      refine ⟨deciding, fun row told => ?_, fun _ modSeq _ => ready modSeq⟩
      exact (answered_generation _ _ row told).trans under
    next =>
      refine ⟨deciding, fun row told => ?_, fun _ modSeq _ => ready modSeq⟩
      exact (answered_generation _ _ row told).trans under
  next => exact invariant

theorem invariant_witness (steady : Steady world .witness)
    (invariant : Invariant listsFlags world) : Invariant listsFlags (witness world) := by
  have holds := invariant.stage
  unfold witness
  split
  next pass known pulled floor stage =>
    rw [stage] at holds
    obtain ⟨deciding, generation, ready⟩ := holds
    have under : world.remote.generation = pass.selected.generation :=
      steady pass.selected.generation (by rw [stage]; rfl)
    refine invariant.toStage listsFlags world _ ⟨deciding, ?_, ?_⟩
    · intro row told
      rcases List.mem_append.mp told with before | more
      · exact generation row before
      · exact (answered_generation _ _ row more).trans under
    · intro current modSeq told
      refine Ready.answer _ _ _ _ _ _ _ ?_ (ready current modSeq told)
      intro message _ _ still
      exact .inr still
  next => exact invariant

theorem read_written (count : Nat) (modSeq : ModSeq) (later : Uid -> Prop)
    (invariant : Invariant listsFlags world) (synced : world.sync.hasSynced = true) (current : world.Current)
    (known : ModSeq) (held : world.sync.highestModSeq = some known) (onward : known ≤ modSeq)
    (ready : Ready world.remote world.rows modSeq inHand later) :
    ∀ message ∈ world.remote.messages, message.modSeq ≤ known ->
      reportedRow world.remote message ∈ (inHand.take count).foldl upsert world.rows := by
  -- What is in hand under the stored generation is written without loss.
  intro message there below
  have row := invariant.coherent.read synced current known held message there below
  exact holds_written _ _ _ _ _ count message there (Nat.le_trans below onward) ready row

theorem rows_written (count : Nat) (generation : Generation)
    (invariant : Invariant listsFlags world) (stored : world.sync.generation = some generation)
    (answers : ∀ row ∈ inHand, row.generation = generation) :
    ∀ row ∈ (inHand.take count).foldl upsert world.rows, world.sync.generation = some row.generation := by
  intro row there
  rcases mem_written _ _ row there with taken | before
  · rw [answers row (List.mem_of_mem_take taken)]
    exact stored
  · exact invariant.coherent.rows row before

theorem invariant_pass_written (count : Nat)
    (later : Uid -> Prop) (stage : PassStage) (invariant : Invariant listsFlags world)
    (deciding : Deciding world.sync world.reports pass)
    (answers : ∀ row ∈ inHand, row.generation = pass.selected.generation) (ready : ReadyFor world pass inHand later)
    (holds : StageHolds listsFlags { world with rows := (inHand.take count).foldl upsert world.rows } stage) :
    Invariant listsFlags { world with rows := (inHand.take count).foldl upsert world.rows, stage } := by
  refine invariant.toRows listsFlags world _ stage
    (rows_written listsFlags world inHand count pass.selected.generation invariant deciding.generation answers) ?_ holds
  intro synced current modSeq recorded
  obtain ⟨known, reported, held, told, onward⟩ := deciding.onward
  have same : known = modSeq := Option.some.inj (held.symm.trans recorded)
  subst same
  exact read_written listsFlags world inHand count reported later invariant synced current known held onward
    (ready current reported told)

theorem invariant_write (invariant : Invariant listsFlags world) :
    Invariant listsFlags (write world count) := by
  have holds := invariant.stage
  unfold write
  split
  next pass known newlyArrived stage =>
    rw [stage] at holds
    obtain ⟨deciding, -, ready⟩ := holds
    refine invariant.toStage listsFlags world _ ?_
    split
    next => exact fun _ => ⟨deciding, ready⟩
    next => exact stage_afterPull listsFlags world pass deciding ready
  next pass known newlyArrived pulled _ stage =>
    rw [stage] at holds
    obtain ⟨deciding, answers, ready⟩ := holds
    refine invariant_pass_written listsFlags world pass pulled count _ _ invariant deciding answers ready
      ⟨deciding, fun row left => answers row (List.mem_of_mem_drop left), ?_⟩
    intro current modSeq told
    refine Ready.weaken _ _ _ _ _ _ ?_ (Ready.written _ _ _ _ _ count (ready current modSeq told))
    intro message _ swept
    exact ⟨swept.1, swept.2.1, uidsIn_written _ _ _ _ swept.2.2⟩
  next => exact invariant

/-! ### The checks and the sweep -/

theorem vanished_absent (message : RemoteMessage)
    (there : message ∈ remote.messages) : message.uid ∉ vanished remote known := by
  intro gone
  obtain ⟨-, absent⟩ := List.mem_filter.mp gone
  have listed : (remote.messages.map (fun message => message.uid)).contains message.uid = true :=
    List.contains_iff_mem.mpr (List.mem_map_of_mem there)
  rw [listed] at absent
  cases absent

theorem reconciled_kept (row : HeldRow) (held : row ∈ world.rows) (message : RemoteMessage) (there : message ∈ world.remote.messages)
    (same : row.uid = message.uid) : row ∈ reconcileVanished world generation known expectedGone := by
  -- The rows of messages that the server lists stay.
  unfold reconcileVanished
  dsimp only
  split
  next => exact held
  next =>
    refine List.mem_filter.mpr ⟨held, ?_⟩
    have kept : (vanished world.remote known).contains row.uid = false := by
      rw [← Bool.not_eq_true, List.contains_iff_mem, same]
      exact vanished_absent world.remote known message there
    rw [kept, Bool.and_false]
    rfl

theorem reconciled_subset (row : HeldRow) (held : row ∈ reconcileVanished world generation known expectedGone) : row ∈ world.rows := by
  unfold reconcileVanished at held
  dsimp only at held
  split at held
  next => exact held
  next => exact List.mem_of_mem_filter held

theorem invariant_reconciled (recorded : Bool) (holds : recorded = false -> Deciding world.sync world.reports pass ∧
      ReadyFor world pass [] (Swept listsFlags world pass)) (invariant : Invariant listsFlags world) :
    Invariant listsFlags
      { world with
        rows := reconcileVanished world pass.selected.generation known expectedGone
        stage := if recorded then .idle else afterPull pass } := by
  refine invariant.toRows listsFlags world _ _ ?_ ?_ ?_
  · intro row there
    exact invariant.coherent.rows row (reconciled_subset world _ _ _ row there)
  · intro synced current modSeq told message there below
    have held := invariant.coherent.read synced current modSeq told message there below
    exact reconciled_kept world _ _ _ _ held message there rfl
  · cases recorded with
    | true => trivial
    | false =>
      obtain ⟨deciding, ready⟩ := holds rfl
      refine stage_afterPull listsFlags _ pass deciding ?_
      intro current modSeq told
      have before := ready current modSeq told
      refine { owed := ?_, fresh := fun _ _ _ _ absent => absurd absent List.not_mem_nil }
      intro message there below
      rcases before.owed message there below with held | absent | swept
      · exact .inl (reconciled_kept world _ _ _ _ held message there rfl)
      · cases absent
      · refine .inr (.inr ⟨swept.1, swept.2.1, ?_⟩)
        obtain ⟨row, held, generation, uid⟩ := (mem_uidsIn _ _ _).mp swept.2.2
        exact (mem_uidsIn _ _ _).mpr ⟨row, reconciled_kept world _ _ _ row held message there uid, generation, uid⟩

theorem mem_missingUids (coverage : Coverage) (selected : ServerStatus) (answered : Bool)
    (message : RemoteMessage) (there : message ∈ world.remote.messages) (below : message.uid < selected.uidNext)
    (asked : coverage = .everything ∨ message.uid ∉ uidsIn world.rows selected.generation) :
    message.uid ∈ missingUids world coverage selected answered := by
  -- An enumeration asks about every message that its own `SELECT` counted, but for those it may leave out.
  obtain ⟨positive, -⟩ := world.remote.numbered message there
  have within (uid ceiling : Nat) (first : 0 < uid) (last : uid < ceiling) : uid ≤ ceiling - 1 ∧ uid < 1 + (ceiling - 1) := by
    omega
  obtain ⟨under, inside⟩ := within message.uid selected.uidNext positive below
  unfold missingUids
  dsimp only
  refine (List.mem_insertionSort _).mpr (List.mem_filter.mpr ⟨?_, ?_⟩)
  · split
    next => exact List.mem_filter.mpr ⟨List.mem_map_of_mem there, decide_eq_true under⟩
    next => exact List.mem_range'_1.mpr ⟨positive, inside⟩
  · rcases asked with everything | unknown
    · simp [everything]
    · simp [unknown]

theorem invariant_list (answered : Bool) (steady : Steady world (.list answered))
    (invariant : Invariant listsFlags world) : Invariant listsFlags (list world answered) := by
  have holds := invariant.stage
  unfold list
  split
  next pass known expectedGone recorded stage =>
    rw [stage] at holds
    exact invariant_reconciled listsFlags world pass known expectedGone recorded holds invariant
  next coverage selected recordAfter stage =>
    rw [stage] at holds
    obtain ⟨none_after, generation, counted⟩ := holds
    refine invariant.toStage listsFlags world _
      ⟨none_after, rfl, generation, fun _ absent => absurd absent List.not_mem_nil, ?_⟩
    intro current modSeq recorded
    refine { owed := ?_, fresh := fun _ _ _ _ absent => absurd absent List.not_mem_nil }
    intro message there below
    have under := counted current modSeq recorded message there below
    by_cases asked : coverage = .everything ∨ message.uid ∉ uidsIn world.rows selected.generation
    · exact .inr (.inr (mem_missingUids world coverage selected answered message there under asked))
    · obtain ⟨notAll, known⟩ := not_or.mp asked
      left
      by_cases synced : world.sync.hasSynced = true
      · exact invariant.coherent.read synced current modSeq recorded message there below
      · have missing : coverage = .missing := by cases coverage <;> first | rfl | exact absurd rfl notAll
        have same : selected.generation = world.remote.generation := Option.some.inj (generation.symm.trans current)
        subst missing
        simp only [Steady, stage] at steady
        refine steady (by simpa using synced) current modSeq recorded message there below ?_
        rw [← same]
        exact not_not.mp known
  next => exact invariant

theorem mem_disagreements (row : HeldRow) :
    row ∈ disagreements world generation <-> ∃ message ∈ world.remote.messages,
      (∃ held ∈ world.rows, held.generation = generation ∧ held.uid = message.uid ∧ held.flags ≠ message.flags) ∧
        { generation, uid := message.uid, flags := message.flags } = row := by
  simp only [disagreements, List.mem_map, List.mem_filter, List.any_eq_true, Bool.and_eq_true, decide_eq_true_eq,
    and_assoc]

theorem invariant_sweep (invariant : Invariant listsFlags world) :
    Invariant listsFlags (sweep listsFlags world) := by
  have holds := invariant.stage
  unfold sweep
  split
  next pass stage =>
    rw [stage] at holds
    obtain ⟨deciding, ready⟩ := holds
    refine invariant.toStage listsFlags world _ ?_
    split
    next =>
      refine ⟨deciding, ?_, ?_⟩
      · intro row differs
        obtain ⟨message, -, ⟨held, among, generation, uid, -⟩, rfl⟩ := (mem_disagreements _ _ _).mp differs
        exact ⟨rfl, (mem_uidsIn _ _ _).mpr ⟨held, among, generation, uid⟩⟩
      · intro current modSeq told
        have same : pass.selected.generation = world.remote.generation :=
          Option.some.inj (deciding.generation.symm.trans current)
        constructor
        · intro message there below
          rcases (ready current modSeq told).owed message there below with held | absent | swept
          · exact .inl held
          · cases absent
          · obtain ⟨row, held, generation, uid⟩ := (mem_uidsIn _ _ _).mp swept.2.2
            by_cases agrees : row.flags = message.flags
            · left
              have equal : row = reportedRow world.remote message := by
                cases row
                simp_all [reportedRow]
              exact equal ▸ held
            · refine .inr (.inl ((mem_disagreements _ _ _).mpr ⟨message, there, ⟨row, held, generation, uid, agrees⟩, ?_⟩))
              rw [same]
              rfl
        · intro message there below row differs key
          obtain ⟨other, among, -, rfl⟩ := (mem_disagreements _ _ _).mp differs
          have told_now : ({ generation := pass.selected.generation, uid := other.uid, flags := other.flags } : HeldRow) =
              reportedRow world.remote other := by
            rw [same]
            rfl
          rw [told_now] at key ⊢
          exact reportedRow_unique world.remote message other there among key
    next cannot =>
      refine ⟨deciding, fun current modSeq told => ?_⟩
      exact Ready.weaken _ _ _ _ _ _ (fun _ _ swept => cannot swept.2.1) (ready current modSeq told)
  next => exact invariant

theorem invariant_correct (invariant : Invariant listsFlags world) :
    Invariant listsFlags (correct world count) := by
  have holds := invariant.stage
  unfold correct
  split
  next pass stage =>
    rw [stage] at holds
    exact invariant.toStage listsFlags world _ ⟨holds.1, holds.2.2⟩
  next pass differing _ stage =>
    rw [stage] at holds
    obtain ⟨deciding, answers, ready⟩ := holds
    rw [corrected_written _ _ fun row taken => (answers row (List.mem_of_mem_take taken)).2]
    refine invariant_pass_written listsFlags world pass differing count _ _ invariant deciding
      (fun row named => (answers row named).1) ready ⟨deciding, ?_, ?_⟩
    · intro row left
      obtain ⟨generation, known⟩ := answers row (List.mem_of_mem_drop left)
      exact ⟨generation, uidsIn_written _ _ _ _ known⟩
    · intro current modSeq told
      exact Ready.written _ _ _ _ _ count (ready current modSeq told)
  next => exact invariant

/-! ### What is recorded -/

theorem invariant_record (counted : Bool) (invariant : Invariant listsFlags world) :
    Invariant listsFlags (record world now counted) := by
  have holds := invariant.stage
  unfold record
  split
  next pass swept stage =>
    rw [stage] at holds
    obtain ⟨deciding, ready⟩ := holds
    have moves : world.MovesWithin pass.selected := by
      intro _ _ current modSeq told message there below
      exact (ready current modSeq told).holds _ _ _ message there below
    have observed := invariant.toObserved listsFlags world pass.selected now .idle deciding.report
      (.inr deciding.generation) moves trivial
    cases counted with
    | true =>
      exact
        { coherent :=
            { highest := observed.coherent.highest
              uidNext := observed.coherent.uidNext
              rows := observed.coherent.rows
              read := observed.coherent.read
              enumerated := observed.coherent.enumerated }
          told := observed.told
          present := observed.present
          seen := observed.seen
          fresh := observed.fresh
          stage := trivial }
    | false => exact observed
  next selected stage =>
    rw [stage] at holds
    exact holds.elim
  next => exact invariant

theorem invariant_reconcile (unsettled : Bool) (invariant : Invariant listsFlags world) :
    Invariant listsFlags (reconcile world unsettled) := by
  unfold reconcile
  split
  next pass stage =>
    split
    next => exact invariant.toStage listsFlags world .idle trivial
    next generation known =>
      refine invariant.toStage listsFlags world _ ?_
      split
      next => exact fun first => nomatch first
      next =>
        split
        next => exact rfl
        next => trivial
  next => exact invariant

theorem invariant_wipe (invariant : Invariant listsFlags world) :
    Invariant listsFlags (wipe world) := by
  have holds := invariant.stage
  unfold wipe
  split
  next stale selected stage =>
    rw [stage] at holds
    obtain ⟨generation, other, report⟩ := holds
    have empty : wipeMailbox world.rows stale = [] := by
      apply List.filter_eq_nil_iff.mpr
      intro row there kept
      have under := invariant.coherent.rows row there
      have same : stale = row.generation := Option.some.inj (generation.symm.trans under)
      simp [same] at kept
    rw [empty]
    refine invariant.toRows listsFlags world [] _ (fun _ absent => absurd absent List.not_mem_nil) ?_ ⟨report, .inl rfl⟩
    intro _ current
    exact absurd (Option.some.inj (generation.symm.trans current)) other
  next => exact invariant

theorem invariant_observe (steady : Steady world (.observe now))
    (invariant : Invariant listsFlags world) : Invariant listsFlags (observe world now) := by
  have holds := invariant.stage
  unfold observe
  split
  next selected coverage stage =>
    rw [stage] at holds
    obtain ⟨report, rows⟩ := holds
    simp only [Steady, stage] at steady
    exact invariant.toObserved listsFlags world selected now _ report rows steady rfl
  next => exact invariant

/-! ### The enumeration -/

theorem invariant_fetch (steady : Steady world .fetch) (invariant : Invariant listsFlags world) :
    Invariant listsFlags (fetch world) := by
  have holds := invariant.stage
  unfold fetch
  split
  next generation remaining inHand whole recordAfter stage =>
    rw [stage] at holds
    obtain ⟨none_after, complete, stored, answers, ready⟩ := holds
    have under : world.remote.generation = generation := steady generation (by rw [stage]; rfl)
    refine invariant.toStage listsFlags world _ ⟨none_after, ?_, stored, ?_, ?_⟩
    · simp [complete, under]
    · intro row told
      rcases List.mem_append.mp told with before | more
      · exact answers row before
      · exact (answered_generation _ _ row more).trans under
    · intro current modSeq recorded
      refine Ready.answer _ _ _ _ _ _ _ ?_ (ready current modSeq recorded)
      intro message there below asked
      rw [← List.take_append_drop batchSize remaining] at asked
      rcases List.mem_append.mp asked with now | later
      · exact .inl (List.contains_iff_mem.mpr now)
      · exact .inr later
  next => exact invariant

theorem invariant_commit (invariant : Invariant listsFlags world) :
    Invariant listsFlags (commit world count) := by
  have holds := invariant.stage
  unfold commit
  split
  next generation remaining inHand whole recordAfter stage =>
    rw [stage] at holds
    obtain ⟨none_after, complete, stored, answers, ready⟩ := holds
    refine invariant.toRows listsFlags world _ _ (rows_written listsFlags world inHand count generation invariant stored answers)
      ?_ ⟨none_after, complete, stored, fun row left => answers row (List.mem_of_mem_drop left), ?_⟩
    · intro synced current modSeq recorded
      exact read_written listsFlags world inHand count modSeq _ invariant synced current modSeq recorded (Nat.le_refl _)
        (ready current modSeq recorded)
    · intro current modSeq recorded
      exact Ready.written _ _ _ _ _ count (ready current modSeq recorded)
  next => exact invariant

theorem invariant_complete (invariant : Invariant listsFlags world) :
    Invariant listsFlags (complete world now) := by
  have holds := invariant.stage
  unfold complete
  split
  next generation whole recordAfter stage =>
    rw [stage] at holds
    obtain ⟨none_after, complete, stored, -, ready⟩ := holds
    subst none_after complete
    refine
      { coherent :=
          { highest := invariant.coherent.highest
            uidNext := invariant.coherent.uidNext
            rows := invariant.coherent.rows
            read := ?_
            enumerated := fun _ => ⟨generation, List.mem_cons_self, stored⟩ }
        told := invariant.told
        present := invariant.present
        seen := invariant.seen
        fresh := ?_
        stage := trivial }
    · intro _ current modSeq recorded message there below
      rcases (ready current modSeq recorded).owed message there below with held | absent | asked
      · exact held
      · cases absent
      · cases asked
    · intro none_yet
      exact absurd (stored.symm.trans none_yet) nofun
  next => exact invariant

/-! ### Runs -/

theorem invariant_next (event : ResyncEvent) (invariant : Invariant listsFlags world)
    (steady : Steady world event) : Invariant listsFlags (next policy feed listsFlags world event) := by
  cases event with
  | remote event => exact invariant_moved listsFlags world event invariant
  | start =>
    simp only [next]
    split
    next => exact invariant.toStage listsFlags world _ rfl
    next => exact invariant
  | select now => exact invariant_select policy feed listsFlags world now steady invariant
  | refuse => exact invariant_refuse listsFlags world invariant
  | cut => exact invariant.toStage listsFlags world .idle trivial
  | pull hidden => exact invariant_pull listsFlags world hidden steady invariant
  | witness => exact invariant_witness listsFlags world steady invariant
  | write count => exact invariant_write listsFlags world count invariant
  | list answered => exact invariant_list listsFlags world answered steady invariant
  | sweep => exact invariant_sweep listsFlags world invariant
  | correct count => exact invariant_correct listsFlags world count invariant
  | record now counted => exact invariant_record listsFlags world now counted invariant
  | reconcile unsettled => exact invariant_reconcile listsFlags world unsettled invariant
  | wipe => exact invariant_wipe listsFlags world invariant
  | observe now => exact invariant_observe listsFlags world now steady invariant
  | fetch => exact invariant_fetch listsFlags world steady invariant
  | commit count => exact invariant_commit listsFlags world count invariant
  | complete now => exact invariant_complete listsFlags world now invariant

/-- A run whose passes are not overtaken, and record nothing over a synced mailbox ahead of reading it, leaves the
stored state coherent at every cut. -/
theorem resync_coherent (events : List ResyncEvent)
    (steady : Run.Along (next policy feed listsFlags) Steady (initial remote) events) :
    Coherent (Run.run (next policy feed listsFlags) (initial remote) events) ∧
      Run.Along (next policy feed listsFlags)
        (fun world event => Coherent (next policy feed listsFlags world event)) (initial remote) events := by
  have initially := invariant_initial listsFlags remote
  have preserved (world : ResyncWorld) (event : ResyncEvent) (invariant : Invariant listsFlags world)
      (here : Steady world event) : Invariant listsFlags (next policy feed listsFlags world event) :=
    invariant_next policy feed listsFlags world event invariant here
  constructor
  · exact (Run.run_invariant _ (Invariant listsFlags) Steady preserved _ events initially steady).coherent
  · refine Run.along_invariant _ (Invariant listsFlags) Steady _ preserved ?_ _ events initially steady
    intro world event invariant here
    exact (preserved world event invariant here).coherent

def nothingYet : RemoteMailbox where
  generation := ⟨7⟩
  messages := []
  uidNext := 1
  highest := 1
  condstore := true
  first := by decide
  numbered := by decide
  counted := by decide
  distinct := by decide

def arrivalPulled : List ResyncEvent :=
  [.start, .select 0, .observe 0, .select 0, .complete 0, .remote (.arrive ∅), .start, .select 1, .pull [], .write 1,
    .write 0, .record 1 true, .reconcile false]

theorem arrivalPulled_coherent :
    Coherent (Run.run (next ⟨2000, 20⟩ .reliable true) (initial nothingYet) arrivalPulled) ∧
      Run.Along (next ⟨2000, 20⟩ .reliable true)
        (fun world event => Coherent (next ⟨2000, 20⟩ .reliable true world event)) (initial nothingYet) arrivalPulled := by
  refine resync_coherent ⟨2000, 20⟩ .reliable true nothingYet arrivalPulled ?_
  have unsynced : (SyncState.neverSynced.observe nothingYet.status 0).hasSynced = false := by decide
  refine ⟨trivial, trivial, ?_, ⟨.inl rfl, ?_⟩, trivial, trivial, trivial, trivial, ?_, trivial, trivial, trivial, trivial,
    trivial⟩
  · exact fun synced => nomatch synced
  · exact fun synced => nomatch synced.symm.trans unsynced
  · intro generation asked
    exact Option.some.inj asked

/-- One unread message, under a sequence of three. -/
def oneUnread : RemoteMailbox where
  generation := ⟨7⟩
  messages := [{ uid := 1, flags := ∅, modSeq := 3 }]
  uidNext := 2
  highest := 3
  condstore := true
  first := by decide
  numbered := by decide
  counted := by decide
  distinct := by decide

def firstSync : List ResyncEvent :=
  [.start, .select 0, .observe 0, .select 0, .list true, .fetch, .commit 1, .complete 0]

def rebuildCut : List ResyncEvent :=
  firstSync ++ [.remote (.change 1 {.seen}), .start, .select 1, .refuse, .select 1, .observe 1, .cut]

theorem cut_rebuild_moves_past :
    ¬ Coherent (Run.run (next ⟨2000, 20⟩ .reliable true) (initial oneUnread) rebuildCut) := by
  intro coherent
  have held := coherent.read (by decide) (by unfold Current; decide) 4 (by decide) ⟨1, {.seen}, 4⟩ (by decide) (by decide)
  exact absurd held (by unfold Holds; decide)

end ResyncWorld

end Postio

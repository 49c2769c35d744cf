import Postio.Model.Operation
import Postio.Model.SyncState
import Mathlib.Data.List.Sort
import Postio.Lib.Run
import Postio.Sync.Vanished

set_option autoImplicit false

namespace Postio

structure RemoteMessage where
  uid : Uid
  flags : FlagSet
  modSeq : ModSeq
  deriving DecidableEq

/-- A mailbox as its server holds it, within one generation. -/
structure RemoteMailbox where
  generation : Generation
  messages : List RemoteMessage
  uidNext : Uid
  highest : ModSeq
  condstore : Bool
  first : 0 < uidNext
  numbered : ∀ message ∈ messages, 0 < message.uid ∧ message.uid < uidNext
  counted : ∀ message ∈ messages, message.modSeq ≤ highest
  distinct : (messages.map (fun message => message.uid)).Nodup

/-- What happens on the server, whoever does it. -/
inductive RemoteEvent where
  | arrive (flags : FlagSet)
  | change (uid : Uid) (flags : FlagSet)
  | expunge (uid : Uid) (raises : Bool)
  | condstore (on : Bool)
  | renumber (mailbox : RemoteMailbox)

namespace RemoteMailbox

variable (mailbox : RemoteMailbox) (uid : Uid) (flags : FlagSet) (modSeq : ModSeq)

def arrive : RemoteMailbox where
  generation := mailbox.generation
  messages := { uid := mailbox.uidNext, flags, modSeq := mailbox.highest + 1 } :: mailbox.messages
  uidNext := mailbox.uidNext + 1
  highest := mailbox.highest + 1
  condstore := mailbox.condstore
  first := Nat.succ_pos _
  numbered := by
    refine List.forall_mem_cons.mpr ⟨⟨mailbox.first, Nat.lt_succ_self _⟩, fun message held => ?_⟩
    obtain ⟨positive, below⟩ := mailbox.numbered message held
    exact ⟨positive, Nat.lt_succ_of_lt below⟩
  counted := by
    refine List.forall_mem_cons.mpr ⟨Nat.le_refl _, fun message held => ?_⟩
    exact Nat.le_succ_of_le (mailbox.counted message held)
  distinct := by
    refine List.nodup_cons.mpr ⟨?_, mailbox.distinct⟩
    intro held
    obtain ⟨message, there, same⟩ := List.mem_map.mp held
    have below := (mailbox.numbered message there).2
    rw [same] at below
    exact absurd below (Nat.lt_irrefl _)

def changed (message : RemoteMessage) : RemoteMessage :=
  if message.uid = uid then { message with flags, modSeq } else message

theorem changed_uid (message : RemoteMessage) : (changed uid flags modSeq message).uid = message.uid:= by
  unfold changed
  split <;> rfl

def change : RemoteMailbox where
  generation := mailbox.generation
  messages := mailbox.messages.map (changed uid flags (mailbox.highest + 1))
  uidNext := mailbox.uidNext
  highest := mailbox.highest + 1
  condstore := mailbox.condstore
  first := mailbox.first
  numbered := by
    intro message held
    obtain ⟨before, there, rfl⟩ := List.mem_map.mp held
    rw [changed_uid]
    exact mailbox.numbered before there
  counted := by
    intro message held
    obtain ⟨before, there, rfl⟩ := List.mem_map.mp held
    unfold changed
    split
    next => exact Nat.le_refl _
    next => exact Nat.le_succ_of_le (mailbox.counted before there)
  distinct := by
    rw [List.map_map]
    have same : (fun message : RemoteMessage => message.uid) ∘ changed uid flags (mailbox.highest + 1) =
        fun message => message.uid := funext (fun message => changed_uid uid flags _ message)
    rw [same]
    exact mailbox.distinct

/-- Some servers raise the sequence for a removal, and some do not. -/
def expunge (raises : Bool) : RemoteMailbox where
  generation := mailbox.generation
  messages := mailbox.messages.filter (fun message => message.uid ≠ uid)
  uidNext := mailbox.uidNext
  highest := if raises then mailbox.highest + 1 else mailbox.highest
  condstore := mailbox.condstore
  first := mailbox.first
  numbered := fun message held => mailbox.numbered message (List.mem_of_mem_filter held)
  counted := by
    intro message held
    have below := mailbox.counted message (List.mem_of_mem_filter held)
    split
    next => exact Nat.le_succ_of_le below
    next => exact below
  distinct := mailbox.distinct.sublist (List.filter_sublist.map _)

def setCondstore (on : Bool) : RemoteMailbox := { mailbox with condstore := on }

/-- `past` holds the generations there have been. A mailbox is renumbered under none of them. -/
def next (past : List Generation) : RemoteEvent -> RemoteMailbox
  | .arrive flags => mailbox.arrive flags
  | .change uid flags => mailbox.change uid flags
  | .expunge uid raises => mailbox.expunge uid raises
  | .condstore on => mailbox.setCondstore on
  | .renumber renumbered => if renumbered.generation ∈ past then mailbox else renumbered

def status : ServerStatus where
  generation := mailbox.generation
  uidNext := mailbox.uidNext
  existing := mailbox.messages.length
  highestModSeq := if mailbox.condstore then some mailbox.highest else none

theorem next_cases (past : List Generation) (event : RemoteEvent) : (mailbox.next past event).generation ∉ past ∨
      (mailbox.next past event).generation = mailbox.generation ∧ mailbox.highest ≤ (mailbox.next past event).highest ∧
        ∀ message ∈ (mailbox.next past event).messages, message.modSeq ≤ mailbox.highest -> message ∈ mailbox.messages := by
  -- A message that an event leaves at or below the sequence reached before is as it was.
  cases event with
  | arrive flags =>
    refine .inr ⟨rfl, Nat.le_succ _, ?_⟩
    intro message held below
    rcases List.mem_cons.mp held with rfl | before
    · exact absurd below (Nat.not_succ_le_self _)
    · exact before
  | change uid flags =>
    refine .inr ⟨rfl, Nat.le_succ _, ?_⟩
    intro message held below
    obtain ⟨before, there, rfl⟩ := List.mem_map.mp held
    unfold changed at below ⊢
    split at below
    next => exact absurd below (Nat.not_succ_le_self _)
    next other => rwa [if_neg other]
  | expunge uid raises =>
    refine .inr ⟨rfl, ?_, fun message held _ => List.mem_of_mem_filter held⟩
    cases raises with
    | true => exact Nat.le_succ _
    | false => exact Nat.le_refl _
  | condstore on => exact .inr ⟨rfl, Nat.le_refl _, fun _ held _ => held⟩
  | renumber renumbered =>
    by_cases had : renumbered.generation ∈ past
    · refine .inr ?_
      simp only [next, if_pos had]
      exact ⟨trivial, Nat.le_refl _, fun _ held _ => held⟩
    · refine .inl ?_
      simp only [next, if_neg had]
      exact had

theorem status_bound (told : mailbox.status.highestModSeq = some modSeq) :
    modSeq = mailbox.highest := by
  simp only [status, Option.ite_none_right_eq_some, Option.some.injEq] at told
  exact told.2.symm

end RemoteMailbox

/-- A message as the store holds it, or as a fetch reports it: under the generation it was reported in. -/
structure HeldRow where
  generation : Generation
  uid : Uid
  flags : FlagSet
  deriving DecidableEq

inductive Coverage where
  | missing
  | everything
  deriving DecidableEq

/-- What a pass over a synced mailbox was decided from. -/
structure ResyncPass where
  previous : SyncState
  selected : ServerStatus
  flagPass : FlagPass
  deriving DecidableEq

/-- Where a pass stands: what it asks the backend next, or is to write next. -/
inductive PassStage where
  | idle
  | selecting (previous : SyncState)
  | pulling (pass : ResyncPass) (since : ModSeq)
  | witnessing (pass : ResyncPass) (known : List Uid) (pulled : List HeldRow) (floor : Uid)
  | writing (pass : ResyncPass) (known : List Uid) (newlyArrived : Nat) (pulled : List HeldRow)
  | reconciling (pass : ResyncPass) (known : List Uid) (expectedGone : Nat) (recorded : Bool)
  | sweeping (pass : ResyncPass)
  | correcting (pass : ResyncPass) (differing : List HeldRow)
  | recording (pass : ResyncPass) (swept : Bool)
  | recorded (pass : ResyncPass)
  | rebuilding (known : Option Generation)
  | wiping (stale : Generation) (selected : ServerStatus)
  | observing (selected : ServerStatus) (coverage : Coverage)
  | enumerating (coverage : Coverage) (recordAfter : Option ServerStatus)
  | listing (coverage : Coverage) (selected : ServerStatus) (recordAfter : Option ServerStatus)
  | filling (generation : Generation) (remaining : List Uid) (inHand : List HeldRow) (whole : Bool)
      (recordAfter : Option ServerStatus)
  | recordingAfter (selected : ServerStatus)

/-- One mailbox, its server, and the pass over it. The program reads none of the last three: the generations there
have been, the `SELECT`s answered, and the generations of the enumerations that completed with every answer in them. -/
structure ResyncWorld where
  remote : RemoteMailbox
  sync : SyncState
  rows : List HeldRow
  stage : PassStage
  past : List Generation
  reports : List ServerStatus
  enumerated : List Generation

inductive ResyncEvent where
  | remote (event : RemoteEvent)
  | start
  | select (now : Instant)
  | refuse
  | cut
  | pull (hidden : List Uid)
  | witness
  | write (count : Nat)
  | list (answered : Bool)
  | sweep
  | correct (count : Nat)
  | record (now : Instant) (counted : Bool)
  | reconcile (unsettled : Bool)
  | wipe
  | observe (now : Instant)
  | fetch
  | commit (count : Nat)
  | complete (now : Instant)

namespace ResyncWorld

variable (policy : SweepPolicy) (feed : ChangeFeed) (listsFlags : Bool)

variable (world : ResyncWorld) (remote : RemoteMailbox) (rows : List HeldRow) (generation : Generation) (count : Nat)
    (now : Instant)

def initial : ResyncWorld where
  remote
  sync := SyncState.neverSynced
  rows := []
  stage := .idle
  past := [remote.generation]
  reports := []
  enumerated := []

def batchSize : Nat := 200

def uidsIn : List Uid :=
  (rows.filter (fun row => row.generation = generation)).map (fun row => row.uid)

def upsert (row : HeldRow) : List HeldRow :=
  if rows.any (fun other => other.generation = row.generation && other.uid = row.uid) then
    rows.map (fun other => if other.generation = row.generation ∧ other.uid = row.uid then row else other)
  else row :: rows

def applyServerFlags (row : HeldRow) : List HeldRow :=
  rows.map (fun other => if other.generation = row.generation ∧ other.uid = row.uid then row else other)

def reportedRow (message : RemoteMessage) : HeldRow where
  generation := remote.generation
  uid := message.uid
  flags := message.flags

def answered (asked : RemoteMessage -> Bool) : List HeldRow :=
  (remote.messages.filter asked).map (reportedRow remote)

def changedSince (since : ModSeq) (excused : List Uid) : List HeldRow :=
  answered remote (fun message => since < message.modSeq && !excused.contains message.uid)

def wipeMailbox : List HeldRow :=
  rows.filter (fun row => row.generation ≠ generation)

def sweeps (pass : ResyncPass) : Bool := pass.flagPass = .sweep && listsFlags

def afterPull (pass : ResyncPass) : PassStage :=
  if pass.flagPass = .sweep then .sweeping pass else .recording pass false

def planned (previous : SyncState) (selected : ServerStatus) : PassStage :=
  let pass : ResyncPass :=
    { previous, selected, flagPass := policy.decide selected.existing previous.passesSinceFlagSweep feed }
  match previous.plan selected with
  | .full .generationChanged =>
    match previous.generation with
    | some stale => .wiping stale selected
    | none => .observing selected .missing
  | .full .neverSynced | .full .shortOfExists => .observing selected .missing
  | .full .noModSeq => .observing selected .everything
  -- The one reason for which the report is recorded after the enumeration.
  | .full .modSeqWentBackwards => .enumerating .everything (some selected)
  | .incremental since => .pulling pass since
  | .upToDate => afterPull pass

def rebuilt (known : Option Generation) (selected : ServerStatus) : PassStage :=
  match known with
  | some stale => if stale ≠ selected.generation then .wiping stale selected else .observing selected .everything
  | none => .observing selected .everything

def report : ResyncWorld := { world with reports := world.remote.status :: world.reports }

def enumerate (coverage : Coverage) (recordAfter : Option ServerStatus) (now : Instant) :
    ResyncWorld :=
  -- An enumeration records its own `SELECT` before it reads anything.
  let selected := world.remote.status
  { world.report with
    sync := world.sync.observe selected now
    stage :=
      if selected.uidNext - 1 < 1 then .filling selected.generation [] [] true recordAfter
      else .listing coverage selected recordAfter }

def select : ResyncWorld :=
  match world.stage with
  | .selecting previous => { world.report with stage := planned policy feed previous world.remote.status }
  | .rebuilding known => { world.report with stage := rebuilt known world.remote.status }
  | .enumerating coverage recordAfter => enumerate world coverage recordAfter now
  | _ => world

def refuse : ResyncWorld :=
  -- The backend will not stand behind its answer: the mailbox was renumbered, or a line of the answer was lost.
  match world.stage with
  | .selecting previous => { world with stage := .rebuilding previous.generation }
  | .pulling pass _ | .witnessing pass _ _ _ | .sweeping pass | .reconciling pass _ _ false =>
    { world with stage := .rebuilding pass.previous.generation }
  | _ => { world with stage := .idle }

def pull (hidden : List Uid) : ResyncWorld :=
  match world.stage with
  | .pulling pass since =>
    let known := uidsIn world.rows pass.selected.generation
    let excused := if sweeps listsFlags pass then hidden.filter (fun uid => known.contains uid) else []
    let changed := changedSince world.remote since excused
    let reported := changed.map (fun row => FetchedMessage.mk row.generation row.uid)
    { world with
      stage :=
        match MailboxRows.unaccountedArrivals reported pass.selected.uidNext pass.previous.uidNext with
        | some floor => .witnessing pass known changed floor
        | none => .writing pass known (changed.filter (fun row => !known.contains row.uid)).length changed }
  | _ => world

def witness : ResyncWorld :=
  match world.stage with
  | .witnessing pass known pulled floor =>
    let changed := pulled ++ answered world.remote (fun message => floor ≤ message.uid)
    { world with
      stage := .writing pass known (changed.filter (fun row => !known.contains row.uid)).length changed }
  | _ => world

def write : ResyncWorld :=
  -- The rows are written a unit at a time. Then the counts are compared.
  match world.stage with
  | .writing pass known newlyArrived [] =>
    let expected := known.length + newlyArrived
    { world with
      stage :=
        if known ≠ [] ∧ pass.selected.existing ≠ expected then
          .reconciling pass known (expected - pass.selected.existing) false
        else afterPull pass }
  | .writing pass known newlyArrived pulled =>
    { world with
      rows := (pulled.take count).foldl upsert world.rows
      stage := .writing pass known newlyArrived (pulled.drop count) }
  | _ => world

def vanished (known : List Uid) : List Uid :=
  known.filter (fun uid => !(remote.messages.map (fun message => message.uid)).contains uid)

def reconcileVanished (known : List Uid) (expectedGone : Nat) :
    List HeldRow :=
  -- The rows left by the presence check, which is believed where it accounts for what the count says is gone.
  let gone := vanished world.remote known
  if gone.length ≠ expectedGone then world.rows
  else world.rows.filter (fun row => !(row.generation = generation && gone.contains row.uid))

def missingUids (coverage : Coverage) (selected : ServerStatus) (answered : Bool) : List Uid :=
  let known := uidsIn world.rows selected.generation
  let ceiling := selected.uidNext - 1
  let listed := world.remote.messages.map (fun message => message.uid)
  -- A listing shorter than `EXISTS` is not believed.
  let present :=
    if answered && selected.existing ≤ listed.length then listed.filter (fun uid => uid ≤ ceiling)
    else List.range' 1 ceiling
  (present.filter (fun uid => coverage = .everything || !known.contains uid)).insertionSort (fun first second => second ≤ first)

def list (answered : Bool) : ResyncWorld :=
  match world.stage with
  | .reconciling pass known expectedGone recorded =>
    { world with
      rows := reconcileVanished world pass.selected.generation known expectedGone
      stage := if recorded then .idle else afterPull pass }
  | .listing coverage selected recordAfter =>
    { world with
      stage := .filling selected.generation (missingUids world coverage selected answered) [] true recordAfter }
  | _ => world

def disagreements : List HeldRow :=
  -- What the server lists of the flags of rows that are stored otherwise.
  (world.remote.messages.filter (fun message => world.rows.any (fun row =>
    row.generation = generation && row.uid = message.uid && row.flags ≠ message.flags))).map (fun message =>
      { generation, uid := message.uid, flags := message.flags })

def sweep : ResyncWorld :=
  match world.stage with
  | .sweeping pass =>
    { world with
      stage :=
        if listsFlags then .correcting pass (disagreements world pass.selected.generation) else .recording pass false }
  | _ => world

def correct : ResyncWorld :=
  match world.stage with
  | .correcting pass [] => { world with stage := .recording pass true }
  | .correcting pass differing =>
    { world with
      rows := (differing.take count).foldl applyServerFlags world.rows
      stage := .correcting pass (differing.drop count) }
  | _ => world

def record (counted : Bool) : ResyncWorld :=
  -- `HIGHESTMODSEQ` is recorded once what it counts has been read. The number of passes is a write of its own.
  match world.stage with
  | .recording pass swept =>
    let observed := world.sync.observe pass.selected now
    if counted then { world with sync := observed.recordFlagPass swept, stage := .recorded pass }
    else { world with sync := observed, stage := .idle }
  | .recordingAfter selected => { world with sync := world.sync.observe selected now, stage := .idle }
  | _ => world

def reconcile (unsettled : Bool) : ResyncWorld :=
  -- After a pass that was recorded: more rows than the server has are reconciled, where it was called unchanged; fewer
  -- send the pass back to enumerate.
  match world.stage with
  | .recorded pass =>
    match pass.previous.generation with
    | none => { world with stage := .idle }
    | some generation =>
      let known := uidsIn world.rows generation
      let unchanged := pass.previous.plan pass.selected = .upToDate
      { world with
        stage :=
          if unchanged ∧ known.length > pass.selected.existing then
            .reconciling pass known (known.length - pass.selected.existing) true
          else if known.length < pass.selected.existing ∧ unsettled = false then .enumerating .missing none
          else .idle }
  | _ => world

def wipe : ResyncWorld :=
  match world.stage with
  | .wiping stale selected => { world with rows := wipeMailbox world.rows stale, stage := .observing selected .missing }
  | _ => world

def observe (world : ResyncWorld) (now : Instant) : ResyncWorld :=
  match world.stage with
  | .observing selected coverage =>
    { world with sync := world.sync.observe selected now, stage := .enumerating coverage none }
  | _ => world

def fetch : ResyncWorld :=
  -- A batch is asked for while the one before it is still being written.
  match world.stage with
  | .filling generation remaining inHand whole recordAfter =>
    let batch := remaining.take batchSize
    let answer := answered world.remote (fun message => batch.contains message.uid)
    { world with
      stage :=
        .filling generation (remaining.drop batchSize) (inHand ++ answer) (whole && world.remote.generation = generation)
          recordAfter }
  | _ => world

def commit : ResyncWorld :=
  match world.stage with
  | .filling generation remaining inHand whole recordAfter =>
    { world with
      rows := (inHand.take count).foldl upsert world.rows
      stage := .filling generation remaining (inHand.drop count) whole recordAfter }
  | _ => world

def complete : ResyncWorld :=
  match world.stage with
  | .filling generation [] [] whole recordAfter =>
    { world with
      sync := world.sync.completeFullSync now
      enumerated := if whole then generation :: world.enumerated else world.enumerated
      stage :=
        match recordAfter with
        | some selected => .recordingAfter selected
        | none => .idle }
  | _ => world

def next (world : ResyncWorld) : ResyncEvent -> ResyncWorld
  | .remote event =>
    let remote := world.remote.next world.past event
    { world with remote, past := remote.generation :: world.past }
  | .start =>
    match world.stage with
    | .idle => { world with stage := .selecting world.sync }
    | _ => world
  | .select now => select policy feed world now
  | .refuse => refuse world
  | .cut => { world with stage := .idle }
  | .pull hidden => pull listsFlags world hidden
  | .witness => witness world
  | .write count => write world count
  | .list answered => list world answered
  | .sweep => sweep listsFlags world
  | .correct count => correct world count
  | .record now counted => record world now counted
  | .reconcile unsettled => reconcile world unsettled
  | .wipe => wipe world
  | .observe now => observe world now
  | .fetch => fetch world
  | .commit count => commit world count
  | .complete now => complete world now

/-! ### What is asked of a run -/

def Holds (message : RemoteMessage) : Prop := reportedRow world.remote message ∈ world.rows

def Current : Prop := world.sync.generation = some world.remote.generation

/-- The stored state of a mailbox is coherent with its rows and with what its server said. -/
structure Coherent (world : ResyncWorld) : Prop where
  -- Each counter was reported under the generation that is stored.
  highest : ∀ modSeq, world.sync.highestModSeq = some modSeq -> ∃ report ∈ world.reports,
    world.sync.generation = some report.generation ∧ report.highestModSeq = some modSeq
  uidNext : ∀ uid, world.sync.uidNext = some uid -> ∃ report ∈ world.reports,
    world.sync.generation = some report.generation ∧ report.uidNext = uid
  rows : ∀ row ∈ world.rows, world.sync.generation = some row.generation
  read : world.sync.hasSynced = true -> world.Current -> ∀ modSeq, world.sync.highestModSeq = some modSeq ->
    ∀ message ∈ world.remote.messages, message.modSeq ≤ modSeq -> world.Holds message
  enumerated : world.sync.hasSynced = true -> ∃ generation ∈ world.enumerated, world.sync.generation = some generation

def MovesWithin (selected : ServerStatus) : Prop :=
  -- What the mailbox has synced up to in this generation does not move past a change that is not held.
  world.sync.hasSynced = true -> world.sync.generation = some selected.generation -> world.Current ->
    ∀ modSeq, selected.highestModSeq = some modSeq ->
      ∀ message ∈ world.remote.messages, message.modSeq ≤ modSeq -> world.Holds message

def answersUnder : PassStage -> Option Generation
  | .pulling pass _ | .witnessing pass _ _ _ => some pass.selected.generation
  | .filling generation _ _ _ _ => some generation
  | _ => none

def Steady : ResyncEvent -> Prop
  | .select _ =>
    match world.stage with
    | .enumerating _ _ =>
      (world.rows = [] ∨ world.Current) ∧ world.MovesWithin world.remote.status
    | _ => True
  | .observe _ =>
    match world.stage with
    | .observing selected _ => world.MovesWithin selected
    | _ => True
  | .list _ =>
    match world.stage with
    | .listing .missing _ _ =>
      world.sync.hasSynced = false -> world.Current -> ∀ modSeq, world.sync.highestModSeq = some modSeq ->
        ∀ message ∈ world.remote.messages, message.modSeq ≤ modSeq ->
          message.uid ∈ uidsIn world.rows world.remote.generation -> world.Holds message
    | _ => True
  | .pull _ | .witness | .fetch =>
    ∀ generation, answersUnder world.stage = some generation -> world.remote.generation = generation
  | _ => True

end ResyncWorld

end Postio

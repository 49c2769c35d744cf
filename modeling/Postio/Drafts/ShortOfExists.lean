import Postio.Drafts.Rows
import Mathlib.Data.Nat.Pairing

set_option autoImplicit false

namespace Postio.Drafts

open Pull

/-- The messages a server holds in a mailbox, by UID and by name. -/
structure Listing where
  messages : List (Uid × RemoteId)
  uids : (messages.map Prod.fst).Nodup
  names : (messages.map Prod.snd).Nodup

namespace Desk

variable (desk : Desk) (mailbox : MailboxId) (generation : Generation) (listing : Listing)

def counted (row : Mail) : Bool :=
  row.mailboxId = mailbox && row.server.uidValidity = some generation && row.server.uid.isSome

def countIn : Nat :=
  (desk.messages.rows.filter (counted mailbox generation)).length

def uidsIn : List Uid :=
  (desk.messages.rows.filter (counted mailbox generation)).filterMap (fun row => row.server.uid)

def refusedRowsIn : Nat :=
  ((desk.drafts.rows.filter (fun draft => draft.remoteId.isSome)).flatMap (fun draft =>
    desk.mailboxes.filter (fun row => row.accountId = draft.accountId && row.role = .drafts && row.id = mailbox))).length

def hasUnsettledIn : Bool :=
  desk.queue.rows.any (fun queued =>
    queued.mailboxId = some mailbox &&
      (queued.state = .pending || queued.state = .inFlight || queued.state = .failed))

def stillShortOfExists (generation : Option Generation) (existing : Nat) : Bool :=
  match generation with
  | none => false
  | some generation =>
    if existing ≤ desk.countIn mailbox generation + desk.refusedRowsIn mailbox then false
    else if desk.hasUnsettledIn mailbox then false
    else true

/-! ### What the store holds of a listing, and what it refuses -/

def holds (uid : Uid) : Bool :=
  desk.messages.rows.any (fun row =>
    row.mailboxId = mailbox && row.server.uidValidity = some generation && row.server.uid = some uid)

/-- `upsert_batch` does not write a message of this name. -/
def refuses (remoteId : RemoteId) : Bool :=
  desk.store.ownDraftCopies.contains (mailbox, remoteId) || desk.store.shadowed.contains (mailbox, remoteId)

def missing : List (Uid × RemoteId) :=
  listing.messages.filter (fun message =>
    !desk.holds mailbox generation message.1 && !desk.refuses mailbox message.2)

def twice : List (Uid × RemoteId) :=
  listing.messages.filter (fun message => desk.holds mailbox generation message.1 && desk.refuses mailbox message.2)

def goneUids : List Uid :=
  (desk.uidsIn mailbox generation).filter (fun uid => !(listing.messages.map Prod.fst).contains uid)

def spareCopies : Nat :=
  desk.refusedRowsIn mailbox - (listing.messages.filter (fun message => desk.refuses mailbox message.2)).length

def Idle : Prop := ∀ queued ∈ desk.queue.rows, queued.state = .done

def ShortExact : Prop :=
  (desk.stillShortOfExists mailbox (some generation) listing.messages.length = true <->
    desk.missing mailbox generation listing ≠ []) ∧ desk.twice mailbox generation listing = []

def Balanced : Prop :=
  -- No message is a row and refused too; and nothing is missing, or more than there are rows and recorded copies that
  -- stand for nothing the server holds.
  desk.twice mailbox generation listing = [] ∧
    (desk.missing mailbox generation listing = [] ∨
      (desk.goneUids mailbox generation listing).length + desk.spareCopies mailbox listing <
        (desk.missing mailbox generation listing).length)

/-! ### The counts -/

theorem idle_unsettled (idle : Idle desk) (mailbox : MailboxId) : desk.hasUnsettledIn mailbox = false := by
  apply List.any_eq_false.mpr
  intro queued there
  simp [idle queued there]

theorem idle_shadowed (idle : Idle desk) : desk.store.shadowed = [] := by
  apply List.filterMap_eq_nil_iff.mpr
  intro queued there
  have settled : queued.unsettled = false := by simp [QueuedOperation.unsettled, idle queued there, OperationState.isSettled]
  simp [Store.shadow, settled]

def ownNames : List RemoteId :=
  (desk.store.ownDraftCopies.filter (fun copy => copy.1 = mailbox)).map Prod.snd

theorem ownNames_length : (desk.ownNames mailbox).length = desk.refusedRowsIn mailbox:= by
  unfold ownNames refusedRowsIn Store.ownDraftCopies
  rw [List.length_map]
  change ((desk.drafts.rows.map draftOf).flatMap _ |>.filter _).length = _
  generalize desk.drafts.rows = drafts
  induction drafts with
  | nil => rfl
  | cons draft rest ih =>
    rw [List.map_cons, List.flatMap_cons, List.filter_append, List.length_append, ih, List.filter_cons]
    cases named : draft.remoteId with
    | none =>
      have nothing : ∀ mailboxes : List Mailbox, mailboxes.filterMap (fun row =>
          (draftOf draft).remoteId.map (fun remoteId => (row.id, remoteId))) = [] := by
        intro mailboxes
        simp [draftOf, named]
      rw [nothing]
      simp
    | some remoteId =>
      have each : ∀ mailboxes : List Mailbox, mailboxes.filterMap (fun row =>
          (draftOf draft).remoteId.map (fun remoteId => (row.id, remoteId))) =
            mailboxes.map (fun row => (row.id, remoteId)) := by
        intro mailboxes
        simp [draftOf, named]
      rw [each]
      simp only [Option.isSome_some, ↓reduceIte, List.flatMap_cons, List.length_append, Nat.add_right_cancel_iff]
      rw [List.filter_map, List.length_map, List.filter_filter]
      apply congrArg List.length
      apply List.filter_congr
      intro row _
      exact Bool.and_comm _ _

theorem refuses_own (idle : Idle desk) (mailbox : MailboxId) (remoteId : RemoteId) :
    desk.refuses mailbox remoteId = true <-> remoteId ∈ desk.ownNames mailbox := by
  unfold refuses ownNames
  rw [idle_shadowed desk idle]
  simp

theorem refused_within (idle : Idle desk) (mailbox : MailboxId) (listing : Listing) :
    (listing.messages.filter (fun message => desk.refuses mailbox message.2)).length ≤ desk.refusedRowsIn mailbox := by
  rw [← ownNames_length, ← List.length_map (f := Prod.snd)]
  apply List.Subperm.length_le
  apply List.subperm_of_subset
  next => exact listing.names.sublist (List.filter_sublist.map _)
  next =>
    intro name there
    obtain ⟨message, held, rfl⟩ := List.mem_map.mp there
    exact (refuses_own desk idle mailbox message.2).mp (List.mem_filter.mp held).2

theorem uidsIn_length : (desk.uidsIn mailbox generation).length = desk.countIn mailbox generation:= by
  unfold uidsIn countIn
  apply List.filterMap_length_eq_length.mpr
  intro row there
  have placed := (List.mem_filter.mp there).2
  simp only [counted, Bool.and_eq_true] at placed
  exact placed.2

theorem mem_uidsIn (uid : Uid) :
    uid ∈ desk.uidsIn mailbox generation <-> desk.holds mailbox generation uid = true := by
  unfold uidsIn holds
  rw [List.mem_filterMap, List.any_eq_true]
  constructor
  next =>
    rintro ⟨row, there, named⟩
    obtain ⟨member, placed⟩ := List.mem_filter.mp there
    simp only [counted, Bool.and_eq_true, decide_eq_true_eq] at placed
    exact ⟨row, member, by simp [placed.1, named]⟩
  next =>
    rintro ⟨row, member, placed⟩
    simp only [Bool.and_eq_true, decide_eq_true_eq] at placed
    exact ⟨row, List.mem_filter.mpr ⟨member, by simp [counted, placed.1, placed.2]⟩, placed.2⟩

theorem uidsIn_nodup (apart : Apart desk.store) : (desk.uidsIn mailbox generation).Nodup:= by
  -- Among the rows that are counted, each UID stands once.
  have distinct : (desk.messages.rows.filter (counted mailbox generation)).Pairwise (fun first second =>
      first.id ≠ second.id) := by
    apply List.Pairwise.filter
    apply desk.messages.ordered.imp
    intro first second less same
    rw [same] at less
    exact absurd less (Nat.lt_irrefl _)
  apply List.pairwise_filterMap.mpr
  apply List.Pairwise.imp_of_mem _ distinct
  intro first second here there other uid named later same equal
  obtain ⟨member, placed⟩ := List.mem_filter.mp here
  obtain ⟨inside, fits⟩ := List.mem_filter.mp there
  simp only [counted, Bool.and_eq_true, decide_eq_true_eq] at placed fits
  have place : coordinates first = some (mailbox, generation, uid) :=
    (coordinates_eq_some first mailbox generation uid).mpr ⟨placed.1.1, placed.1.2, named⟩
  have again : coordinates second = some (mailbox, generation, uid) :=
    (coordinates_eq_some second mailbox generation uid).mpr ⟨fits.1.1, fits.1.2, by rw [same, equal]⟩
  exact other (apart first.id second.id first second (desk.store.get_of_mem first member)
    (desk.store.get_of_mem second inside) (place.trans again.symm) (by simp [place]))

theorem length_fourfold {Element : Type} (list : List Element) (first second : Element -> Bool) :
    list.length + (list.filter (fun element => first element && second element)).length =
      (list.filter (fun element => !first element && !second element)).length +
        (list.filter first).length + (list.filter second).length := by
  -- A list in four parts, by two tests.
  induction list with
  | nil => rfl
  | cons element rest ih =>
    simp only [List.filter_cons, List.length_cons]
    cases first element with
    | true =>
      cases second element with
      | true =>
        simp only [Bool.and_self, Bool.not_true, ↓reduceIte, List.length_cons, Bool.false_eq_true]
        omega
      | false =>
        simp only [Bool.and_false, Bool.not_true, Bool.not_false, Bool.and_true, ↓reduceIte, List.length_cons,
          Bool.false_eq_true]
        omega
    | false =>
      cases second element with
      | true =>
        simp only [Bool.and_true, Bool.not_true, Bool.not_false, Bool.and_false, ↓reduceIte, List.length_cons,
          Bool.false_eq_true]
        omega
      | false =>
        simp only [Bool.and_self, Bool.not_false, ↓reduceIte, List.length_cons, Bool.false_eq_true]
        omega

theorem countIn_split (apart : Apart desk.store) :
    desk.countIn mailbox generation =
      (listing.messages.filter (fun message => desk.holds mailbox generation message.1)).length +
        (desk.goneUids mailbox generation listing).length := by
  -- The rows are those of messages of the listing, and those of none.
  rw [← uidsIn_length, ← List.length_map (f := Prod.fst)]
  have within : (((listing.messages.filter (fun message => desk.holds mailbox generation message.1)).map Prod.fst)).Perm
      ((desk.uidsIn mailbox generation).filter (fun uid => (listing.messages.map Prod.fst).contains uid)) := by
    apply (List.perm_ext_iff_of_nodup _ _).mpr
    next =>
      intro uid
      simp only [List.mem_map, List.mem_filter, List.contains_iff_mem]
      constructor
      next =>
        rintro ⟨message, ⟨there, held⟩, rfl⟩
        exact ⟨(desk.mem_uidsIn mailbox generation message.1).mpr held, message, there, rfl⟩
      next =>
        rintro ⟨held, message, there, rfl⟩
        exact ⟨message, ⟨there, (desk.mem_uidsIn mailbox generation message.1).mp held⟩, rfl⟩
    next => exact listing.uids.sublist (List.filter_sublist.map _)
    next => exact (desk.uidsIn_nodup mailbox generation apart).filter _
  rw [within.length_eq]
  unfold goneUids
  generalize desk.uidsIn mailbox generation = held
  induction held with
  | nil => rfl
  | cons uid rest ih =>
    simp only [List.filter_cons, List.length_cons]
    cases (listing.messages.map Prod.fst).contains uid with
    | true =>
      simp only [↓reduceIte, Bool.not_true, Bool.false_eq_true, List.length_cons]
      omega
    | false =>
      simp only [↓reduceIte, Bool.not_false, Bool.false_eq_true, List.length_cons]
      omega

theorem short_iff (apart : Apart desk.store) (idle : Idle desk) :
    desk.stillShortOfExists mailbox (some generation) listing.messages.length = true <->
      (desk.goneUids mailbox generation listing).length + desk.spareCopies mailbox listing +
        (desk.twice mailbox generation listing).length < (desk.missing mailbox generation listing).length := by
  -- What the test compares: too much is counted by the rows and copies that stand for nothing, and by what is counted
  -- twice.
  have four := length_fourfold listing.messages (fun message => desk.holds mailbox generation message.1)
    (fun message => desk.refuses mailbox message.2)
  have rows := desk.countIn_split mailbox generation listing apart
  have within := desk.refused_within idle mailbox listing
  unfold stillShortOfExists
  dsimp only
  rw [idle_unsettled desk idle mailbox]
  change listing.messages.length + (desk.twice mailbox generation listing).length =
    (desk.missing mailbox generation listing).length + _ + _ at four
  unfold spareCopies
  split
  next enough =>
    simp only [Bool.false_eq_true, false_iff, Nat.not_lt]
    omega
  next short =>
    simp only [Bool.false_eq_true, ↓reduceIte, true_iff]
    omega

/-- In every state that is reached, the test is exact exactly when the counts balance. -/
theorem short_exact_iff (events : List Event) (mailbox : MailboxId) (generation : Generation) (listing : Listing)
    (idle : Idle (Run.run step empty events)) :
    ShortExact (Run.run step empty events) mailbox generation listing <->
      Balanced (Run.run step empty events) mailbox generation listing := by
  have counts := short_iff _ mailbox generation listing (apart_run events) idle
  generalize Run.run step empty events = desk at counts ⊢
  unfold ShortExact Balanced
  rw [counts, and_comm]
  apply and_congr_right
  intro once
  rw [once, List.length_nil, Nat.add_zero, ← List.length_pos_iff]
  constructor
  next =>
    intro exact
    by_cases nothing : desk.missing mailbox generation listing = []
    next => exact .inl nothing
    next => exact .inr (exact.mpr (List.length_pos_iff.mpr nothing))
  next =>
    intro balanced
    constructor
    next => exact fun short => Nat.lt_of_le_of_lt (Nat.zero_le _) short
    next =>
      intro some
      rcases balanced with nothing | more
      next => exact absurd nothing (List.length_pos_iff.mp some)
      next => exact more

def draftsFolder : Mailbox := { id := ⟨1⟩, accountId := ⟨1⟩, role := .drafts, path := ['D'], selectable := true }

def blank : FetchedMessage :=
  { uid := 0, uidValidity := ⟨0⟩, modSeq := none, remoteId := ⟨0⟩, flags := ∅, internalDate := 0, size := 0
    envelope := none, bodyStructure := none }

def composed : Composed := { accountId := ⟨1⟩, remoteId := none, message := blank.intoMessage ⟨1⟩ ⟨1⟩ }

def uploadedOnce : List Event :=
  [.discover draftsFolder, .save none composed, .setServerCopy ⟨1⟩ (some { remoteId := ⟨5⟩, uid := 5, uidValidity := ⟨7⟩ })]

def besideDraft : Listing := { messages := [(5, ⟨5⟩), (6, ⟨6⟩)], uids := by decide, names := by decide }

/-- Once the draft has been saved again its row no longer names the copy, and the other message is missed. -/
theorem short_exact_saved :
    ShortExact (Run.run step empty (uploadedOnce ++ [.save (some ⟨1⟩) composed])) ⟨1⟩ ⟨7⟩ besideDraft :=
  (short_exact_iff (uploadedOnce ++ [.save (some ⟨1⟩) composed]) ⟨1⟩ ⟨7⟩ besideDraft (by unfold Idle; decide)).mpr
    (by unfold Balanced; decide)

/-- The draft is a row and refused, and hides that the other message is missing. -/
theorem short_double_counted :
    Idle (Run.run step empty uploadedOnce) ∧
      (Run.run step empty uploadedOnce).missing ⟨1⟩ ⟨7⟩ besideDraft = [(6, ⟨6⟩)] ∧
      ¬ ShortExact (Run.run step empty uploadedOnce) ⟨1⟩ ⟨7⟩ besideDraft := by
  refine ⟨by unfold Idle; decide, by decide, ?_⟩
  intro exact
  have told : (Run.run step empty uploadedOnce).stillShortOfExists ⟨1⟩ (some ⟨7⟩) 2 = true := exact.1.mpr (by decide)
  have silent : (Run.run step empty uploadedOnce).stillShortOfExists ⟨1⟩ (some ⟨7⟩) 2 = false := by decide
  cases told.symm.trans silent

end Desk

open Pull

def remoteId (validity : Generation) (uid : Uid) : RemoteId := ⟨Nat.pair validity.get uid⟩

/-- A mailbox as its server holds it: no UID twice. -/
structure Folder where
  generation : Generation
  uidNext : Uid
  highestModSeq : Option ModSeq
  messages : List Pull.FetchedMessage
  named : ∀ message ∈ messages,
    message.uidValidity = generation ∧ message.remoteId = remoteId generation message.uid
  distinct : (messages.map (fun message => message.uid)).Nodup

namespace Folder

variable (folder : Folder)

def select : ServerStatus :=
  { generation := folder.generation, uidNext := folder.uidNext, existing := folder.messages.length
    highestModSeq := folder.highestModSeq }

/-- What a `SEARCH` lists. -/
def existingUids : List Uid := folder.messages.map (fun message => message.uid)

def changedSince (since : ModSeq) : List Pull.FetchedMessage :=
  folder.messages.filter (fun message => message.modSeq.all (fun modSeq => since < modSeq))

def fromUidOnwards (floor : Uid) : List Pull.FetchedMessage :=
  folder.messages.filter (fun message => floor ≤ message.uid)

def unaccountedArrivals (reported : List Pull.FetchedMessage) (uidNext : Uid) (previousUidNext : Option Uid) : Option Uid :=
  -- The first UID that `UIDNEXT` says exists and the feed did not report.
  previousUidNext.bind (fun previous =>
    let highest := (reported.map (fun message => message.uid)).foldl max 0
    let floor := max previous (highest + 1)
    if floor < uidNext then some floor else none)

def pulled (since : ModSeq) (previousUidNext : Option Uid) : List Pull.FetchedMessage :=
  -- Everything an incremental pull is told.
  match unaccountedArrivals (folder.changedSince since) folder.uidNext previousUidNext with
  | some floor => folder.changedSince since ++ folder.fromUidOnwards floor
  | none => folder.changedSince since

end Folder

inductive Coverage where
  | missing
  | everything
  deriving DecidableEq

/-- The old rows are wiped, or are filled in, or all read again. -/
def coverage : FullResyncReason -> Coverage
  | .generationChanged => .missing
  | .neverSynced => .missing
  | .shortOfExists => .missing
  | .noModSeq => .everything
  | .modSeqWentBackwards => .everything

def among (mailbox : MailboxId) (generation : Generation) (uids : List Uid) (row : Mail) : Bool :=
  row.mailboxId = mailbox && row.server.uidValidity = some generation && row.server.uid.any uids.contains

namespace Desk

variable (desk : Desk) (mailbox : Mailbox) (folder : Folder)

def write (messages : List Pull.FetchedMessage) : Option Desk :=
  (desk.store.upsertBatch (messages.map (fun message => message.intoMessage mailbox.accountId mailbox.id))).map
    desk.withStore

def enumerate (coverage : Coverage) : Option Desk :=
  -- Reads what the coverage asks for, the newest first.
  desk.write mailbox ((folder.messages.filter (fun message =>
    message.uid < folder.uidNext &&
      (coverage = .everything || !(desk.uidsIn mailbox.id folder.generation).contains message.uid))).insertionSort
    (fun first second => second.uid ≤ first.uid))

def wipeMailbox (mailbox : MailboxId) (generation : Generation) : Desk :=
  desk.deleteMessages (among mailbox generation (desk.uidsIn mailbox generation))

def reconcileVanished (mailbox : MailboxId) (generation : Generation) (known : List Uid)
    (expectedGone : Nat) (present : List Uid) : Desk × Nat :=
  -- Deletes the known that are not present, where that is as many as are said to be gone. Says how many rows went.
  let vanished := known.filter (fun uid => !present.contains uid)
  if vanished.length ≠ expectedGone then (desk, 0)
  else
    (desk.deleteMessages (among mailbox generation vanished),
      (desk.messages.rows.filter (among mailbox generation vanished)).length)

def newlyArrived (mailbox : MailboxId) (folder : Folder) (told : List Pull.FetchedMessage) : Nat :=
  (told.filter (fun message => !(desk.uidsIn mailbox folder.generation).contains message.uid)).length

def incremental (told : List Pull.FetchedMessage) : Option Desk :=
  -- Stores what the server tells of, and reconciles what vanished where the counts disagree.
  let known := desk.uidsIn mailbox.id folder.generation
  let expected := known.length + desk.newlyArrived mailbox.id folder told
  (desk.write mailbox told).map (fun written =>
    if known ≠ [] ∧ folder.messages.length ≠ expected then
      (written.reconcileVanished mailbox.id folder.generation known (expected - folder.messages.length)
        folder.existingUids).1
    else written)

def fillShortfall (generation : Option Generation) : Option Desk :=
  if desk.stillShortOfExists mailbox.id generation folder.messages.length then desk.enumerate mailbox folder .missing
  else some desk

/-- More rows than the server holds messages cannot be new mail. -/
def reconcileExcess (mailbox : MailboxId) (folder : Folder) : Option Generation -> Desk × Nat
  | none => (desk, 0)
  | some generation =>
    if folder.messages.length < desk.countIn mailbox generation then
      desk.reconcileVanished mailbox generation (desk.uidsIn mailbox generation)
        ((desk.uidsIn mailbox generation).length - folder.messages.length) folder.existingUids
    else (desk, 0)

def resync (previous : SyncState) : Option Desk :=
  -- One pass over a mailbox that the server answers truly and in full.
  match previous.plan folder.select with
  | .full reason =>
    let kept :=
      match reason, previous.generation with
      | .generationChanged, some stale => desk.wipeMailbox mailbox.id stale
      | _, _ => desk
    kept.enumerate mailbox folder (coverage reason)
  | .incremental since =>
    (desk.incremental mailbox folder (folder.pulled since previous.uidNext)).bind (fun pulled =>
      pulled.fillShortfall mailbox folder previous.generation)
  | .upToDate =>
    let reconciled := desk.reconcileExcess mailbox.id folder previous.generation
    if 0 < reconciled.2 then some reconciled.1
    else reconciled.1.fillShortfall mailbox folder previous.generation

end Desk

end Postio.Drafts

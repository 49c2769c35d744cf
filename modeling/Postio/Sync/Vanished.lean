import Mathlib.Data.Finset.Card
import Postio.Lib.Table
import Postio.Model.SyncState

set_option autoImplicit false

namespace Postio

/-- A row of `messages` in one mailbox, and where the server has it. -/
structure RemoteRow where
  id : MessageId
  remote : Option (Generation × Uid)
  deriving DecidableEq

structure MailboxRows where
  table : Table RemoteRow (fun row => row.id.get)
  unique : (table.rows.filterMap (fun row => row.remote)).Nodup

/-- A message as a fetch reports it. -/
structure FetchedMessage where
  generation : Generation
  uid : Uid
  deriving DecidableEq

/-- What the server answers to an incremental or an up-to-date pass. -/
structure PassAnswers where
  changed : List FetchedMessage
  -- Asked for only where `UIDNEXT` says the feed left arrivals out.
  arrivals : List FetchedMessage
  -- Which UIDs exist: listed at once, or else fetched in chunks of those known.
  listing : Option (List Uid)
  fetched : List Uid
  deriving DecidableEq

namespace MailboxRows

variable (rows : MailboxRows) (known : List Uid) (generation : Generation) (previous : SyncState)
    (selected : ServerStatus) (held : Finset Uid) (present : List Uid) (previousUidNext : Option Uid)
    (answers : PassAnswers)

def uidsIn : List Uid :=
  rows.table.rows.filterMap (fun row =>
    row.remote.bind (fun remote => if remote.1 = generation then some remote.2 else none))

def idsByUid (uids : List Uid) : List MessageId :=
  (rows.table.rows.filter (fun row =>
    row.remote.any (fun remote => remote.1 = generation && uids.contains remote.2))).map (fun row => row.id)

def upsert (message : FetchedMessage) : MailboxRows :=
  if known : (message.generation, message.uid) ∈ rows.table.rows.filterMap (fun row => row.remote) then rows
  else
    { table := rows.table.insert (fun id => { id := ⟨id⟩, remote := some (message.generation, message.uid) }) (fun _ => rfl)
      unique := by
        rw [Table.insert_rows, List.filterMap_append]
        apply List.Nodup.append rows.unique (by simp)
        intro remote held last
        simp only [List.filterMap_cons, List.filterMap_nil, List.mem_singleton] at last
        rw [last] at held
        exact known held }

def delete (ids : List MessageId) : MailboxRows where
  table := rows.table.remove (fun row => ids.contains row.id)
  unique := rows.unique.sublist (List.filter_sublist.filterMap _)

def unaccountedArrivals (reported : List FetchedMessage) (uidNext : Uid) (previousUidNext : Option Uid) : Option Uid :=
  -- The first UID that `UIDNEXT` says exists and the feed did not report.
  previousUidNext.bind (fun previous =>
    let highest := (reported.map (fun message => message.uid)).foldl max 0
    let floor := max previous (highest + 1)
    if floor < uidNext then some floor else none)

def reconcileVanished (known : List Uid) (expectedGone : Nat) (present : List Uid) : MailboxRows :=
  let vanished := known.filter (fun uid => !present.contains uid)
  if vanished.length ≠ expectedGone then rows else rows.delete (rows.idsByUid generation vanished)

def reported (answers : PassAnswers) (selected : ServerStatus) (previousUidNext : Option Uid) : List FetchedMessage :=
  -- Everything the feed reported, what it had to be asked for besides included.
  match unaccountedArrivals answers.changed selected.uidNext previousUidNext with
  | some _ => answers.changed ++ answers.arrivals
  | none => answers.changed

def newlyArrived (selected : ServerStatus) (previousUidNext : Option Uid) :
    Nat :=
  ((reported answers selected previousUidNext).filter (fun message =>
    !(rows.uidsIn selected.generation).contains message.uid)).length

def presence : List Uid := answers.listing.getD answers.fetched

def incremental :
    MailboxRows :=
  -- Stores what changed, and reconciles what vanished.
  let known := rows.uidsIn selected.generation
  let expected := known.length + rows.newlyArrived answers selected previousUidNext
  let stored := (reported answers selected previousUidNext).foldl upsert rows
  if known ≠ [] ∧ selected.existing ≠ expected then
    stored.reconcileVanished selected.generation known (expected - selected.existing) (presence answers)
  else stored

def upToDate : MailboxRows :=
  -- The mailbox a server calls unchanged, which may all the same hold fewer messages than are stored.
  let known := rows.uidsIn selected.generation
  if known.length > selected.existing then
    rows.reconcileVanished selected.generation known (known.length - selected.existing) (presence answers)
  else rows

def resync : MailboxRows :=
  -- The rows after the pass a plan asks for, where it is not a full one.
  match previous.plan selected with
  | .incremental _ => rows.incremental selected previous.uidNext answers
  | .upToDate => rows.upToDate selected answers
  | .full _ => rows

/-! ### What a pass deletes -/

def Spares (before after : MailboxRows) : Prop :=
  ∀ row ∈ before.table.rows, row ∉ after.table.rows -> ∃ uid ∉ held, row.remote = some (selected.generation, uid)

theorem mem_uidsIn (uid : Uid) :
    uid ∈ rows.uidsIn generation <-> ∃ row ∈ rows.table.rows, row.remote = some (generation, uid) := by
  unfold uidsIn
  simp only [List.mem_filterMap, Option.bind_eq_some_iff, Option.ite_none_right_eq_some, Option.some.injEq, Prod.exists]
  constructor
  · rintro ⟨row, there, named, held, stored, rfl, rfl⟩
    exact ⟨row, there, stored⟩
  · rintro ⟨row, there, stored⟩
    exact ⟨row, there, generation, uid, stored, rfl, rfl⟩

theorem uidsIn_nodup : (rows.uidsIn generation).Nodup := by
  have same : rows.uidsIn generation = (rows.table.rows.filterMap (fun row => row.remote)).filterMap (fun remote =>
      if remote.1 = generation then some remote.2 else none) := by
    unfold uidsIn
    rw [List.filterMap_filterMap]
  rw [same]
  apply rows.unique.filterMap
  intro first second uid here there
  simp only [Option.mem_def, Option.ite_none_right_eq_some, Option.some.injEq] at here there
  exact Prod.ext (here.1.trans there.1.symm) (here.2.trans there.2.symm)

theorem mem_delete (uids : List Uid) (row : RemoteRow) :
    row ∈ (rows.delete (rows.idsByUid generation uids)).table.rows <->
      row ∈ rows.table.rows ∧ ¬ ∃ uid ∈ uids, row.remote = some (generation, uid) := by
  have named : ∀ other : RemoteRow, (other.remote.any (fun remote => remote.1 = generation && uids.contains remote.2)) =
      true <-> ∃ uid ∈ uids, other.remote = some (generation, uid) := by
    intro other
    rw [Option.any_eq_true]
    constructor
    · rintro ⟨⟨held, uid⟩, stored, same⟩
      simp only [Bool.and_eq_true, decide_eq_true_eq, List.contains_iff_mem] at same
      exact ⟨uid, same.2, by rw [stored, same.1]⟩
    · rintro ⟨uid, listed, stored⟩
      exact ⟨_, stored, by simpa using listed⟩
  unfold delete idsByUid
  rw [Table.remove_rows, List.mem_filter]
  apply and_congr_right
  intro there
  rw [Bool.not_eq_true', ← Bool.not_eq_true, List.contains_iff_mem, not_iff_not, ← named row, List.mem_map]
  constructor
  · rintro ⟨other, inside, same⟩
    obtain ⟨held, chosen⟩ := List.mem_filter.mp inside
    rwa [rows.table.key_injective other row held there (congrArg MessageId.get same)] at chosen
  · intro chosen
    exact ⟨row, List.mem_filter.mpr ⟨there, chosen⟩, rfl⟩

theorem mem_upsert (message : FetchedMessage) (row : RemoteRow) (there : row ∈ rows.table.rows) :
    row ∈ (rows.upsert message).table.rows := by
  unfold upsert
  split
  · exact there
  · exact List.mem_append_left _ there

theorem mem_stored (messages : List FetchedMessage) (rows : MailboxRows) (row : RemoteRow)
    (there : row ∈ rows.table.rows) : row ∈ (messages.foldl upsert rows).table.rows := by
  induction messages generalizing rows with
  | nil => exact there
  | cons message rest ih => exact ih _ (mem_upsert rows message row there)

def absent : Finset Uid := known.toFinset \ present.toFinset

theorem absent_card (distinct : known.Nodup) :
    (known.filter (fun uid => !present.contains uid)).length = (absent known present).card := by
  have same : (known.filter (fun uid => !present.contains uid)).toFinset = absent known present := by
    ext uid
    simp [absent]
  rw [← same, List.toFinset_card_of_nodup (distinct.filter _)]

theorem spares_reconcile (before stored : MailboxRows) (selected : ServerStatus) (held : Finset Uid)
    (expectedGone : Nat) (present : List Uid) (kept : ∀ row ∈ before.table.rows, row ∈ stored.table.rows) :
    Spares selected held before
        (stored.reconcileVanished selected.generation (before.uidsIn selected.generation) expectedGone present) <->
      ((absent (before.uidsIn selected.generation) present).card = expectedGone ->
        ∀ uid ∈ absent (before.uidsIn selected.generation) present, uid ∉ held) := by
  -- A reconciliation deletes live mail exactly if it deletes at all and one of those it misses is still held.
  unfold reconcileVanished Spares
  simp only
  rw [absent_card _ _ (before.uidsIn_nodup _)]
  have vanished : ∀ uid, uid ∈ (before.uidsIn selected.generation).filter (fun uid => !present.contains uid) <->
      uid ∈ absent (before.uidsIn selected.generation) present := by
    intro uid
    simp [absent]
  by_cases matched : (absent (before.uidsIn selected.generation) present).card = expectedGone
  · rw [if_neg (not_not.mpr matched)]
    constructor
    · intro spared _ uid missing
      obtain ⟨known, -⟩ := Finset.mem_sdiff.mp missing
      obtain ⟨row, there, named⟩ := (before.mem_uidsIn _ _).mp (List.mem_toFinset.mp known)
      obtain ⟨other, gone, same⟩ := spared row there (by
        intro survived
        exact ((mem_delete _ _ _ _).mp survived).2 ⟨uid, (vanished uid).mpr missing, named⟩)
      rw [named] at same
      rw [(Prod.mk.inj (Option.some.inj same)).2]
      exact gone
    · intro gone row there deleted
      have lost : ∃ uid ∈ (before.uidsIn selected.generation).filter (fun uid => !present.contains uid),
          row.remote = some (selected.generation, uid) := by
        by_contra safe
        exact deleted ((mem_delete _ _ _ _).mpr ⟨kept row there, safe⟩)
      obtain ⟨uid, missing, named⟩ := lost
      exact ⟨uid, gone matched uid ((vanished uid).mp missing), named⟩
  · rw [if_pos matched]
    exact iff_of_true (fun row there lost => absurd (kept row there) lost) (fun same => absurd same matched)

def PresentAmong (listing : Option (List Uid)) (fetched : List Uid) : Prop :=
  ∀ uid ∈ listing.getD fetched, uid ∈ held

def Accounted (changed arrivals : List FetchedMessage) : Prop :=
  -- What a feed reports besides the rows known is no more than the server holds besides them; or it is so much that no
  -- presence check can account for it.
  match previous.plan selected with
  | .incremental _ =>
    rows.newlyArrived ⟨changed, arrivals, none, []⟩ selected previous.uidNext ≤
        (held \ (rows.uidsIn selected.generation).toFinset).card ∨
      held.card < rows.newlyArrived ⟨changed, arrivals, none, []⟩ selected previous.uidNext
  | .upToDate | .full _ => True

theorem newlyArrived_presence (changed arrivals : List FetchedMessage) (listing : Option (List Uid)) (fetched : List Uid) :
    rows.newlyArrived ⟨changed, arrivals, listing, fetched⟩ selected previousUidNext =
      rows.newlyArrived ⟨changed, arrivals, none, []⟩ selected previousUidNext := rfl

theorem absent_gone (held : Finset Uid) (within : ∀ uid ∈ present, uid ∈ held)
    (count : (absent known present).card ≤ (known.toFinset \ held).card) :
    ∀ uid ∈ absent known present, uid ∉ held := by
  -- What a check finds missing is at least what is gone; where it is no more, nothing else is missing.
  have gone : known.toFinset \ held ⊆ absent known present := by
    intro uid missing
    obtain ⟨there, apart⟩ := Finset.mem_sdiff.mp missing
    exact Finset.mem_sdiff.mpr ⟨there, fun found => apart (within uid (List.mem_toFinset.mp found))⟩
  have same := Finset.eq_of_subset_of_card_le gone count
  intro uid missing
  rw [← same] at missing
  exact (Finset.mem_sdiff.mp missing).2

theorem counted (distinct : known.Nodup) :
    known.length = (known.toFinset \ held).card + (known.toFinset ∩ held).card ∧
      held.card = (held \ known.toFinset).card + (known.toFinset ∩ held).card := by
  constructor
  · rw [← List.toFinset_card_of_nodup distinct, Finset.card_sdiff_add_card_inter]
  · rw [Finset.inter_comm, Finset.card_sdiff_add_card_inter]

theorem spares_upToDate (counts : selected.existing = held.card) (answers : PassAnswers) (within : ∀ uid ∈ presence answers, uid ∈ held) :
    Spares selected held rows (rows.upToDate selected answers) := by
  unfold upToDate
  simp only
  split
  next more =>
    rw [spares_reconcile rows rows selected held _ _ (fun _ there => there)]
    intro matched
    apply absent_gone _ _ _ within
    obtain ⟨split, total⟩ := counted (rows.uidsIn selected.generation) held (rows.uidsIn_nodup _)
    omega
  next => exact fun row there lost => absurd there lost

theorem spares_incremental (counts : selected.existing = held.card) (answers : PassAnswers)
    (within : ∀ uid ∈ presence answers, uid ∈ held)
    (accounted : rows.newlyArrived answers selected previousUidNext ≤
        (held \ (rows.uidsIn selected.generation).toFinset).card ∨
      held.card < rows.newlyArrived answers selected previousUidNext) :
    Spares selected held rows (rows.incremental selected previousUidNext answers) := by
  have kept : ∀ row ∈ rows.table.rows,
      row ∈ ((reported answers selected previousUidNext).foldl upsert rows).table.rows :=
    fun row there => mem_stored _ rows row there
  unfold incremental
  simp only
  split
  next disagree =>
    rw [spares_reconcile rows _ selected held _ _ kept]
    intro matched
    obtain ⟨split, total⟩ := counted (rows.uidsIn selected.generation) held (rows.uidsIn_nodup _)
    rcases accounted with few | many
    · apply absent_gone _ _ _ within
      omega
    · -- So many would be gone that no presence check agrees.
      have most : (absent (rows.uidsIn selected.generation) (presence answers)).card ≤
          (rows.uidsIn selected.generation).length := by
        rw [← List.toFinset_card_of_nodup (rows.uidsIn_nodup selected.generation)]
        exact Finset.card_le_card Finset.sdiff_subset
      have stored := List.length_pos_iff.mpr disagree.1
      omega
  next => exact fun row there lost => absurd (kept row there) lost

theorem incremental_deletes (counts : selected.existing = held.card) (changed arrivals : List FetchedMessage)
    (exceeds : (held \ (rows.uidsIn selected.generation).toFinset).card <
      rows.newlyArrived ⟨changed, arrivals, none, []⟩ selected previousUidNext)
    (within : rows.newlyArrived ⟨changed, arrivals, none, []⟩ selected previousUidNext ≤ held.card) :
    ∃ listing, PresentAmong held (some listing) [] ∧
      ¬ Spares selected held rows (rows.incremental selected previousUidNext ⟨changed, arrivals, some listing, []⟩) := by
  -- A feed that reports more arrivals than there are, but not too many, has a presence check it deletes live mail by.
  obtain ⟨split, total⟩ := counted (rows.uidsIn selected.generation) held (rows.uidsIn_nodup _)
  -- As many of the live rows as were counted too often are left out of the listing.
  obtain ⟨omitted, live, size⟩ := Finset.exists_subset_card_eq
    (show rows.newlyArrived ⟨changed, arrivals, none, []⟩ selected previousUidNext -
      (held \ (rows.uidsIn selected.generation).toFinset).card ≤
        ((rows.uidsIn selected.generation).toFinset ∩ held).card by omega)
  have listed : ∀ uid, uid ∈ (held \ omitted).toList <-> uid ∈ held \ omitted := fun uid => Finset.mem_toList
  refine ⟨(held \ omitted).toList, fun uid there => (Finset.mem_sdiff.mp ((listed uid).mp there)).1, ?_⟩
  have missing : absent (rows.uidsIn selected.generation) (held \ omitted).toList =
      ((rows.uidsIn selected.generation).toFinset \ held) ∪ omitted := by
    ext uid
    simp only [absent, Finset.mem_sdiff, List.mem_toFinset, listed, Finset.mem_union]
    constructor
    · rintro ⟨known, unlisted⟩
      by_cases there : uid ∈ held
      · exact .inr (not_not.mp (fun apart => unlisted ⟨there, apart⟩))
      · exact .inl ⟨known, there⟩
    · rintro (⟨known, gone⟩ | left)
      · exact ⟨known, fun both => gone both.1⟩
      · exact ⟨List.mem_toFinset.mp (Finset.mem_inter.mp (live left)).1, fun both => both.2 left⟩
  have apart : Disjoint ((rows.uidsIn selected.generation).toFinset \ held) omitted := by
    rw [Finset.disjoint_left]
    intro uid gone left
    exact (Finset.mem_sdiff.mp gone).2 (Finset.mem_inter.mp (live left)).2
  have many : (absent (rows.uidsIn selected.generation) (held \ omitted).toList).card =
      ((rows.uidsIn selected.generation).toFinset \ held).card + omitted.card := by
    rw [missing, Finset.card_union_of_disjoint apart]
  have arrivedSame := rows.newlyArrived_presence selected previousUidNext changed arrivals (some (held \ omitted).toList) []
  have more : 0 < omitted.card := by omega
  obtain ⟨uid, left⟩ := Finset.card_pos.mp more
  have known : rows.uidsIn selected.generation ≠ [] :=
    List.ne_nil_of_mem (List.mem_toFinset.mp (Finset.mem_inter.mp (live left)).1)
  unfold incremental
  simp only
  rw [if_pos ⟨known, by rw [arrivedSame]; omega⟩, arrivedSame,
    spares_reconcile rows _ selected held _ _ (fun row there => mem_stored _ rows row there)]
  intro spared
  refine spared ?_ uid ?_ (Finset.mem_inter.mp (live left)).2
  · change (absent _ (held \ omitted).toList).card = (rows.uidsIn selected.generation).length +
      rows.newlyArrived ⟨changed, arrivals, none, []⟩ selected previousUidNext - selected.existing
    rw [many]
    omega
  · change uid ∈ absent _ (held \ omitted).toList
    rw [missing]
    exact Finset.mem_union_right _ left

/-- Whatever UIDs it is told are there, an incremental or up-to-date pass deletes only rows of messages that are gone,
exactly if the feed reports no more arrivals than there are, or more than the mailbox holds. -/
theorem resync_spares_iff (counts : selected.existing = held.card) (changed arrivals : List FetchedMessage) :
    (∀ listing fetched, PresentAmong held listing fetched ->
      Spares selected held rows (rows.resync previous selected ⟨changed, arrivals, listing, fetched⟩)) <->
      Accounted rows previous selected held changed arrivals := by
  unfold resync Accounted
  cases previous.plan selected with
  | full reason => exact iff_of_true (fun _ _ _ row there lost => absurd there lost) trivial
  | upToDate =>
    refine iff_of_true ?_ trivial
    intro listing fetched within
    exact spares_upToDate rows selected held counts _ within
  | incremental since =>
    constructor
    · intro spared
      by_contra exceeds
      rw [not_or, not_le, not_lt] at exceeds
      obtain ⟨listing, within, deletes⟩ :=
        incremental_deletes rows selected held previous.uidNext counts changed arrivals exceeds.1 exceeds.2
      exact deletes (spared (some listing) [] within)
    · intro accounted listing fetched within
      exact spares_incremental rows selected held previous.uidNext counts _ within accounted

def twoStored : MailboxRows where
  table := {
    rows := [{ id := ⟨1⟩, remote := some (⟨1⟩, 1) }, { id := ⟨2⟩, remote := some (⟨1⟩, 2) }]
    nextId := 3
    ordered := by decide
    issued := by decide }
  unique := by decide

def syncedAt (highest : ModSeq) : SyncState where
  generation := some ⟨1⟩
  uidNext := some 3
  highestModSeq := some highest
  lastFullSyncAt := some 0
  lastSeenAt := some 0
  passesSinceFlagSweep := 0

def threeHeld : ServerStatus where
  generation := ⟨1⟩
  uidNext := 4
  existing := 3
  highestModSeq := some 8

theorem oneArrival_spares : threeHeld.existing = ({1, 2, 3} : Finset Uid).card ∧
    ∀ listing fetched, PresentAmong {1, 2, 3} listing fetched ->
      Spares threeHeld {1, 2, 3} twoStored
        (twoStored.resync (syncedAt 7) threeHeld ⟨[⟨⟨1⟩, 3⟩], [], listing, fetched⟩) :=
  ⟨by decide, (resync_spares_iff twoStored (syncedAt 7) threeHeld {1, 2, 3} (by decide) [⟨⟨1⟩, 3⟩] []).mpr
    (.inl (by decide))⟩

/-- An arrival reported twice, and a listing that leaves out a message that is there. -/
theorem reportedTwice_deletes : PresentAmong {1, 2, 3} (some [1, 3]) [] ∧
    ¬ Spares threeHeld {1, 2, 3} twoStored
      (twoStored.resync (syncedAt 7) threeHeld ⟨[⟨⟨1⟩, 3⟩, ⟨⟨1⟩, 3⟩], [], some [1, 3], []⟩) := by
  refine ⟨by unfold PresentAmong; decide, ?_⟩
  intro spared
  obtain ⟨uid, gone, named⟩ := spared { id := ⟨2⟩, remote := some (⟨1⟩, 2) } (by decide) (by decide)
  cases named
  exact gone (by decide)

end MailboxRows

end Postio

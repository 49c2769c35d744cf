import Postio.Drafts.FolderFilled
import Postio.Sync.ResyncCoherent

set_option autoImplicit false

namespace Postio.Drafts

open Pull

structure Removed (mailbox : MailboxId) (folder : Folder) (before after : Store) : Prop where
  left : ∀ id row, after.get id = some row -> vanished mailbox folder row = false
  only : ∀ id row, before.get id = some row -> after.get id = none -> vanished mailbox folder row = true

def unaccounted (desk : Desk) (mailbox : MailboxId) (folder : Folder) (told : List Pull.FetchedMessage) :
    List Pull.FetchedMessage :=
  -- The messages the server holds that are neither rows nor told of in the pass.
  folder.messages.filter (fun message =>
    !(desk.uidsIn mailbox folder.generation).contains message.uid &&
      !(told.map (fun message => message.uid)).contains message.uid)

def Reaches (desk : Desk) (mailbox : MailboxId) (folder : Folder) (previous : SyncState) (row : Pull.Mail) : Prop :=
  -- Where a pass removes a row that vanished: the generation it is of is wiped; or it is of the generation that is
  -- there, the pass is not a full one, and every message the server holds is a row or told of.
  match previous.plan folder.select with
  | .full .generationChanged => row.server.uidValidity = previous.generation
  | .full _ => False
  | .incremental since =>
    row.server.uidValidity = some folder.generation ∧
      unaccounted desk mailbox folder (folder.pulled since previous.uidNext) = []
  | .upToDate => row.server.uidValidity = some folder.generation ∧ unaccounted desk mailbox folder [] = []

theorem removed_iff (mailbox : MailboxId) (folder : Folder) (before middle cut after : Store) (gone : Pull.Mail -> Bool)
    (first : Filled mailbox folder before middle)
    (removed : ∀ id, cut.get id = (middle.get id).filter (fun row => !gone row))
    (within : ∀ row, gone row = true -> vanished mailbox folder row = true) (last : Filled mailbox folder cut after) :
    Removed mailbox folder before after <->
      ∀ id row, before.get id = some row -> vanished mailbox folder row = true -> gone row = true := by
  -- Where a pass writes what the server holds, removes some of the rows that vanished, and writes again, exactly those
  -- that vanished are removed if all of them are among the ones it removes.
  constructor
  next =>
    intro exact id row held lost
    obtain ⟨-, named, absent⟩ := (vanished_iff mailbox folder row).mp lost
    by_contra spared
    have passes : cut.get id = some row := by
      rw [removed, first.stays id row held named absent]
      simpa using spared
    have remains := exact.left id row (last.stays id row passes named absent)
    rw [lost] at remains
    cases remains
  next =>
    intro all
    constructor
    next =>
      intro id row held
      rw [Bool.eq_false_iff]
      intro lost
      have absent := ((vanished_iff mailbox folder row).mp lost).2.2
      -- it was there from the start, as no message the server holds is at its place
      rcases last.arrived id row held with was | live
      next =>
        rw [removed] at was
        obtain ⟨there, spared⟩ := Option.filter_eq_some_iff.mp was
        rcases first.arrived id row there with here | live
        next => simp [all id row here lost] at spared
        next =>
          rw [absent] at live
          cases live
      next =>
        rw [absent] at live
        cases live
    next =>
      intro id row held nowhere
      by_contra stays
      obtain ⟨middleRow, there⟩ := Option.isSome_iff_exists.mp (first.kept id (by simp [held]))
      have passes : (cut.get id).isSome := by
        rw [removed, there]
        have spared : gone middleRow = false := by
          rw [Bool.eq_false_iff]
          intro chosen
          have lost := within middleRow chosen
          rcases first.arrived id middleRow there with was | live
          next =>
            rw [held] at was
            cases was
            exact stays lost
          next =>
            rw [((vanished_iff mailbox folder middleRow).mp lost).2.2] at live
            cases live
        simp [spared]
      have remains := last.kept id passes
      rw [nowhere] at remains
      cases remains

/-! ### What the counts come to -/

/-- The folder by UID and name. -/
def Folder.listing (folder : Folder) : Listing where
  messages := folder.messages.map (fun message => (message.uid, message.remoteId))
  uids := by
    rw [List.map_map]
    exact folder.distinct
  names := by
    rw [List.map_map]
    have each : folder.messages.map (Prod.snd ∘ fun message => (message.uid, message.remoteId)) =
        (folder.messages.map (fun message => message.uid)).map (remoteId folder.generation) := by
      rw [List.map_map]
      apply List.map_congr_left
      intro message there
      exact (folder.named message there).2
    rw [each]
    apply folder.distinct.map
    intro first second same
    exact (remoteId_inj _ _ _ _ same).2

namespace Desk

structure Tells (folder : Folder) (told : List Pull.FetchedMessage) : Prop where
  within : ∀ message ∈ told, message ∈ folder.messages
  once : told.Nodup

variable (desk : Desk) (mailbox : MailboxId) (folder : Folder) (told : List Pull.FetchedMessage)

theorem messages_nodup : folder.messages.Nodup := List.Nodup.of_map _ folder.distinct

theorem message_unique (first second : Pull.FetchedMessage) (here : first ∈ folder.messages)
    (there : second ∈ folder.messages) (same : first.uid = second.uid) : first = second :=
  List.inj_on_of_nodup_map folder.distinct here there same

theorem length_partition {Element : Type} (list : List Element) (test : Element -> Bool) :
    list.length = (list.filter test).length + (list.filter (fun element => !test element)).length := by
  exact List.length_eq_length_filter_add test

theorem counts (tells : Tells folder told) (apart : Apart desk.store) :
    (desk.uidsIn mailbox folder.generation).length + desk.newlyArrived mailbox folder told +
        (unaccounted desk mailbox folder told).length =
      folder.messages.length +
        ((desk.uidsIn mailbox folder.generation).filter (fun uid => !folder.existingUids.contains uid)).length := by
  -- The rows known, with what the server tells of besides and what it leaves out, are what it holds, and the rows of
  -- messages that are gone.
  have rows := desk.countIn_split mailbox folder.generation folder.listing apart
  rw [← uidsIn_length] at rows
  have gone : desk.goneUids mailbox folder.generation folder.listing =
      (desk.uidsIn mailbox folder.generation).filter (fun uid => !folder.existingUids.contains uid) := by
    unfold goneUids Folder.listing Folder.existingUids
    rw [List.map_map]
    rfl
  have stored : (folder.listing.messages.filter (fun message =>
      desk.holds mailbox folder.generation message.1)).length =
        (folder.messages.filter (fun message =>
          (desk.uidsIn mailbox folder.generation).contains message.uid)).length := by
    unfold Folder.listing
    rw [List.filter_map, List.length_map]
    apply congrArg List.length
    apply List.filter_congr
    intro message _
    rw [Bool.eq_iff_iff, List.contains_iff_mem, mem_uidsIn]
    rfl
  have sides := length_partition folder.messages (fun message =>
    (desk.uidsIn mailbox folder.generation).contains message.uid)
  have parts := length_partition (folder.messages.filter (fun message =>
    !(desk.uidsIn mailbox folder.generation).contains message.uid)) (fun message =>
      (told.map (fun message => message.uid)).contains message.uid)
  rw [List.filter_filter, List.filter_filter] at parts
  have fresh : (told.filter (fun message => !(desk.uidsIn mailbox folder.generation).contains message.uid)).Perm
      (folder.messages.filter (fun message => (told.map (fun message => message.uid)).contains message.uid &&
        !(desk.uidsIn mailbox folder.generation).contains message.uid)) := by
    apply (List.perm_ext_iff_of_nodup (tells.once.filter _) ((messages_nodup folder).filter _)).mpr
    intro message
    simp only [List.mem_filter, Bool.and_eq_true, List.contains_iff_mem, List.mem_map]
    constructor
    next =>
      rintro ⟨there, unknown⟩
      exact ⟨tells.within message there, ⟨message, there, rfl⟩, unknown⟩
    next =>
      rintro ⟨held, ⟨other, there, same⟩, unknown⟩
      rw [← message_unique folder other message (tells.within other there) held same] at unknown ⊢
      exact ⟨there, unknown⟩
  have left : unaccounted desk mailbox folder told = folder.messages.filter (fun message =>
      !(told.map (fun message => message.uid)).contains message.uid &&
        !(desk.uidsIn mailbox folder.generation).contains message.uid) := by
    apply List.filter_congr
    intro message _
    exact Bool.and_comm _ _
  have arrivals := fresh.length_eq
  unfold newlyArrived
  rw [← gone, left]
  omega

/-! ### What a pass removes -/

def Passes (pass : Option Desk) (gone : Pull.Mail -> Bool) : Prop :=
  -- A pass that ends: what it writes first, what it removes, and what it writes last.
  ∃ middle cut after, pass = some after ∧ Filled mailbox folder desk.store middle ∧
    (∀ id, cut.get id = (middle.get id).filter (fun row => !gone row)) ∧
    (∀ row, gone row = true -> vanished mailbox folder row = true) ∧ Filled mailbox folder cut after.store

theorem passes_removed (pass : Option Desk) (gone : Pull.Mail -> Bool)
    (passes : Passes desk mailbox folder pass gone) :
    (∃ after, pass = some after ∧ Removed mailbox folder desk.store after.store) <->
      ∀ id row, desk.store.get id = some row -> vanished mailbox folder row = true -> gone row = true := by
  obtain ⟨middle, cut, after, done, first, removed, within, last⟩ := passes
  rw [← removed_iff mailbox folder desk.store middle cut after.store gone first removed within last]
  constructor
  next =>
    rintro ⟨other, same, exact⟩
    rw [done] at same
    cases same
    exact exact
  next => exact fun exact => ⟨after, done, exact⟩

theorem passes_wiped (mailbox : Mailbox) (folder : Folder) (stale : Generation)
    (over' : stale ≠ folder.generation) (shelved : Shelved desk.store) (coverage : Coverage) :
    Passes desk mailbox.id folder ((desk.wipeMailbox mailbox.id stale).enumerate mailbox folder coverage)
      (among mailbox.id stale (desk.uidsIn mailbox.id stale)) := by
  -- A full pass removes the rows of the generation that is over, and no others.
  obtain ⟨after, done, -, filled⟩ := filled_enumerate (desk.wipeMailbox mailbox.id stale) mailbox folder coverage
    (shelved_deleted desk _ shelved)
  refine ⟨desk.store, (desk.wipeMailbox mailbox.id stale).store, after, done, filled_refl _ _ _, get_deleted desk _, ?_,
    filled⟩
  intro row chosen
  obtain ⟨uid, -, place⟩ := (among_iff _ _ _ _).mp chosen
  refine (vanished_iff mailbox.id folder row).mpr ⟨((coordinates_eq_some row _ _ _).mp place).1, by simp [place], ?_⟩
  rw [Bool.eq_false_iff]
  intro live
  obtain ⟨other, -, again⟩ := (among_iff _ _ _ _).mp live
  rw [place] at again
  cases again
  exact over' rfl

theorem passes_enumerated (mailbox : Mailbox) (folder : Folder) (shelved : Shelved desk.store)
    (coverage : Coverage) :
    Passes desk mailbox.id folder (desk.enumerate mailbox folder coverage) (fun _ => false) := by
  obtain ⟨after, done, -, filled⟩ := filled_enumerate desk mailbox folder coverage shelved
  exact ⟨desk.store, desk.store, after, done, filled_refl _ _ _, fun id => (filter_all _).symm,
    fun row chosen => (Bool.false_ne_true chosen).elim, filled⟩

def sweptAfter (row : Pull.Mail) : Bool :=
  -- What an incremental pass removes.
  let known := desk.uidsIn mailbox folder.generation
  let expected := known.length + desk.newlyArrived mailbox folder told
  decide (known ≠ [] ∧ folder.messages.length ≠ expected) &&
    swept mailbox folder.generation known (expected - folder.messages.length) folder.existingUids row

theorem passes_incremental (mailbox : Mailbox) (folder : Folder) (told : List Pull.FetchedMessage)
    (previous : Option Generation) (tells : Tells folder told) (shelved : Shelved desk.store) :
    Passes desk mailbox.id folder
      ((desk.incremental mailbox folder told).bind (fun pulled => pulled.fillShortfall mailbox folder previous))
      (sweptAfter desk mailbox.id folder told) := by
  obtain ⟨written, stored, kept, first⟩ := filled_write desk mailbox folder told shelved tells.within
  have cut : ∃ cut, desk.incremental mailbox folder told = some cut ∧ Shelved cut.store ∧
      ∀ id, cut.store.get id =
        (written.store.get id).filter (fun row => !sweptAfter desk mailbox.id folder told row) := by
    unfold incremental sweptAfter
    dsimp only
    rw [stored, Option.map_some]
    split
    next disagree =>
      obtain ⟨shelf, rows⟩ := reconciled_deletes written mailbox.id folder.generation
        (desk.uidsIn mailbox.id folder.generation)
        ((desk.uidsIn mailbox.id folder.generation).length + desk.newlyArrived mailbox.id folder told -
          folder.messages.length) folder.existingUids kept
      refine ⟨_, rfl, shelf, fun id => ?_⟩
      rw [rows id]
      simp only [disagree, not_false_eq_true, ne_eq, and_self, decide_true, Bool.true_and]
    next agree =>
      refine ⟨written, rfl, kept, fun id => ?_⟩
      simp only [agree, decide_false, Bool.false_and, Bool.not_false]
      exact (filter_all _).symm
  obtain ⟨cut, done, shelf, rows⟩ := cut
  obtain ⟨after, ends, last⟩ := filled_shortfall cut mailbox folder previous shelf
  refine ⟨written.store, cut.store, after, ?_, first, rows, ?_, last⟩
  next => rw [done, Option.bind_some, ends]
  next =>
    intro row chosen
    exact swept_vanished mailbox.id folder _ _ row (Bool.and_eq_true_iff.mp chosen).2

def sweptExcess (row : Pull.Mail) : Bool :=
  -- What a pass over a mailbox the server calls unchanged removes.
  let known := desk.uidsIn mailbox folder.generation
  decide (folder.messages.length < known.length) &&
    swept mailbox folder.generation known (known.length - folder.messages.length) folder.existingUids row

theorem passes_upToDate (mailbox : Mailbox) (folder : Folder) (shelved : Shelved desk.store) :
    Passes desk mailbox.id folder
      (if 0 < (desk.reconcileExcess mailbox.id folder (some folder.generation)).2 then
        some (desk.reconcileExcess mailbox.id folder (some folder.generation)).1
      else (desk.reconcileExcess mailbox.id folder (some folder.generation)).1.fillShortfall mailbox folder
        (some folder.generation))
      (sweptExcess desk mailbox.id folder) := by
  have cut : Shelved (desk.reconcileExcess mailbox.id folder (some folder.generation)).1.store ∧
      ∀ id, (desk.reconcileExcess mailbox.id folder (some folder.generation)).1.store.get id =
        (desk.store.get id).filter (fun row => !sweptExcess desk mailbox.id folder row) := by
    unfold reconcileExcess sweptExcess
    dsimp only
    rw [← uidsIn_length]
    split
    next more =>
      obtain ⟨shelf, rows⟩ := reconciled_deletes desk mailbox.id folder.generation
        (desk.uidsIn mailbox.id folder.generation)
        ((desk.uidsIn mailbox.id folder.generation).length - folder.messages.length) folder.existingUids shelved
      refine ⟨shelf, fun id => ?_⟩
      rw [rows id]
      simp only [more, decide_true, Bool.true_and]
    next few =>
      refine ⟨shelved, fun id => ?_⟩
      simp only [few, decide_false, Bool.false_and, Bool.not_false]
      exact (filter_all _).symm
  generalize desk.reconcileExcess mailbox.id folder (some folder.generation) = reconciled at cut ⊢
  have within : ∀ row, sweptExcess desk mailbox.id folder row = true -> vanished mailbox.id folder row = true :=
    fun row chosen => swept_vanished mailbox.id folder _ _ row (Bool.and_eq_true_iff.mp chosen).2
  split
  next =>
    exact ⟨desk.store, reconciled.1.store, reconciled.1, rfl, filled_refl _ _ _, cut.2, within, filled_refl _ _ _⟩
  next =>
    obtain ⟨after, ends, last⟩ := filled_shortfall reconciled.1 mailbox folder (some folder.generation) cut.1
    exact ⟨desk.store, reconciled.1.store, after, ends, filled_refl _ _ _, cut.2, within, last⟩

theorem le_foldl_max (uids : List Uid) (start uid : Uid) (there : uid ≤ start ∨ uid ∈ uids) :
    uid ≤ uids.foldl max start := by
  induction uids generalizing start with
  | nil =>
    rcases there with low | nowhere
    next => exact low
    next => cases nowhere
  | cons first rest ih =>
    rw [List.foldl_cons]
    rcases there with low | there
    next => exact ih (max start first) (.inl (Nat.le_trans low (Nat.le_max_left ..)))
    next =>
      rcases List.mem_cons.mp there with rfl | later
      next => exact ih (max start uid) (.inl (Nat.le_max_right ..))
      next => exact ih (max start first) (.inr later)

theorem tells_pulled (since : ModSeq) (previousUidNext : Option Uid) :
    Tells folder (folder.pulled since previousUidNext) := by
  -- What is asked for besides is above all the feed reported.
  have changed : Tells folder (folder.changedSince since) :=
    ⟨fun message there => (List.mem_filter.mp there).1, (messages_nodup folder).filter _⟩
  unfold Folder.pulled
  split
  next floor found =>
    obtain ⟨previous, -, above⟩ := Option.bind_eq_some_iff.mp found
    constructor
    next =>
      intro message there
      rcases List.mem_append.mp there with feed | beyond
      next => exact changed.within message feed
      next => exact (List.mem_filter.mp beyond).1
    next =>
      apply changed.once.append ((messages_nodup folder).filter _)
      intro message feed beyond
      have reported := le_foldl_max ((folder.changedSince since).map (fun message => message.uid)) 0 message.uid
        (.inr (List.mem_map_of_mem feed))
      have low := (List.mem_filter.mp beyond).2
      dsimp only at above
      split at above
      next =>
        cases above
        have high : _ + 1 ≤ message.uid := Nat.le_trans (Nat.le_max_right ..) (of_decide_eq_true low)
        exact absurd reported (Nat.not_le_of_lt high)
      next => cases above
  next => exact changed

theorem vanished_gone (id : MessageId) (row : Pull.Mail)
    (held : desk.store.get id = some row) (lost : vanished mailbox folder row = true)
    (current : row.server.uidValidity = some folder.generation) :
    ∃ uid, coordinates row = some (mailbox, folder.generation, uid) ∧
      uid ∈ (desk.uidsIn mailbox folder.generation).filter (fun uid => !folder.existingUids.contains uid) := by
  -- Among the rows that are held, one that vanished is of another generation, or its UID is one of those that are gone.
  obtain ⟨here, named, absent⟩ := (vanished_iff mailbox folder row).mp lost
  obtain ⟨⟨place, validity, uid⟩, at_⟩ := Option.isSome_iff_exists.mp named
  obtain ⟨inside, stamped, counted⟩ := (coordinates_eq_some row _ _ _).mp at_
  rw [current] at stamped
  cases stamped
  rw [here] at inside
  cases inside
  refine ⟨uid, at_, List.mem_filter.mpr ⟨?_, ?_⟩⟩
  next =>
    rw [mem_uidsIn]
    exact List.any_eq_true.mpr ⟨row, desk.store.get_mem id row held, by simp [here, current, counted]⟩
  next =>
    rw [Bool.not_eq_true', Bool.eq_false_iff]
    intro listed
    have live : served mailbox folder row = true :=
      (among_iff _ _ _ _).mpr ⟨uid, List.contains_iff_mem.mp listed, at_⟩
    rw [live] at absent
    cases absent

theorem swept_iff (id : MessageId) (row : Pull.Mail)
    (expectedGone : Nat) (held : desk.store.get id = some row) (lost : vanished mailbox folder row = true) :
    swept mailbox folder.generation (desk.uidsIn mailbox folder.generation) expectedGone folder.existingUids row = true <->
      row.server.uidValidity = some folder.generation ∧
        ((desk.uidsIn mailbox folder.generation).filter (fun uid => !folder.existingUids.contains uid)).length =
          expectedGone := by
  unfold swept
  rw [Bool.and_eq_true, decide_eq_true_eq, among_iff, and_comm]
  apply and_congr_left
  intro _
  constructor
  next =>
    rintro ⟨uid, -, place⟩
    exact ((coordinates_eq_some row _ _ _).mp place).2.1
  next =>
    intro current
    obtain ⟨uid, place, gone⟩ := desk.vanished_gone mailbox folder id row held lost current
    exact ⟨uid, gone, place⟩

theorem sweptAfter_iff (tells : Tells folder told) (apart : Apart desk.store) (id : MessageId) (row : Pull.Mail)
    (held : desk.store.get id = some row) (lost : vanished mailbox folder row = true) :
    sweptAfter desk mailbox folder told row = true <->
      row.server.uidValidity = some folder.generation ∧ unaccounted desk mailbox folder told = [] := by
  -- An incremental pass removes a row that vanished exactly if nothing the server holds is left out of the count.
  have total := desk.counts mailbox folder told tells apart
  unfold sweptAfter
  dsimp only
  rw [Bool.and_eq_true, decide_eq_true_eq, desk.swept_iff mailbox folder id row _ held lost, ← List.length_eq_zero_iff]
  constructor
  next =>
    rintro ⟨-, current, gone⟩
    obtain ⟨uid, -, there⟩ := desk.vanished_gone mailbox folder id row held lost current
    have some := List.length_pos_of_mem there
    exact ⟨current, by omega⟩
  next =>
    rintro ⟨current, all⟩
    obtain ⟨uid, -, there⟩ := desk.vanished_gone mailbox folder id row held lost current
    have some := List.length_pos_of_mem there
    exact ⟨⟨List.ne_nil_of_mem (List.mem_filter.mp there).1, by omega⟩, current, by omega⟩

theorem tells_nothing : Tells folder [] := ⟨fun _ there => (nomatch there), List.nodup_nil⟩

theorem sweptExcess_iff (apart : Apart desk.store) (id : MessageId)
    (row : Pull.Mail) (held : desk.store.get id = some row) (lost : vanished mailbox folder row = true) :
    sweptExcess desk mailbox folder row = true <->
      row.server.uidValidity = some folder.generation ∧ unaccounted desk mailbox folder [] = [] := by
  have total : (desk.uidsIn mailbox folder.generation).length + 0 + _ = _ :=
    desk.counts mailbox folder [] (tells_nothing folder) apart
  unfold sweptExcess
  dsimp only
  rw [Bool.and_eq_true, decide_eq_true_eq, desk.swept_iff mailbox folder id row _ held lost, ← List.length_eq_zero_iff]
  constructor
  next =>
    rintro ⟨more, current, gone⟩
    exact ⟨current, by omega⟩
  next =>
    rintro ⟨current, all⟩
    obtain ⟨uid, -, there⟩ := desk.vanished_gone mailbox folder id row held lost current
    have some := List.length_pos_of_mem there
    exact ⟨by omega, current, by omega⟩

theorem among_uidsIn (generation : Generation) (id : MessageId)
    (row : Pull.Mail) (held : desk.store.get id = some row) (lost : vanished mailbox folder row = true) :
    among mailbox generation (desk.uidsIn mailbox generation) row = true <->
      row.server.uidValidity = some generation := by
  -- Among rows of the mailbox, those of one generation are the ones its UIDs find.
  rw [among_iff]
  constructor
  next =>
    rintro ⟨uid, -, place⟩
    exact ((coordinates_eq_some row _ _ _).mp place).2.1
  next =>
    intro stale
    obtain ⟨here, named, -⟩ := (vanished_iff mailbox folder row).mp lost
    obtain ⟨⟨place, validity, uid⟩, at_⟩ := Option.isSome_iff_exists.mp named
    obtain ⟨inside, stamped, counted⟩ := (coordinates_eq_some row _ _ _).mp at_
    refine ⟨uid, (desk.mem_uidsIn mailbox generation uid).mpr ?_,
      (coordinates_eq_some row _ _ _).mpr ⟨here, stale, counted⟩⟩
    exact List.any_eq_true.mpr ⟨row, desk.store.get_mem id row held, by simp [here, stale, counted]⟩

theorem resync_passes (mailbox : Mailbox) (folder : Folder) (previous : SyncState)
    (shelved : Shelved desk.store) :
    ∃ gone, Passes desk mailbox.id folder (desk.resync mailbox folder previous) gone ∧
      ∀ id row, desk.store.get id = some row -> vanished mailbox.id folder row = true ->
        (gone row = true <-> Reaches desk mailbox.id folder previous row) := by
  -- Whatever plan it follows, a pass ends, and removes the rows that vanished and that its plan reaches.
  unfold resync Reaches
  rcases previous.plan_cases folder.select with
    ⟨plan, stale, known, differs⟩ | ⟨plan, -⟩ | ⟨-, known, plan | ⟨first, second, -, -, ⟨plan, -⟩ | ⟨plan, -⟩ | ⟨plan, -⟩⟩⟩
  next =>
    simp only [plan, known]
    exact ⟨_, passes_wiped desk mailbox folder stale differs shelved _, desk.among_uidsIn mailbox.id folder stale⟩
  next =>
    simp only [plan]
    exact ⟨_, passes_enumerated desk mailbox folder shelved _, fun _ _ _ _ => by simp⟩
  next =>
    simp only [plan]
    exact ⟨_, passes_enumerated desk mailbox folder shelved _, fun _ _ _ _ => by simp⟩
  next =>
    simp only [plan]
    exact ⟨_, passes_incremental desk mailbox folder _ _ (tells_pulled folder first previous.uidNext) shelved,
      desk.sweptAfter_iff mailbox.id folder _ (tells_pulled folder first previous.uidNext) shelved.apart⟩
  next =>
    simp only [plan]
    exact ⟨_, passes_enumerated desk mailbox folder shelved _, fun _ _ _ _ => by simp⟩
  next =>
    simp only [plan, known]
    exact ⟨_, passes_upToDate desk mailbox folder shelved, desk.sweptExcess_iff mailbox.id folder shelved.apart⟩

/-- In every state that is reached, a pass removes exactly the rows that vanished if its plan reaches every one of them. -/
theorem vanished_removed_iff (events : List Event) (told : ∀ event ∈ events, event.Told) (mailbox : Mailbox)
    (folder : Folder) (previous : SyncState) :
    (∃ after, (Run.run step empty events).resync mailbox folder previous = some after ∧
      Removed mailbox.id folder (Run.run step empty events).store after.store) <->
    ∀ id row, (Run.run step empty events).store.get id = some row -> vanished mailbox.id folder row = true ->
      Reaches (Run.run step empty events) mailbox.id folder previous row := by
  obtain ⟨gone, passes, reached⟩ :=
    resync_passes _ mailbox folder previous ⟨apart_run events, spelled_run events told⟩
  rw [passes_removed _ mailbox.id folder _ gone passes]
  constructor
  next => exact fun all id row held lost => (reached id row held lost).mp (all id row held lost)
  next => exact fun all id row held lost => (reached id row held lost).mpr (all id row held lost)

def message (uid : Uid) : Pull.FetchedMessage :=
  { blank with uid, uidValidity := ⟨7⟩, modSeq := some 5, remoteId := remoteId ⟨7⟩ uid }

def pulledTwo : Event := .mail (.pull [(message 2).intoMessage ⟨1⟩ ⟨1⟩, (message 3).intoMessage ⟨1⟩ ⟨1⟩])

def oneLeft : Folder :=
  { generation := ⟨7⟩, uidNext := 4, highestModSeq := some 6, messages := [message 2], named := by decide
    distinct := by decide }

def syncedBefore : SyncState :=
  { generation := some ⟨7⟩, uidNext := some 4, highestModSeq := some 5, lastFullSyncAt := some 0, lastSeenAt := some 0
    passesSinceFlagSweep := 0 }

theorem pulled_told : pulledTwo.Told := by
  intro mail there name named
  rcases List.mem_pair.mp there with rfl | rfl
  next =>
    cases named
    exact ⟨⟨7⟩, 2, rfl, rfl, rfl⟩
  next =>
    cases named
    exact ⟨⟨7⟩, 3, rfl, rfl, rfl⟩

theorem vanished_removed_one : ∃ after,
    (Run.run step empty [.discover draftsFolder, pulledTwo]).resync draftsFolder oneLeft syncedBefore = some after ∧
      Removed ⟨1⟩ oneLeft (Run.run step empty [.discover draftsFolder, pulledTwo]).store after.store := by
  apply (vanished_removed_iff [.discover draftsFolder, pulledTwo] ?_ draftsFolder oneLeft syncedBefore).mpr
  next =>
    intro id row held _
    have plan : syncedBefore.plan oneLeft.select = .incremental 5 := by decide
    have stamped : ∀ row ∈ (Run.run step empty [.discover draftsFolder, pulledTwo]).messages.rows,
        row.server.uidValidity = some ⟨7⟩ := by decide
    unfold Reaches
    rw [plan]
    exact ⟨stamped row (Store.get_mem _ id row held), by decide⟩
  next =>
    intro event there
    rcases List.mem_pair.mp there with rfl | rfl
    next => trivial
    next => exact pulled_told

def besideCopy : List Event :=
  -- A draft whose copy is on the server, and whose row no longer names it, beside the two messages.
  [.discover draftsFolder, .save none composed,
    .setServerCopy ⟨1⟩ (some { remoteId := remoteId ⟨7⟩ 1, uid := 1, uidValidity := ⟨7⟩ }),
    .save (some ⟨1⟩) composed, pulledTwo]

def copyAndOneLeft : Folder :=
  { generation := ⟨7⟩, uidNext := 4, highestModSeq := some 6, messages := [message 1, message 2], named := by decide
    distinct := by decide }

/-- The copy the store refuses stands in the count for the message that is gone, whose row stays. -/
theorem vanished_left_behind : (∀ event ∈ besideCopy, event.Told) ∧
    ¬ ∃ after, (Run.run step empty besideCopy).resync draftsFolder copyAndOneLeft syncedBefore = some after ∧
      Removed ⟨1⟩ copyAndOneLeft (Run.run step empty besideCopy).store after.store := by
  constructor
  next =>
    intro event there
    simp only [besideCopy, List.mem_cons, List.not_mem_nil, or_false] at there
    rcases there with rfl | rfl | rfl | rfl | rfl
    next => trivial
    next => trivial
    next =>
      intro copy same
      cases same
      rfl
    next => trivial
    next => exact pulled_told
  next =>
    rintro ⟨after, done, exact⟩
    have stays : (((Run.run step empty besideCopy).resync draftsFolder copyAndOneLeft syncedBefore).bind (fun after =>
        after.store.get ⟨3⟩)).any (vanished ⟨1⟩ copyAndOneLeft) = true := by decide
    rw [done] at stays
    obtain ⟨row, held, lost⟩ := (Option.any_eq_true _ _).mp stays
    rw [exact.left ⟨3⟩ row held] at lost
    cases lost

end Desk

end Postio.Drafts

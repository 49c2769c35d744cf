import Postio.Account.UidSet
import Postio.Drafts.VanishedRemoved
import Postio.Lib.Groups
import Postio.Lib.Windows

set_option autoImplicit false

namespace Postio

def UidSet.names (set : UidSet) (uid : Uid) : Bool := set.ranges.any (fun range => range.1.val ≤ uid && uid ≤ range.2.val)

namespace Drafts

open Pull

/-! The batches of an enumeration pass, and a pass that is stopped and resumed. -/

/-- What a `FETCH` is asked for. -/
def asked (uids : List Uid) : UidSet := UidSet.fromIter (uids.map (@Fin.ofNat 4294967296 U32.size_ne_zero))

/-- A listing shorter than `EXISTS` is not believed. Its length is taken as a `u32`. -/
def believed (existing : Nat) (listing : Option (List Uid)) : Option (List Uid) :=
  listing.filter (fun uids => !(uids.length % 4294967296 < existing))

def missingUids (coverage : Coverage) (known : List Uid) (highestUid : Uid) (present : Option (List Uid)) : List Uid :=
  Windows.sorted id ((match present with
    | some uids => uids.filter (fun uid => uid ≤ highestUid)
    | none => List.range' 1 highestUid).filter (fun uid => decide (coverage = Coverage.everything) || !known.contains uid))

variable (batches : List (List Uid)) (folder : Folder) (stop : Nat)

def Folder.fetchHeaders (batch : UidSet) : List Pull.FetchedMessage :=
  folder.messages.filter (fun message => batch.names message.uid)

namespace Desk

variable (desk : Desk) (mailbox : Mailbox) (folder : Folder)

def planned (coverage : Coverage) (listing : Option (List Uid)) (batchSize : Nat) : List (List Uid) :=
  Groups.chunks (max batchSize 1) (missingUids coverage (desk.uidsIn mailbox.id folder.generation) (folder.uidNext - 1)
    (believed folder.messages.length listing))

def takeIn (fetched : List Pull.FetchedMessage) : Option Desk :=
  if fetched.isEmpty then some desk else desk.write mailbox (Windows.sorted (fun message => message.uid) fetched)

def takeBatches (batches : List (List Uid)) : Option Desk :=
  batches.foldlM (fun desk batch => desk.takeIn mailbox (folder.fetchHeaders (asked batch))) desk

/-- A pass that is cancelled before the batch of a number, if it has as many. The flag is `complete_full_sync`. -/
def enumeratePass (coverage : Coverage) (listing : Option (List Uid)) (batchSize stop : Nat) : Option (Desk × Bool) :=
  if folder.uidNext - 1 < 1 then some (desk, true)
  else
    (desk.takeBatches mailbox folder ((desk.planned mailbox folder coverage listing batchSize).take stop)).map
      (fun after => (after, decide ((desk.planned mailbox folder coverage listing batchSize).length ≤ stop)))

end Desk

/-! ### What a batch asks for -/

/-- A server that numbers its messages in 32 bits, from one. -/
structure Folder.Narrow (folder : Folder) : Prop where
  numbered : ∀ message ∈ folder.messages, 1 ≤ message.uid
  next : folder.uidNext < 4294967296
  existing : folder.messages.length < 4294967296

theorem asked_names (uids : List Uid) (narrow : ∀ uid ∈ uids, 1 ≤ uid ∧ uid < 4294967296) (uid : Uid) :
    (asked uids).names uid = true <-> uid ∈ uids := by
  have holds := UidSet.fromIter_holds (uids.map (Fin.ofNat 4294967296))
  have covered : ∀ number : U32, number ∈ Intervals.covered (asked uids).ranges <->
      number ∈ (UidSet.Edit.fromIter (uids.map (Fin.ofNat 4294967296))).given := by
    intro number
    exact Set.ext_iff.mp holds.exact number
  have value : ∀ uid ∈ uids, (Fin.ofNat 4294967296 uid).val = uid := fun uid inside => Nat.mod_eq_of_lt (narrow uid inside).2
  unfold UidSet.names
  simp only [List.any_eq_true, Bool.and_eq_true, decide_eq_true_eq]
  constructor
  next =>
    rintro ⟨range, inside, low, high⟩
    have below : uid < 4294967296 := Nat.lt_of_le_of_lt high range.2.isLt
    obtain ⟨among, _⟩ := (covered ⟨uid, below⟩).mp ⟨range, inside, low, high⟩
    obtain ⟨other, there, same⟩ := List.mem_map.mp among
    have equal : other = uid := by
      have values := congrArg Fin.val same
      rwa [value other there] at values
    exact equal ▸ there
  next =>
    intro inside
    have given : Fin.ofNat 4294967296 uid ∈ (UidSet.Edit.fromIter (uids.map (Fin.ofNat 4294967296))).given := by
      refine ⟨List.mem_map_of_mem inside, ?_⟩
      intro zero
      have values := congrArg Fin.val zero
      rw [value uid inside] at values
      exact absurd values (Nat.pos_iff_ne_zero.mp (narrow uid inside).1)
    obtain ⟨range, there, low, high⟩ := (covered _).mpr given
    refine ⟨range, there, ?_, ?_⟩
    next => exact value uid inside ▸ Fin.le_def.mp low
    next => exact value uid inside ▸ Fin.le_def.mp high

/-! ### What a batch leaves in the store -/

def Placed (store : Store) (place : MailboxId × Generation × Uid) : Prop :=
  ∃ id row, store.get id = some row ∧ coordinates row = some place

theorem upsert_placed (mailbox : MailboxId) (folder : Folder) (store next : Store) (mail : Pull.Mail) (shelved : Shelved store)
    (from_ : Held mailbox folder mail) (done : store.upsert mail = some next) (place : MailboxId × Generation × Uid) :
    Placed next place <-> Placed store place ∨ coordinates mail = some place := by
  obtain ⟨uid, -, here, numbered, valid, named⟩ := from_
  have own : coordinates mail = some (mail.mailboxId, folder.generation, uid) :=
    (coordinates_eq_some mail _ _ _).mpr ⟨rfl, valid, numbered⟩
  rcases store.upsert_cases mail next done with ⟨id, row, covers⟩ | fresh
  next =>
    have written : coordinates (Store.written (store.reconciled id mail) row) = coordinates mail := by
      unfold coordinates
      rw [Store.written_server, Store.written_mailboxId]
      rfl
    constructor
    next =>
      rintro ⟨other, later, held, at_⟩
      by_cases on : other = id
      next =>
        subst on
        rw [covers.here] at held
        cases held
        exact .inr (written ▸ at_)
      next => exact .inl ⟨other, later, (covers.others other on) ▸ held, at_⟩
    next =>
      rintro (⟨other, later, held, at_⟩ | at_)
      next =>
        by_cases on : other = id
        next =>
          subst on
          obtain ⟨old, was, place_⟩ :=
            existing_place store mail folder.generation uid shelved.spelled numbered valid named other covers.found
          rw [was] at held
          cases held
          rcases place_ with same | ⟨bare, -⟩
          next => exact ⟨other, _, covers.here, by rw [written, own, ← same, at_]⟩
          next =>
            rw [bare] at at_
            cases at_
        next => exact ⟨other, later, (covers.others other on).trans held, at_⟩
      next => exact ⟨id, _, covers.here, written.trans at_⟩
  next =>
    have inserted : coordinates (Store.inserted mail store.messages.nextId) = coordinates mail := rfl
    constructor
    next =>
      rintro ⟨other, later, held, at_⟩
      by_cases on : other = ⟨store.messages.nextId⟩
      next =>
        subst on
        rw [fresh.here] at held
        cases held
        exact .inr (inserted ▸ at_)
      next => exact .inl ⟨other, later, (fresh.others other on) ▸ held, at_⟩
    next =>
      rintro (⟨other, later, held, at_⟩ | at_)
      next =>
        by_cases on : other = ⟨store.messages.nextId⟩
        next =>
          rw [on, store.get_next] at held
          cases held
        next => exact ⟨other, later, (fresh.others other on).trans held, at_⟩
      next => exact ⟨_, _, fresh.here, inserted.trans at_⟩

theorem upsertAll_placed (mailbox : MailboxId) (folder : Folder) (batch : List Pull.Mail) (store after : Store)
    (shelved : Shelved store) (from_ : ∀ mail ∈ batch, Held mailbox folder mail) (done : store.upsertAll batch = some after)
    (place : MailboxId × Generation × Uid) :
    Placed after place <-> Placed store place ∨ ∃ mail ∈ batch, coordinates mail = some place := by
  induction batch generalizing store with
  | nil =>
    cases done
    simp
  | cons mail rest ih =>
    obtain ⟨next, step, last⟩ := store.upsertAll_cons mail rest after done
    have first := upsert_placed mailbox folder store next mail shelved (from_ mail List.mem_cons_self) step place
    obtain ⟨_, step', kept, _⟩ := filled_upsert mailbox folder store mail shelved (from_ mail List.mem_cons_self)
    cases step.symm.trans step'
    rw [ih next kept (fun other inside => from_ other (List.mem_cons_of_mem _ inside)) last, first]
    simp [or_assoc]

namespace Desk

variable (desk : Desk) (mailbox : Mailbox) (folder : Folder)

theorem uidsIn_placed (mailbox : MailboxId) (generation : Generation) (uid : Uid) :
    uid ∈ desk.uidsIn mailbox generation <-> Placed desk.store (mailbox, generation, uid) := by
  unfold uidsIn
  rw [List.mem_filterMap]
  constructor
  next =>
    rintro ⟨row, inside, numbered⟩
    obtain ⟨member, counts⟩ := List.mem_filter.mp inside
    simp only [counted, Bool.and_eq_true, decide_eq_true_eq] at counts
    exact ⟨row.id, row, desk.store.get_of_mem row member,
      (coordinates_eq_some row _ _ _).mpr ⟨counts.1.1, counts.1.2, numbered⟩⟩
  next =>
    rintro ⟨id, row, held, at_⟩
    obtain ⟨here, valid, numbered⟩ := (coordinates_eq_some row _ _ _).mp at_
    refine ⟨row, List.mem_filter.mpr ⟨desk.store.get_mem id row held, ?_⟩, numbered⟩
    simp [counted, here, valid, numbered]

theorem refuses_retained (message : Pull.FetchedMessage) :
    desk.store.retained (message.intoMessage mailbox.accountId mailbox.id) = !desk.refuses mailbox.id message.remoteId := by
  simp [Store.retained, refuses, FetchedMessage.intoMessage]

def stores (uid : Uid) : Bool :=
  folder.messages.any (fun message => message.uid = uid && !desk.refuses mailbox.id message.remoteId)

/-- What is fetched becomes rows, but for what is refused, and what is refused stays the same. -/
structure Took (mailbox : Mailbox) (folder : Folder) (uids : List Uid) (before after : Desk) : Prop where
  shelved : Shelved after.store
  refuses : after.refuses = before.refuses
  known : ∀ uid, uid ∈ after.uidsIn mailbox.id folder.generation <->
    uid ∈ before.uidsIn mailbox.id folder.generation ∨ uid ∈ uids ∧ before.stores mailbox folder uid = true

theorem took_nothing (uids : List Uid) (shelved : Shelved desk.store)
    (none : ∀ uid ∈ uids, desk.stores mailbox folder uid = false) : Took mailbox folder uids desk desk where
  shelved := shelved
  refuses := rfl
  known := by
    intro uid
    refine ⟨.inl, ?_⟩
    rintro (known | ⟨inside, stored⟩)
    next => exact known
    next => simp [none uid inside] at stored

theorem took_trans (first second : List Uid) (before middle after : Desk)
    (one : Took mailbox folder first before middle) (two : Took mailbox folder second middle after) :
    Took mailbox folder (first ++ second) before after where
  shelved := two.shelved
  refuses := two.refuses.trans one.refuses
  known := by
    have same : middle.stores = before.stores := by
      unfold stores
      rw [one.refuses]
    intro uid
    rw [two.known, one.known, same, List.mem_append]
    tauto

theorem write_took (uids : List Uid) (messages : List Pull.FetchedMessage)
    (shelved : Shelved desk.store)
    (fetched : ∀ message, message ∈ messages <-> message ∈ folder.messages ∧ message.uid ∈ uids) :
    ∃ after, desk.write mailbox messages = some after ∧ Took mailbox folder uids desk after := by
  have held : ∀ message ∈ folder.messages, Held mailbox.id folder (message.intoMessage mailbox.accountId mailbox.id) := by
    intro message there
    obtain ⟨validity, name⟩ := folder.named message there
    exact ⟨message.uid, List.mem_map_of_mem there, rfl, rfl, congrArg some validity, congrArg some name⟩
  obtain ⟨after, done, kept, _⟩ := desk.filled_write mailbox folder messages shelved
    (fun message inside => ((fetched message).mp inside).1)
  refine ⟨after, done, kept, ?_, ?_⟩
  all_goals
    unfold write at done
    obtain ⟨store, wrote, rfl⟩ := Option.map_eq_some_iff.mp done
    unfold Store.upsertBatch at wrote
  next =>
    have snapshots := desk.store.upsertAll_snapshots _ store wrote
    have queue := desk.store.upsertAll_queue _ store wrote
    funext place remoteId
    unfold refuses Store.shadowed
    change (desk.store.ownDraftCopies.contains _ || (store.queue.rows.filterMap _).contains _) = _
    rw [queue]
  next =>
    intro uid
    rw [uidsIn_placed, uidsIn_placed]
    have placed := upsertAll_placed mailbox.id folder _ desk.store store shelved (by
      intro mail inside
      obtain ⟨message, told, rfl⟩ := List.mem_map.mp (List.mem_filter.mp inside).1
      exact held message ((fetched message).mp told).1) wrote (mailbox.id, folder.generation, uid)
    change Placed store _ <-> _
    rw [placed]
    refine or_congr_right ?_
    simp only [stores, List.any_eq_true, Bool.and_eq_true, decide_eq_true_eq]
    constructor
    next =>
      rintro ⟨mail, inside, at_⟩
      obtain ⟨told, keeps⟩ := List.mem_filter.mp inside
      obtain ⟨message, among, rfl⟩ := List.mem_map.mp told
      obtain ⟨there, wanted⟩ := (fetched message).mp among
      have same : message.uid = uid := Option.some.inj ((coordinates_eq_some _ _ _ _).mp at_).2.2
      exact ⟨same ▸ wanted, message, there, same, desk.refuses_retained mailbox message ▸ keeps⟩
    next =>
      rintro ⟨wanted, message, there, rfl, keeps⟩
      obtain ⟨validity, _⟩ := folder.named message there
      refine ⟨_, List.mem_filter.mpr ⟨List.mem_map_of_mem ((fetched message).mpr ⟨there, wanted⟩), ?_⟩, ?_⟩
      next => rw [desk.refuses_retained mailbox message, keeps]
      next => exact (coordinates_eq_some _ _ _ _).mpr ⟨rfl, congrArg some validity, rfl⟩

theorem takeIn_took (batch : List Uid) (shelved : Shelved desk.store)
    (narrow : ∀ uid ∈ batch, 1 ≤ uid ∧ uid < 4294967296) :
    ∃ after, desk.takeIn mailbox (folder.fetchHeaders (asked batch)) = some after ∧ Took mailbox folder batch desk after := by
  have fetched : ∀ message, message ∈ folder.fetchHeaders (asked batch) <-> message ∈ folder.messages ∧ message.uid ∈ batch := by
    intro message
    unfold Folder.fetchHeaders
    rw [List.mem_filter, asked_names batch narrow]
  unfold takeIn
  split
  next empty =>
    refine ⟨desk, rfl, took_nothing desk mailbox folder batch shelved ?_⟩
    intro uid inside
    apply List.any_eq_false.mpr
    intro message there
    simp only [Bool.and_eq_true, decide_eq_true_eq]
    rintro ⟨rfl, _⟩
    have among := (fetched message).mpr ⟨there, inside⟩
    rw [List.isEmpty_iff.mp empty] at among
    cases among
  next =>
    apply write_took desk mailbox folder batch _ shelved
    intro message
    rw [Windows.mem_sorted]
    exact fetched message

theorem takeBatches_took (batches : List (List Uid))
    (shelved : Shelved desk.store) (narrow : ∀ batch ∈ batches, ∀ uid ∈ batch, 1 ≤ uid ∧ uid < 4294967296) :
    ∃ after, desk.takeBatches mailbox folder batches = some after ∧ Took mailbox folder batches.flatten desk after := by
  induction batches generalizing desk with
  | nil => exact ⟨desk, rfl, took_nothing desk mailbox folder [] shelved (fun _ none => absurd none List.not_mem_nil)⟩
  | cons batch batches ih =>
    obtain ⟨middle, first, one⟩ := desk.takeIn_took mailbox folder batch shelved (narrow batch List.mem_cons_self)
    obtain ⟨after, rest, two⟩ := ih middle one.shelved (fun other inside => narrow other (List.mem_cons_of_mem _ inside))
    refine ⟨after, ?_, took_trans mailbox folder batch batches.flatten desk middle after one two⟩
    unfold takeBatches at rest ⊢
    rw [List.foldlM_cons, first]
    exact rest

end Desk

/-! ### What is planned, and what is left of it -/

def Folder.Truthful (listing : Option (List Uid)) : Prop :=
  ∀ uids, listing = some uids -> uids.Nodup ∧ uids ⊆ folder.existingUids

/-- A listing as long as `EXISTS`. -/
def Folder.Listed (listing : Option (List Uid)) : Prop :=
  ∃ uids, listing = some uids ∧ folder.messages.length ≤ uids.length

theorem believed_whole (narrow : folder.Narrow) (listing : Option (List Uid))
    (truthful : folder.Truthful listing) :
    (¬ folder.Listed listing ∧ believed folder.messages.length listing = none) ∨
      folder.Listed listing ∧ ∃ uids, believed folder.messages.length listing = some uids ∧ uids.Nodup ∧
        ∀ uid, uid ∈ uids <-> uid ∈ folder.existingUids := by
  cases listing with
  | none => exact .inl ⟨fun ⟨_, told, _⟩ => absurd told (by simp), rfl⟩
  | some uids =>
    obtain ⟨distinct, within⟩ := truthful uids rfl
    have most : uids.length ≤ folder.existingUids.length := (distinct.subperm within).length_le
    have count : folder.existingUids.length = folder.messages.length := List.length_map _
    have same_length : uids.length % 4294967296 = uids.length := Nat.mod_eq_of_lt (by
      have bound := narrow.existing
      omega)
    unfold believed
    rcases Nat.lt_or_ge uids.length folder.messages.length with short | long
    next =>
      refine .inl ⟨?_, by simp [same_length, short]⟩
      rintro ⟨others, told, enough⟩
      cases told
      omega
    next =>
      have perm := (distinct.subperm within).perm_of_length_le (count ▸ long)
      exact .inr ⟨⟨uids, rfl, long⟩, uids, by simp [same_length, long], distinct, fun uid => perm.mem_iff⟩

def leftOver (stores : Uid -> Bool) : List Uid :=
  batches.flatten.filter (fun uid => !((batches.take stop).flatten.contains uid && stores uid))

theorem mem_leftOver (stores : Uid -> Bool) (uid : Uid) :
    uid ∈ leftOver batches stop stores <->
      uid ∈ batches.flatten ∧ ¬ (uid ∈ (batches.take stop).flatten ∧ stores uid = true) := by
  unfold leftOver
  rw [List.mem_filter, Bool.not_eq_true', ← Bool.not_eq_true, Bool.and_eq_true, List.contains_iff_mem]

theorem leftOver_rest (stores : Uid -> Bool) (apart : batches.flatten.Nodup)
    (all : ∀ uid ∈ (batches.take stop).flatten, stores uid = true) :
    leftOver batches stop stores = (batches.drop stop).flatten := by
  have split : batches.flatten = (batches.take stop).flatten ++ (batches.drop stop).flatten := by
    rw [← List.flatten_append, List.take_append_drop]
  unfold leftOver
  rw [split] at apart ⊢
  generalize (batches.take stop).flatten = committed at all apart ⊢
  have taken : committed.filter (fun uid => !(committed.contains uid && stores uid)) = [] := by
    apply List.filter_eq_nil_iff.mpr
    intro uid inside
    simp [all uid inside, inside]
  have kept : (batches.drop stop).flatten.filter (fun uid => !(committed.contains uid && stores uid)) =
      (batches.drop stop).flatten := by
    apply List.filter_eq_self.mpr
    intro uid inside
    have outside : uid ∉ committed := fun among => (List.nodup_append.mp apart).2.2 uid among uid inside rfl
    simp [outside]
  rw [List.filter_append, taken, kept, List.nil_append]

namespace Desk

variable (desk : Desk) (mailbox : Mailbox) (folder : Folder) (listing : Option (List Uid)) (batchSize : Nat)

theorem planned_flatten (coverage : Coverage) : (desk.planned mailbox folder coverage listing batchSize).flatten =
    missingUids coverage (desk.uidsIn mailbox.id folder.generation) (folder.uidNext - 1)
      (believed folder.messages.length listing) := Groups.chunks_flatten _ _

theorem planned_descending (narrow : folder.Narrow) (truthful : folder.Truthful listing) (coverage : Coverage) :
    Windows.Descending id (desk.planned mailbox folder coverage listing batchSize).flatten := by
  rw [planned_flatten]
  apply Windows.sorted_descending
  rw [List.map_id]
  rcases believed_whole folder narrow listing truthful with ⟨_, told⟩ | ⟨_, uids, told, distinct, _⟩
  next =>
    rw [told]
    exact List.Nodup.filter _ List.nodup_range'
  next =>
    rw [told]
    exact (distinct.filter _).filter _

theorem walked_below (uid next : Nat) (low : 1 ≤ uid) : uid < 1 + (next - 1) <-> uid < next := by omega

theorem ceiling_below (uid next : Nat) (low : 1 ≤ uid) : uid ≤ next - 1 <-> uid < next := by omega

theorem mem_planned (narrow : folder.Narrow) (truthful : folder.Truthful listing) (uid : Uid) :
    uid ∈ (desk.planned mailbox folder .missing listing batchSize).flatten <->
      1 ≤ uid ∧ uid < folder.uidNext ∧ uid ∉ desk.uidsIn mailbox.id folder.generation ∧
        (folder.Listed listing -> uid ∈ folder.existingUids) := by
  rw [planned_flatten]
  unfold missingUids
  rw [Windows.mem_sorted, List.mem_filter]
  have unknown : (decide (Coverage.missing = Coverage.everything) ||
      !(desk.uidsIn mailbox.id folder.generation).contains uid) = true <->
        uid ∉ desk.uidsIn mailbox.id folder.generation := by
    simp
  rw [unknown]
  rcases believed_whole folder narrow listing truthful with ⟨short, told⟩ | ⟨long, uids, told, _, whole⟩
  next =>
    rw [told]
    simp only [List.mem_range'_1]
    constructor
    next =>
      rintro ⟨⟨low, high⟩, out⟩
      exact ⟨low, (walked_below uid folder.uidNext low).mp high, out, fun listed => absurd listed short⟩
    next =>
      rintro ⟨low, high, out, _⟩
      exact ⟨⟨low, (walked_below uid folder.uidNext low).mpr high⟩, out⟩
  next =>
    rw [told]
    simp only [List.mem_filter, decide_eq_true_eq, whole]
    have positive : uid ∈ folder.existingUids -> 1 ≤ uid := by
      intro inside
      obtain ⟨message, there, rfl⟩ := List.mem_map.mp inside
      exact narrow.numbered message there
    constructor
    next =>
      rintro ⟨⟨inside, high⟩, out⟩
      have low := positive inside
      exact ⟨low, (ceiling_below uid folder.uidNext low).mp high, out, fun _ => inside⟩
    next =>
      rintro ⟨low, high, out, present⟩
      exact ⟨⟨present long, (ceiling_below uid folder.uidNext low).mpr high⟩, out⟩

theorem planned_narrow (narrow : folder.Narrow) (truthful : folder.Truthful listing) :
    ∀ batch ∈ desk.planned mailbox folder .missing listing batchSize, ∀ uid ∈ batch, 1 ≤ uid ∧ uid < 4294967296 := by
  intro batch inside uid among
  have there := (desk.mem_planned mailbox folder listing batchSize narrow truthful uid).mp
    (List.mem_flatten.mpr ⟨batch, inside, among⟩)
  exact ⟨there.1, Nat.lt_trans there.2.1 narrow.next⟩

/-- A pass asks for what is missing, in order and in batches, and a pass that is stopped and resumed for what is left. -/
structure Enumerates : Prop where
  sized : ∀ batch ∈ desk.planned mailbox folder .missing listing batchSize, batch ≠ [] ∧ batch.length ≤ max batchSize 1
  descending : (desk.planned mailbox folder .missing listing batchSize).flatten.Pairwise (fun first second => second < first)
  exact : ∀ uid, uid ∈ (desk.planned mailbox folder .missing listing batchSize).flatten <->
    1 ≤ uid ∧ uid < folder.uidNext ∧ uid ∉ desk.uidsIn mailbox.id folder.generation ∧
      (folder.Listed listing -> uid ∈ folder.existingUids)
  fetched : ∀ batch ∈ desk.planned mailbox folder .missing listing batchSize, ∀ message,
    message ∈ folder.fetchHeaders (asked batch) <-> message ∈ folder.messages ∧ message.uid ∈ batch
  -- Stopped before the batch of any number, and resumed.
  resumed : ∀ stop, ∃ after completed,
    desk.enumeratePass mailbox folder .missing listing batchSize stop = some (after, completed) ∧
    (after.planned mailbox folder .missing listing batchSize).flatten =
      leftOver (desk.planned mailbox folder .missing listing batchSize) stop (desk.stores mailbox folder) ∧
    ((∀ uid ∈ ((desk.planned mailbox folder .missing listing batchSize).take stop).flatten,
        desk.stores mailbox folder uid = true) ->
      (after.planned mailbox folder .missing listing batchSize).flatten =
        ((desk.planned mailbox folder .missing listing batchSize).drop stop).flatten) ∧
    (completed = true -> ∀ message ∈ folder.messages, message.uid < folder.uidNext ->
      desk.refuses mailbox.id message.remoteId = false -> message.uid ∈ after.uidsIn mailbox.id folder.generation)

theorem enumeratePass_took (narrow : folder.Narrow) (truthful : folder.Truthful listing) (shelved : Shelved desk.store)
    (stop : Nat) : ∃ after,
      desk.enumeratePass mailbox folder .missing listing batchSize stop =
        some (after, decide ((desk.planned mailbox folder .missing listing batchSize).length ≤ stop)) ∧
      Took mailbox folder ((desk.planned mailbox folder .missing listing batchSize).take stop).flatten desk after := by
  unfold enumeratePass
  split
  next empty =>
    have none : desk.planned mailbox folder .missing listing batchSize = [] := by
      apply List.eq_nil_iff_forall_not_mem.mpr
      intro batch inside
      obtain ⟨filled, _⟩ := Groups.chunks_sized _ (Nat.lt_of_lt_of_le Nat.zero_lt_one (Nat.le_max_right batchSize 1)) _ batch inside
      obtain ⟨uid, among⟩ := List.exists_mem_of_ne_nil batch filled
      have due := (desk.mem_planned mailbox folder listing batchSize narrow truthful uid).mp
        (List.mem_flatten.mpr ⟨batch, inside, among⟩)
      exact absurd ((ceiling_below uid folder.uidNext due.1).mpr due.2.1)
        (Nat.not_le.mpr (Nat.lt_of_lt_of_le empty due.1))
    refine ⟨desk, by simp [none], ?_⟩
    rw [none, List.take_nil]
    exact took_nothing desk mailbox folder [] shelved (fun _ inside => absurd inside List.not_mem_nil)
  next =>
    obtain ⟨after, done, took⟩ := desk.takeBatches_took mailbox folder _ shelved (fun batch inside =>
      desk.planned_narrow mailbox folder listing batchSize narrow truthful batch (List.mem_of_mem_take inside))
    exact ⟨after, by rw [done]; rfl, took⟩

theorem planned_after (narrow : folder.Narrow) (truthful : folder.Truthful listing) (stop : Nat) (after : Desk)
    (took : Took mailbox folder ((desk.planned mailbox folder .missing listing batchSize).take stop).flatten desk after) :
    (after.planned mailbox folder .missing listing batchSize).flatten =
      leftOver (desk.planned mailbox folder .missing listing batchSize) stop (desk.stores mailbox folder) := by
  have before := desk.planned_descending mailbox folder listing batchSize narrow truthful .missing
  have left : Windows.Descending id
      (leftOver (desk.planned mailbox folder .missing listing batchSize) stop (desk.stores mailbox folder)) := before.filter _
  apply Windows.descending_unique id _ _
    (after.planned_descending mailbox folder listing batchSize narrow truthful .missing) left
  intro uid
  rw [mem_leftOver, after.mem_planned mailbox folder listing batchSize narrow truthful uid, took.known uid,
    desk.mem_planned mailbox folder listing batchSize narrow truthful uid]
  constructor
  next =>
    rintro ⟨low, high, out, present⟩
    exact ⟨⟨low, high, fun known => out (.inl known), present⟩, fun stored => out (.inr stored)⟩
  next =>
    rintro ⟨⟨low, high, unknown, present⟩, left⟩
    exact ⟨low, high, fun known => known.elim unknown left, present⟩

/-- In every state that is reached, and whatever the server truly answers, a pass plans what is missing, and a pass that is
stopped and resumed what is left of it. -/
theorem enumerates (events : List Event) (told : ∀ event ∈ events, event.Told) (narrow : folder.Narrow)
    (truthful : folder.Truthful listing) :
    Enumerates (Run.run step empty events) mailbox folder listing batchSize := by
  have shelved : Shelved (Run.run step empty events).store := ⟨apart_run events, spelled_run events told⟩
  generalize Run.run step empty events = desk at shelved
  have descending := desk.planned_descending mailbox folder listing batchSize narrow truthful .missing
  constructor
  next => exact Groups.chunks_sized _ (Nat.lt_of_lt_of_le Nat.zero_lt_one (Nat.le_max_right batchSize 1)) _
  next => exact descending
  next => exact desk.mem_planned mailbox folder listing batchSize narrow truthful
  next =>
    intro batch inside message
    unfold Folder.fetchHeaders
    rw [List.mem_filter,
      asked_names batch (desk.planned_narrow mailbox folder listing batchSize narrow truthful batch inside)]
  next =>
    intro stop
    obtain ⟨after, done, took⟩ := desk.enumeratePass_took mailbox folder listing batchSize narrow truthful shelved stop
    have left := desk.planned_after mailbox folder listing batchSize narrow truthful stop after took
    refine ⟨after, _, done, left, ?_, ?_⟩
    next => exact fun stored => left.trans (leftOver_rest _ stop _ (Windows.descending_nodup id _ descending) stored)
    next =>
      intro completed message there below accepted
      have whole : (desk.planned mailbox folder .missing listing batchSize).take stop =
          desk.planned mailbox folder .missing listing batchSize := List.take_of_length_le (of_decide_eq_true completed)
      have stored : desk.stores mailbox folder message.uid = true :=
        List.any_eq_true.mpr ⟨message, there, by simp [accepted]⟩
      apply (took.known message.uid).mpr
      by_cases known : message.uid ∈ desk.uidsIn mailbox.id folder.generation
      next => exact .inl known
      next =>
        refine .inr ⟨?_, stored⟩
        rw [whole]
        exact (desk.mem_planned mailbox folder listing batchSize narrow truthful message.uid).mpr
          ⟨narrow.numbered message there, below, known, fun _ => List.mem_map_of_mem there⟩

/-! ### The batches and one write of them all -/

def sparse : Folder :=
  { generation := ⟨7⟩, uidNext := 9, highestModSeq := none, messages := [message 2, message 5, message 8], named := by decide
    distinct := by decide }

theorem sparse_narrow : sparse.Narrow := ⟨by decide, by decide, by decide⟩

theorem sparse_enumerates : Enumerates (Run.run step empty [.discover draftsFolder, pulledTwo]) draftsFolder sparse
    (some [8, 2, 5]) 2 := by
  apply enumerates draftsFolder sparse (some [8, 2, 5]) 2 [.discover draftsFolder, pulledTwo] ?_ sparse_narrow
  next =>
    intro uids told
    cases told
    exact ⟨by decide, by decide⟩
  next =>
    intro event there
    rcases List.mem_pair.mp there with rfl | rfl
    next => trivial
    next => exact pulled_told

/-- Without a listing the UIDs of messages that are gone are asked for as well. -/
theorem sparse_walked :
    ¬ ∀ (events : List Event) (mailbox : Mailbox) (folder : Folder) (listing : Option (List Uid)) (batchSize : Nat) (uid : Uid),
      (∀ event ∈ events, event.Told) -> folder.Narrow -> folder.Truthful listing ->
      (uid ∈ ((Run.run step empty events).planned mailbox folder .missing listing batchSize).flatten <->
        uid ∈ folder.existingUids ∧ uid ∉ (Run.run step empty events).uidsIn mailbox.id folder.generation) := by
  intro always
  have exact := always [] draftsFolder sparse none 2 4 (fun _ none => absurd none List.not_mem_nil) sparse_narrow
    (fun uids told => by cases told)
  have planned := (mem_planned (Run.run step empty []) draftsFolder sparse none 2 sparse_narrow
    (fun uids told => by cases told) 4).mpr ⟨by decide, by decide, by decide, fun ⟨_, told, _⟩ => by cases told⟩
  exact absurd (exact.mp planned).1 (by decide)

end Desk

end Drafts

end Postio

import Mathlib.Logic.Function.Basic
import Postio.Lib.Run
import Postio.Store.OperationQueue

set_option autoImplicit false

namespace Postio

/-- The columns of the schema that hold a blob key. -/
inductive BlobColumn where
  | messages
  | messageContents
  | messageContentParts
  | attachments
  | crossAccountMoves
  | contacts
  deriving DecidableEq

/-- Whether `BLOB_REFERENCES` names the column. -/
def BlobColumn.listed : BlobColumn -> Bool
  | .messages | .messageContents | .messageContentParts | .attachments | .crossAccountMoves => true
  | .contacts => false

structure BlobReference where
  column : BlobColumn
  blob : BlobId
  deriving DecidableEq

/-- Content written, whose row is not committed yet. -/
structure Put where
  blob : BlobId
  finishedAt : Instant
  deriving DecidableEq

/-- A `collect_garbage` under way. -/
structure GarbagePass where
  referenced : List BlobId
  -- Nothing the pass knows: content whose row could still be committed when it read, or that was put since.
  awaited : List BlobId
  deriving DecidableEq

structure BlobStore where
  minAge : Nat
  now : Instant
  -- When each stored file was last modified.
  files : BlobId -> Option Instant
  references : List BlobReference
  puts : List Put
  passes : List GarbagePass

namespace BlobStore

def opened (minAge : Nat) (now : Instant) : BlobStore where
  minAge
  now
  files := fun _ => none
  references := []
  puts := []
  passes := []

inductive Event where
  | put (blob : BlobId)
  | commit (put : Nat) (columns : List BlobColumn)
  | forget (reference : BlobReference)
  | collect
  | sweep (pass : Nat) (blob : BlobId)

variable (store : BlobStore) (entry : Nat × Event) (elapsed : Nat)

def finish (blob : BlobId) : BlobStore :=
  -- Content that is stored already is not written again.
  { store with
    files := if (store.files blob).isSome then store.files else Function.update store.files blob (some store.now)
    puts := store.puts ++ [{ blob, finishedAt := store.now }]
    passes := store.passes.map (fun pass => { pass with awaited := blob :: pass.awaited }) }

def commit (put : Nat) (columns : List BlobColumn) : BlobStore :=
  match store.puts[put]? with
  | none => store
  | some written =>
    { store with
      references := store.references ++ columns.map (fun column => { column, blob := written.blob })
      puts := store.puts.eraseIdx put }

def inTime (put : Put) : Bool := store.now ≤ put.finishedAt + store.minAge

def collect : BlobStore :=
  { store with
    passes := store.passes ++
      [{ referenced := (store.references.filter (fun reference => reference.column.listed)).map BlobReference.blob
         awaited := (store.puts.filter store.inTime).map Put.blob }] }

def isOlderThan (modified : Instant) (age : Nat) : Bool := age = 0 || age ≤ store.now - modified

def deletes (pass : GarbagePass) (blob : BlobId) : Bool :=
  !pass.referenced.contains blob && (store.files blob).any (fun modified => store.isOlderThan modified store.minAge)

def sweep (pass : Nat) (blob : BlobId) : BlobStore :=
  match store.passes[pass]? with
  | none => store
  | some running =>
    if store.deletes running blob then { store with files := Function.update store.files blob none } else store

def elapse : BlobStore := { store with now := store.now + elapsed }

def act : Event -> BlobStore
  | .put blob => store.finish blob
  | .commit put columns => store.commit put columns
  | .forget reference => { store with references := store.references.erase reference }
  | .collect => store.collect
  | .sweep pass blob => store.sweep pass blob

def step : BlobStore := (store.elapse entry.1).act entry.2

/-! ### What a pass may take -/

def Timely : Prop :=
  -- A row is committed within `minAge` of the content it names.
  match entry.2 with
  | .commit put _ => ∀ written, store.puts[put]? = some written -> (store.elapse entry.1).inTime written
  | _ => True

def Spared : Prop :=
  -- A pass deletes nothing a contact's photo names, and nothing whose row was still to be committed when it read the
  -- references or whose content was put since.
  match entry.2 with
  | .sweep pass blob => ∀ running, store.passes[pass]? = some running -> (store.elapse entry.1).deletes running blob ->
      blob ∉ running.awaited ∧ { column := .contacts, blob } ∉ store.references
  | _ => True

def Live : Prop := ∀ reference ∈ store.references, (store.files reference.blob).isSome

/-- What a pass has not read it knows to be on its way. -/
structure GarbagePass.Covers (store : BlobStore) (pass : GarbagePass) : Prop where
  committed : ∀ reference ∈ store.references, reference.column.listed ->
    reference.blob ∈ pass.referenced ∨ reference.blob ∈ pass.awaited
  coming : ∀ put ∈ store.puts, store.inTime put -> put.blob ∈ pass.awaited

structure Safe (store : BlobStore) : Prop where
  live : store.Live
  coming : ∀ put ∈ store.puts, store.inTime put -> (store.files put.blob).isSome
  covered : ∀ pass ∈ store.passes, GarbagePass.Covers store pass

theorem opened_safe (minAge : Nat) (now : Instant) : (opened minAge now).Safe where
  live := fun _ member => (by cases member)
  coming := fun _ member => (by cases member)
  covered := fun _ member => (by cases member)

theorem inTime_elapse (put : Put) (inTime : (store.elapse elapsed).inTime put) :
    store.inTime put := by
  have late : store.now + elapsed ≤ put.finishedAt + store.minAge := of_decide_eq_true inTime
  exact decide_eq_true ((Int.le_add_of_nonneg_right (Int.natCast_nonneg elapsed)).trans late)

theorem safe_elapse (safe : store.Safe) : (store.elapse elapsed).Safe where
  live := safe.live
  coming := fun put member inTime => safe.coming put member (store.inTime_elapse elapsed put inTime)
  covered := fun pass member =>
    { committed := (safe.covered pass member).committed
      coming := fun put there inTime =>
        (safe.covered pass member).coming put there (store.inTime_elapse elapsed put inTime) }

theorem safe_finish (blob : BlobId) (safe : store.Safe) : (store.finish blob).Safe := by
  have kept : ∀ other, (store.files other).isSome -> ((store.finish blob).files other).isSome := by
    intro other there
    simp only [finish]
    split
    · exact there
    · by_cases same : other = blob
      · simp [same]
      · simpa [Function.update, same] using there
  have stored : ((store.finish blob).files blob).isSome := by
    simp only [finish]
    split
    next there => exact there
    next => simp
  constructor
  · exact fun reference member => kept _ (safe.live reference member)
  · intro put member inTime
    rcases List.mem_append.mp member with before | new
    · exact kept _ (safe.coming put before inTime)
    · rw [List.mem_singleton.mp new]
      exact stored
  · intro pass member
    obtain ⟨old, there, rfl⟩ := List.mem_map.mp member
    have covers := safe.covered old there
    constructor
    · intro reference committed listed
      exact (covers.committed reference committed listed).imp_right (List.mem_cons_of_mem _)
    · intro put listed inTime
      rcases List.mem_append.mp listed with before | new
      · exact List.mem_cons_of_mem _ (covers.coming put before inTime)
      · rw [List.mem_singleton.mp new]
        exact List.mem_cons_self

theorem safe_commit (put : Nat) (columns : List BlobColumn) (safe : store.Safe)
    (timely : ∀ written, store.puts[put]? = some written -> store.inTime written) : (store.commit put columns).Safe := by
  unfold commit
  cases found : store.puts[put]? with
  | none => exact safe
  | some written =>
    have member := List.mem_of_getElem? found
    have inTime := timely written found
    constructor
    · intro reference committed
      rcases List.mem_append.mp committed with before | new
      · exact safe.live reference before
      · obtain ⟨column, -, rfl⟩ := List.mem_map.mp new
        exact safe.coming written member inTime
    · intro other listed
      exact safe.coming other (List.mem_of_mem_eraseIdx listed)
    · intro pass running
      have covers := safe.covered pass running
      constructor
      · intro reference committed listed
        rcases List.mem_append.mp committed with before | new
        · exact covers.committed reference before listed
        · obtain ⟨column, -, rfl⟩ := List.mem_map.mp new
          exact .inr (covers.coming written member inTime)
      · intro other listed
        exact covers.coming other (List.mem_of_mem_eraseIdx listed)

theorem safe_forget (reference : BlobReference) (safe : store.Safe) :
    Safe { store with references := store.references.erase reference } where
  live := fun other member => safe.live other (List.mem_of_mem_erase member)
  coming := safe.coming
  covered := fun pass running =>
    { committed := fun other member => (safe.covered pass running).committed other (List.mem_of_mem_erase member)
      coming := (safe.covered pass running).coming }

theorem safe_collect (safe : store.Safe) : store.collect.Safe := by
  constructor
  · exact safe.live
  · exact safe.coming
  · intro pass member
    rcases List.mem_append.mp member with before | new
    · exact ⟨(safe.covered pass before).committed, (safe.covered pass before).coming⟩
    · rw [List.mem_singleton.mp new]
      constructor
      · intro reference committed listed
        exact .inl (List.mem_map_of_mem (List.mem_filter.mpr ⟨committed, listed⟩))
      · intro put listed inTime
        exact List.mem_map_of_mem (List.mem_filter.mpr ⟨listed, inTime⟩)

theorem safe_sweep (pass : Nat) (blob : BlobId) (safe : store.Safe)
    (spared : ∀ running, store.passes[pass]? = some running -> store.deletes running blob ->
      blob ∉ running.awaited ∧ { column := .contacts, blob } ∉ store.references) : (store.sweep pass blob).Safe := by
  unfold sweep
  cases found : store.passes[pass]? with
  | none => exact safe
  | some running =>
    by_cases deletes : store.deletes running blob = true
    · simp only [deletes, if_true]
      obtain ⟨unawaited, photo⟩ := spared running found deletes
      have covers := safe.covered running (List.mem_of_getElem? found)
      have unread : blob ∉ running.referenced := by
        simp only [BlobStore.deletes, Bool.and_eq_true, Bool.not_eq_true', List.contains_eq_mem,
          decide_eq_false_iff_not] at deletes
        exact deletes.1
      constructor
      · intro reference committed
        have other : reference.blob ≠ blob := by
          intro same
          by_cases listed : reference.column.listed = true
          · rcases covers.committed reference committed listed with read | awaited
            · exact unread (same ▸ read)
            · exact unawaited (same ▸ awaited)
          · obtain ⟨column, named⟩ := reference
            cases column with
            | contacts => exact photo (same ▸ committed)
            | _ => exact listed rfl
        simpa [Function.update, other] using safe.live reference committed
      · intro put listed inTime
        have other : put.blob ≠ blob := fun same => unawaited (same ▸ covers.coming put listed inTime)
        simpa [Function.update, other] using safe.coming put listed inTime
      · intro other member
        exact ⟨(safe.covered other member).committed, (safe.covered other member).coming⟩
    · simp only [if_neg deletes]
      exact safe

theorem safe_step (safe : store.Safe) (allowed : store.Timely entry ∧ store.Spared entry) : (store.step entry).Safe:= by
  obtain ⟨elapsed, event⟩ := entry
  have later := store.safe_elapse elapsed safe
  cases event with
  | put blob => exact safe_finish _ blob later
  | commit put columns => exact safe_commit _ put columns later allowed.1
  | forget reference => exact safe_forget _ reference later
  | collect => exact safe_collect _ later
  | sweep pass blob => exact safe_sweep _ pass blob later allowed.2

/-- While rows follow their content in time and passes spare what is on its way and what photos name, no committed row
loses its blob. -/
theorem committed_blobs_stay (minAge : Nat) (now : Instant) (events : List (Nat × Event))
    (timely : Run.Along step Timely (opened minAge now) events)
    (spared : Run.Along step Spared (opened minAge now) events) :
    (Run.run step (opened minAge now) events).Live := by
  have both := (Run.along_and step Timely Spared _ events).mpr ⟨timely, spared⟩
  exact (Run.run_invariant step Safe _ safe_step _ events (opened_safe minAge now) both).live

/-! ### Content put again -/

def putAgain : List (Nat × Event) :=
  [(0, .put ⟨7⟩), (0, .commit 0 [.attachments]), (10, .forget { column := .attachments, blob := ⟨7⟩ }),
    (3600000, .put ⟨7⟩), (0, .collect), (0, .sweep 0 ⟨7⟩), (1, .commit 0 [.attachments])]

instance (store : BlobStore) : Decidable store.Live :=
  inferInstanceAs (Decidable (∀ reference ∈ store.references, _))

instance (store : BlobStore) : ∀ entry, Decidable (store.Timely entry)
  | (elapsed, .commit put _) =>
    inferInstanceAs (Decidable (∀ written ∈ store.puts[put]?, (store.elapse elapsed).inTime written = true))
  | (_, .put _) | (_, .forget _) | (_, .collect) | (_, .sweep _ _) => isTrue trivial

instance (store : BlobStore) : ∀ entry, Decidable (store.Spared entry)
  | (elapsed, .sweep pass blob) =>
    inferInstanceAs (Decidable (∀ running ∈ store.passes[pass]?, (store.elapse elapsed).deletes running blob = true ->
      blob ∉ running.awaited ∧ { column := .contacts, blob } ∉ store.references))
  | (_, .put _) | (_, .forget _) | (_, .collect) | (_, .commit _ _) => isTrue trivial

theorem putAgain_lost :
    Run.Along step Timely (opened 3600000 0) putAgain ∧ ¬ (Run.run step (opened 3600000 0) putAgain).Live := by
  constructor
  · decide
  · decide

def swept : List (Nat × Event) :=
  [(0, .put ⟨7⟩), (0, .commit 0 [.messages, .messageContents]), (0, .put ⟨8⟩), (3600001, .collect), (0, .sweep 0 ⟨7⟩),
    (0, .sweep 0 ⟨8⟩)]

theorem swept_live : (Run.run step (opened 3600000 0) swept).Live :=
  committed_blobs_stay 3600000 0 swept (by decide) (by decide)

end BlobStore

end Postio

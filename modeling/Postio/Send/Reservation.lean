import Postio.Lib.Run
import Postio.Send.SendMachine
import Postio.Store.Threading

set_option autoImplicit false

namespace Postio

/-- A draft, as a row or as the copy of one a composer holds: what the `Message-ID` of a send depends on. -/
structure OutgoingDraft where
  state : DraftState
  rfcMessageId : Option RfcMessageId
  deriving DecidableEq

def reservationFor (draft : OutgoingDraft) : Option RfcMessageId :=
  if draft.state = .editing then none else draft.rfcMessageId

def reserveMessageId (draft : OutgoingDraft) (minted : RfcMessageId) : OutgoingDraft :=
  match draft.rfcMessageId with
  | some _ => draft
  | none => { draft with rfcMessageId := some minted }

/-- One draft's row, and the queue. A row that has been issued and deleted does not come back. -/
structure DraftStore where
  row : Option OutgoingDraft
  issued : Bool
  queue : OperationQueue

namespace DraftStore

variable (accountId : AccountId) (draftId : DraftId)

variable (store : DraftStore) (draft : OutgoingDraft) (minted : RfcMessageId) (now : Instant)

def save : Option DraftStore :=
  -- The whole row is written from the copy.
  let written := { draft with rfcMessageId := reservationFor draft }
  match store.row with
  | some _ => some { store with row := some written }
  | none => if store.issued then none else some { store with row := some written, issued := true }

def queueInner (notBefore : Option Instant) : Option DraftStore :=
  (store.save { reserveMessageId draft minted with state := .queued }).map (fun saved =>
    { saved with queue := saved.queue.enqueueInner accountId (.draft draftId) (.send draftId) now notBefore none })

def queueSend : Option DraftStore :=
  queueInner accountId draftId store draft minted now none

def queueSendAt (sendAt : Instant) :
    Option DraftStore :=
  queueInner accountId draftId store draft minted now (some sendAt)

def setState (state : DraftState) : Option DraftStore :=
  store.row.map (fun draft =>
    { store with row := some { state, rfcMessageId := if state = .editing then none else draft.rfcMessageId } })

def cancelSend : Option (CancelSendOutcome × DraftStore) :=
  -- The copy it saves is the one it has just read.
  match store.row with
  | none => some (.notQueued, store)
  | some draft =>
    if draft.state = .sending ∨ draft.state = .sent then some (.alreadyInFlight, store)
    else if draft.state ≠ .queued then some (.notQueued, store)
    else
      match store.queue.pendingFor (.draft draftId) with
      | none => some (.alreadyInFlight, store)
      | some pending =>
        if pending.state ≠ .pending then some (.alreadyInFlight, store)
        else
          (({ store with queue := store.queue.delete pending.id }).save { draft with state := .editing }).map
            (fun saved => (.cancelled, saved))

def failOrphanedSends : DraftStore :=
  match store.row with
  | some { state := .queued, rfcMessageId } =>
    if store.queue.rows.any (fun row => SendWorld.isSend draftId row && row.unsettled) then store
    else { store with row := some { state := .failed, rfcMessageId } }
  | _ => store

def delete : DraftStore := { store with row := none }

def attempt (store : DraftStore) (generated : RfcMessageId) : Option RfcMessageId :=
  -- The `Message-ID` an attempt is built with, where the drainer builds one.
  store.row.bind (fun draft =>
    match draft.state with
    | .editing | .queued | .failed => some (draft.rfcMessageId.getD generated)
    | .sending | .sent | .unconfirmed => none)

end DraftStore

/-- What can happen to a draft. A `Message-ID` is minted or generated at random, and `elsewhere` is whatever else becomes of
the queue. -/
inductive DraftEvent where
  | save (draft : OutgoingDraft)
  | queueSend (draft : OutgoingDraft) (minted : RfcMessageId) (now : Instant)
  | queueSendAt (draft : OutgoingDraft) (minted : RfcMessageId) (now sendAt : Instant)
  | setState (state : DraftState)
  | cancelSend
  | failOrphanedSends
  | delete
  | attempt (generated : RfcMessageId)
  | elsewhere (queue : OperationQueue)

structure DraftWorld where
  store : DraftStore
  series : Option (List RfcMessageId)

namespace DraftWorld

variable (accountId : AccountId) (draftId : DraftId)

def initial (queue : OperationQueue) : DraftWorld :=
  { store := { row := none, issued := false, queue }, series := none }

variable (world : DraftWorld) (store after : DraftStore) (draft : OutgoingDraft) (minted : RfcMessageId)

def settle : DraftWorld :=
  -- A series ends where the draft is editable again, or gone.
  { store := after
    series :=
      match after.row with
      | none => none
      | some draft => if draft.state = .editing then none else world.series }

def queued : Option DraftStore -> DraftWorld
  | none => world
  | some after => { store := after, series := some (world.series.getD []) }

def next : DraftEvent -> DraftWorld
  | .save draft => world.settle ((world.store.save draft).getD world.store)
  | .queueSend draft minted now => world.queued (world.store.queueSend accountId draftId draft minted now)
  | .queueSendAt draft minted now sendAt =>
    world.queued (world.store.queueSendAt accountId draftId draft minted now sendAt)
  | .setState state => world.settle ((world.store.setState state).getD world.store)
  | .cancelSend => world.settle (((world.store.cancelSend draftId).map Prod.snd).getD world.store)
  | .failOrphanedSends => world.settle (world.store.failOrphanedSends draftId)
  | .delete => world.settle world.store.delete
  | .attempt generated =>
    { world with
      series := world.series.map (fun used => used ++ (world.store.attempt generated).toList) }
  | .elsewhere queue => { world with store := { world.store with queue } }

def Bare : Prop :=
  ∀ draft, world.store.row = some draft -> draft.state = .editing -> draft.rfcMessageId = none

def OneId : Prop :=
  ∀ used, world.series = some used -> ∀ first ∈ used, ∀ second ∈ used, first = second

/-- A copy that is queued, or saved in a state other than editing, carries the reservation the row has. -/
def Carries : DraftEvent -> Prop
  | .save draft =>
    ∀ row reserved, world.store.row = some row -> row.rfcMessageId = some reserved ->
      draft.state = .editing ∨ draft.rfcMessageId = some reserved
  | .queueSend draft _ _ | .queueSendAt draft _ _ _ =>
    ∀ row reserved, world.store.row = some row -> row.rfcMessageId = some reserved ->
      draft.rfcMessageId = some reserved
  | _ => True

def Held : Prop :=
  ∀ used, world.series = some used -> ∃ row reserved, world.store.row = some row ∧ row.state ≠ .editing ∧
    row.rfcMessageId = some reserved ∧ ∀ id ∈ used, id = reserved

theorem save_row (saved : store.save draft = some after) :
    after.row = some { draft with rfcMessageId := reservationFor draft } := by
  unfold DraftStore.save at saved
  dsimp only at saved
  cases held : store.row with
  | some row =>
    rw [held] at saved
    cases saved
    rfl
  | none =>
    rw [held] at saved
    dsimp only at saved
    split at saved
    next => cases saved
    next =>
      cases saved
      rfl

theorem reserveMessageId_named : (reserveMessageId draft minted).rfcMessageId = some (draft.rfcMessageId.getD minted):= by
  unfold reserveMessageId
  cases held : draft.rfcMessageId with
  | none => rfl
  | some reserved => exact held

theorem queueInner_row (now : Instant)
    (notBefore : Option Instant) (done : store.queueInner accountId draftId draft minted now notBefore = some after) :
    after.row = some { state := .queued, rfcMessageId := some (draft.rfcMessageId.getD minted) } := by
  obtain ⟨saved, written, rfl⟩ := Option.map_eq_some_iff.mp done
  have row := save_row store saved _ written
  change saved.row = _
  rw [row]
  change some ({ state := .queued, rfcMessageId := (reserveMessageId draft minted).rfcMessageId } : OutgoingDraft) = _
  rw [reserveMessageId_named]

theorem settle_held (held : Held world)
    (kept : ∀ row reserved, world.store.row = some row -> row.rfcMessageId = some reserved -> ∀ draft,
      after.row = some draft -> draft.state = .editing ∨ draft.rfcMessageId = some reserved) :
    Held (world.settle after) := by
  -- A row that is left, or editable, or holds the reservation it held.
  intro used open'
  unfold settle at open' ⊢
  dsimp only at open' ⊢
  cases left : after.row with
  | none =>
    rw [left] at open'
    cases open'
  | some draft =>
    rw [left] at open'
    dsimp only at open'
    by_cases editable : draft.state = .editing
    next =>
      rw [if_pos editable] at open'
      cases open'
    next =>
      rw [if_neg editable] at open'
      obtain ⟨row, reserved, there, -, carries, all⟩ := held used open'
      exact ⟨draft, reserved, rfl, editable, (kept row reserved there carries draft left).resolve_left editable, all⟩

theorem queueInner_held (now : Instant) (notBefore : Option Instant) (held : Held world)
    (carries : ∀ row reserved, world.store.row = some row -> row.rfcMessageId = some reserved ->
      draft.rfcMessageId = some reserved) :
    Held (world.queued (world.store.queueInner accountId draftId draft minted now notBefore)) := by
  cases done : world.store.queueInner accountId draftId draft minted now notBefore with
  | none => exact held
  | some after =>
    intro used opened
    have row := queueInner_row accountId draftId world.store after draft minted now notBefore done
    refine ⟨_, draft.rfcMessageId.getD minted, row, by simp, rfl, fun id member => ?_⟩
    cases before : world.series with
    | none =>
      unfold queued at opened
      rw [before] at opened
      cases opened
      cases member
    | some earlier =>
      unfold queued at opened
      rw [before] at opened
      cases opened
      obtain ⟨old, reserved, there, -, named, all⟩ := held earlier before
      rw [carries old reserved there named]
      exact all id member

theorem cancelSend_cases : ((store.cancelSend draftId).map Prod.snd).getD store = store ∨
      ∃ (before : DraftStore) (draft : OutgoingDraft), before.save { draft with state := .editing } =
        some (((store.cancelSend draftId).map Prod.snd).getD store) := by
  obtain ⟨row, issued, queue⟩ := store
  unfold DraftStore.cancelSend
  cases row with
  | none => exact .inl rfl
  | some draft =>
    dsimp only
    split
    next => exact .inl rfl
    next =>
      split
      next => exact .inl rfl
      next =>
        cases queue.pendingFor (.draft draftId) with
        | none => exact .inl rfl
        | some pending =>
          dsimp only
          split
          next => exact .inl rfl
          next =>
            exact .inr ⟨{ row := some draft, issued, queue := queue.delete pending.id }, draft, rfl⟩

theorem failOrphanedSends_cases :
    store.failOrphanedSends draftId = store ∨
      ∃ draft, store.row = some draft ∧
        (store.failOrphanedSends draftId).row = some { draft with state := .failed } := by
  unfold DraftStore.failOrphanedSends
  cases store.row with
  | none => exact .inl rfl
  | some draft =>
    obtain ⟨state, rfcMessageId⟩ := draft
    cases state with
    | queued =>
      dsimp only
      split
      next => exact .inl rfl
      next => exact .inr ⟨_, rfl, rfl⟩
    | editing => exact .inl rfl
    | sending => exact .inl rfl
    | sent => exact .inl rfl
    | failed => exact .inl rfl
    | unconfirmed => exact .inl rfl

theorem attempt_reserved (generated : RfcMessageId) (row : OutgoingDraft) (reserved : RfcMessageId)
    (there : store.row = some row) (named : row.rfcMessageId = some reserved) (id : RfcMessageId)
    (used : store.attempt generated = some id) : id = reserved := by
  -- Where the row is reserved, nothing is generated.
  unfold DraftStore.attempt at used
  rw [there, Option.bind_some, named, Option.getD_some] at used
  cases state : row.state with
  | editing => exact (Option.some.inj (by simpa [state] using used)).symm
  | queued => exact (Option.some.inj (by simpa [state] using used)).symm
  | failed => exact (Option.some.inj (by simpa [state] using used)).symm
  | sending => simp [state] at used
  | sent => simp [state] at used
  | unconfirmed => simp [state] at used

theorem next_held (event : DraftEvent) (held : Held world) (carries : Carries world event) :
    Held (world.next accountId draftId event) := by
  cases event with
  | save draft =>
    apply settle_held world _ held
    intro row reserved there named after left
    cases saved : world.store.save draft with
    | none =>
      rw [saved] at left
      cases there.symm.trans left
      exact .inr named
    | some store =>
      rw [saved, Option.getD_some, save_row world.store store draft saved] at left
      cases left
      rcases carries row reserved there named with editable | same
      next => exact .inl editable
      next =>
        by_cases editable : draft.state = .editing
        next => exact .inl editable
        next => exact .inr ((if_neg editable).trans same)
  | queueSend draft minted now => exact queueInner_held accountId draftId world draft minted now none held carries
  | queueSendAt draft minted now sendAt =>
    exact queueInner_held accountId draftId world draft minted now (some sendAt) held carries
  | setState state =>
    apply settle_held world _ held
    intro row reserved there named after left
    unfold DraftStore.setState at left
    rw [there] at left
    cases left
    by_cases editable : state = .editing
    next => exact .inl editable
    next => exact .inr ((if_neg editable).trans named)
  | cancelSend =>
    apply settle_held world _ held
    intro row reserved there named after left
    rcases cancelSend_cases draftId world.store with same | ⟨store, draft, saved⟩
    next =>
      rw [same] at left
      cases there.symm.trans left
      exact .inr named
    next =>
      cases (save_row store _ _ saved).symm.trans left
      exact .inl rfl
  | failOrphanedSends =>
    apply settle_held world _ held
    intro row reserved there named after left
    rcases failOrphanedSends_cases draftId world.store with same | ⟨old, before, now⟩
    next =>
      rw [same] at left
      cases there.symm.trans left
      exact .inr named
    next =>
      cases there.symm.trans before
      cases now.symm.trans left
      exact .inr named
  | delete =>
    apply settle_held world _ held
    intro row reserved there named after left
    cases left
  | attempt generated =>
    intro used opened
    obtain ⟨earlier, before, rfl⟩ := Option.map_eq_some_iff.mp opened
    obtain ⟨row, reserved, there, state, named, all⟩ := held earlier before
    refine ⟨row, reserved, there, state, named, fun id member => ?_⟩
    rcases List.mem_append.mp member with old | new
    next => exact all id old
    next =>
      rw [Option.mem_toList] at new
      exact attempt_reserved world.store generated row reserved there named id new
  | elsewhere queue => exact held

/-! ### Every run -/

theorem save_bare (saved : store.save draft = some after)
    (row : OutgoingDraft) (there : after.row = some row) (editable : row.state = .editing) :
    row.rfcMessageId = none := by
  cases (save_row store after draft saved).symm.trans there
  exact if_pos editable

theorem next_bare (event : DraftEvent) (bare : Bare world) :
    Bare (world.next accountId draftId event) := by
  have queues : ∀ (draft : OutgoingDraft) (minted : RfcMessageId) (now : Instant) (notBefore : Option Instant),
      Bare (world.queued (world.store.queueInner accountId draftId draft minted now notBefore)) := by
    intro draft minted now notBefore
    cases done : world.store.queueInner accountId draftId draft minted now notBefore with
    | none => exact bare
    | some after =>
      intro row there editable
      cases (queueInner_row accountId draftId world.store after draft minted now notBefore done).symm.trans there
      cases editable
  cases event with
  | save draft =>
    intro row there editable
    change ((world.store.save draft).getD world.store).row = some row at there
    cases saved : world.store.save draft with
    | none =>
      rw [saved] at there
      exact bare row there editable
    | some after =>
      rw [saved] at there
      exact save_bare world.store after draft saved row there editable
  | queueSend draft minted now => exact queues draft minted now none
  | queueSendAt draft minted now sendAt => exact queues draft minted now (some sendAt)
  | setState state =>
    intro row there editable
    change ((world.store.setState state).getD world.store).row = some row at there
    unfold DraftStore.setState at there
    cases held : world.store.row with
    | none =>
      rw [held] at there
      exact bare row there editable
    | some draft =>
      rw [held] at there
      cases there
      exact if_pos editable
  | cancelSend =>
    intro row there editable
    change (((world.store.cancelSend draftId).map Prod.snd).getD world.store).row = some row at there
    rcases cancelSend_cases draftId world.store with same | ⟨store, draft, saved⟩
    next =>
      rw [same] at there
      exact bare row there editable
    next => exact save_bare store _ _ saved row there editable
  | failOrphanedSends =>
    intro row there editable
    change (world.store.failOrphanedSends draftId).row = some row at there
    rcases failOrphanedSends_cases draftId world.store with same | ⟨old, -, now⟩
    next =>
      rw [same] at there
      exact bare row there editable
    next =>
      cases now.symm.trans there
      cases editable
  | delete =>
    intro row there editable
    cases there
  | attempt generated => exact bare
  | elsewhere queue => exact bare

/-- An editable draft is never reserved; and where no copy is queued or saved but with the reservation the row has, every
attempt from a queueing to the return to editing uses one id. -/
theorem reservation_consistent (queue : OperationQueue) :
    (∀ events, Bare (Run.run (next accountId draftId) (initial queue) events)) ∧
      ∀ events, Run.Along (next accountId draftId) Carries (initial queue) events ->
        OneId (Run.run (next accountId draftId) (initial queue) events) := by
  constructor
  next =>
    have all : ∀ (events : List DraftEvent) (world : DraftWorld), Bare world ->
        Bare (Run.run (next accountId draftId) world events) := by
      intro events
      induction events with
      | nil => exact fun world bare => bare
      | cons event rest ih =>
        exact fun world bare => ih (world.next accountId draftId event) (next_bare accountId draftId world event bare)
    exact fun events => all events (initial queue) (fun draft there => nomatch there)
  next =>
    intro events carries
    have held := Run.run_invariant (next accountId draftId) Held Carries (next_held accountId draftId) (initial queue)
      events (fun used opened => (nomatch opened)) carries
    intro used opened first one second other
    obtain ⟨-, reserved, -, -, -, all⟩ := held used opened
    exact (all first one).trans (all second other).symm

def sentFromOldCopy : List DraftEvent :=
  -- Refused once, and sent again from a copy that was taken before the first time.
  [.save { state := .editing, rfcMessageId := none },
    .queueSend { state := .editing, rfcMessageId := none } ['a'] 0,
    .attempt ['x'],
    .setState .failed,
    .queueSend { state := .editing, rfcMessageId := none } ['b'] 1,
    .attempt ['y']]

theorem old_copy_second_id :
    ¬ OneId (Run.run (next ⟨1⟩ ⟨7⟩) (initial OperationQueue.empty) sentFromOldCopy) := by
  intro one
  have same := one [['a'], ['b']] (by decide) ['a'] (by decide) ['b'] (by decide)
  cases same

def sentAgain : List DraftEvent :=
  -- Refused once, and sent again as it stands.
  [.save { state := .editing, rfcMessageId := none },
    .queueSend { state := .editing, rfcMessageId := none } ['a'] 0,
    .attempt ['x'],
    .setState .failed,
    .queueSend { state := .failed, rfcMessageId := some ['a'] } ['b'] 1,
    .attempt ['y']]

theorem sent_again_one_id :
    OneId (Run.run (next ⟨1⟩ ⟨7⟩) (initial OperationQueue.empty) sentAgain) := by
  apply (reservation_consistent ⟨1⟩ ⟨7⟩ OperationQueue.empty).2
  unfold sentAgain
  refine ⟨fun row reserved there named => (nomatch there), fun row reserved there named => ?_, trivial, trivial,
    fun row reserved there named => ?_, trivial, trivial⟩
  next =>
    cases there
    cases named
  next =>
    cases there
    cases named
    rfl

end DraftWorld

end Postio

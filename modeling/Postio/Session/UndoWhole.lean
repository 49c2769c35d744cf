import Postio.Core.UndoStack
import Postio.Lib.Commits
import Postio.Session.Undo

set_option autoImplicit false

namespace Postio.Actions

open Commits Replay

/-! What Undo does with the newest unit, whichever verbs its inverse is made of: `act` runs one of them on the mail and the rest
of the store. -/

variable {Rest Kind Command : Type}

abbrev Everything (Rest : Type) := Contended (MailStore × Rest) CommandError

def onMail {Result : Type} (run : World -> Result × World) (world : Everything Rest) : Result × Everything Rest :=
  let (outcome, next) := run { state := world.state.1, troubles := world.troubles }
  (outcome, { state := (next.state, world.state.2), troubles := next.troubles })

def withdrawMoves (now : Instant) (messages : List MessageId) (world : Everything Rest) :
    Except CommandError Bool × Everything Rest :=
  -- The sagas are asked for on a read turn first. Nearly every undo has none.
  match commit (fun store => .ok (store, (store.1.forSources messages).isEmpty)) world with
  | (.error error, next) => (.error error, next)
  | (.ok true, next) => (.ok false, next)
  | (.ok false, next) => onMail (cancelCrossAccountMoves now messages) next

variable (act : Command -> Everything Rest -> Except CommandError Unit × Everything Rest) (now : Instant)

def replayInverse : List Command -> Everything Rest -> Except CommandError Unit × Everything Rest
  | [], world => (.ok (), world)
  | command :: rest, world =>
    match act command world with
    | (.error error, next) => (.error error, next)
    | (.ok _, next) => replayInverse rest next

variable (entry : Core.UndoEntry Kind Command)

def takeBack (world : Everything Rest) :
    Except CommandError Unit × Everything Rest :=
  match withdrawMoves now entry.messages world with
  | (.error error, next) => (.error error, next)
  | (.ok true, next) => (.ok (), next)
  | (.ok false, next) => replayInverse act entry.inverse next

/-- Undo at a time of the stack's own clock. -/
def undoNewest {policy : Core.Policy} (tick : Nat) (stack : Core.UndoStack Kind Command policy) (world : Everything Rest) :
    Except CommandError Unit × Core.UndoStack Kind Command policy × Everything Rest :=
  -- The unit is taken off the stack before anything is tried.
  match stack.undoAt tick with
  | (none, rest) => (.error (.rejected "Nothing to undo"), rest, world)
  | (some entry, rest) =>
    let (outcome, next) := takeBack act now entry world
    (outcome, rest, next)

def mailVerb (app : AppState) (focusOn : Bool) (command : Postio.Command) (world : Everything Rest) :
    Except CommandError Unit × Everything Rest :=
  let (outcome, next) := onMail (Actions.act app focusOn now command) world
  (outcome.map (fun _ => ()), next)

/-! ### What there is to take back -/

/-- A unit's ways back: the moves to other accounts it started, and its inverse commands. -/
inductive WayBack (Command : Type) where
  | moves (messages : List MessageId)
  | command (command : Command)
  deriving DecidableEq

def waysBack : List (WayBack Command) :=
  .moves entry.messages :: entry.inverse.map .command

/-- A move withdrawn is the last way back that is gone. -/
def goBack : Run (MailStore × Rest) CommandError (WayBack Command)
  | .moves messages, world => withdrawMoves now messages world
  | .command command, world =>
    match act command world with
    | (.error error, next) => (.error error, next)
    | (.ok _, next) => (.ok false, next)

/-- Undo takes back the whole of the newest unit or leaves the unit and the store alone, and it reports no unit of which
nothing was taken back. -/
structure AllOrNothing {policy : Core.Policy} (tick : Nat) (stack : Core.UndoStack Kind Command policy)
    (world : Everything Rest) : Prop where
  whole : ∀ entry, (stack.undoAt tick).1 = some entry ->
    NothingLeft (goBack act now) ((waysBack entry).drop (passed (goBack act now) (waysBack entry) world).length)
        (undoNewest act now tick stack world).2.2.state ∨
      (undoNewest act now tick stack world).2.2.state = world.state ∧
        (undoNewest act now tick stack world).2.1.entries = (stack.prune tick).entries
  honest : (undoNewest act now tick stack world).1 = .ok () -> ∃ entry, (stack.undoAt tick).1 = some entry ∧
    Changes (goBack act now) (waysBack entry) world

/-- A move's saga can be taken back or walked the other way. -/
def Withdraws (saga : CrossAccountMove) : Prop :=
  match saga.phase with
  | .copying | .confirmed => True
  | .done => (sagaEnds saga).isSome
  | .unconfirmed | .aborted => False

instance (saga : CrossAccountMove) : Decidable (Withdraws saga) := by
  unfold Withdraws
  split <;> infer_instance

/-- When a unit is taken back whole, told from the store and from what it will answer. -/
def TakenWhole (world : Everything Rest) : Prop :=
  let sagas := world.state.1.forSources entry.messages
  let commands : List (WayBack Command) := entry.inverse.map .command
  let asked : Everything Rest := { world with troubles := world.troubles.tail }
  match world.troubles.head?.join with
  | some _ => NothingLeft (goBack act now) (waysBack entry) world.state
  | none =>
    if sagas = [] then Unhindered (goBack act now) commands asked ∧ ¬ Idle (goBack act now) commands asked
    else
      match asked.troubles.head?.join, undoSagas now sagas world.state.1 with
      | some _, _ => NothingLeft (goBack act now) (waysBack entry) world.state
      | none, .error _ | none, .ok (_, 0) => NothingLeft (goBack act now) commands world.state
      -- The commands of a unit that has sagas too are never run.
      | none, .ok (after, _ + 1) =>
        (∃ saga ∈ sagas, Withdraws saga) ∧ NothingLeft (goBack act now) commands (after, world.state.2)

end Postio.Actions

namespace Postio

namespace MailStore

variable (store : MailStore)

def settledMoves : Nat :=
  store.sagas.countP (fun saga => saga.phase = .aborted) + store.nextSaga

@[simp]
theorem withdrawPending_settled (message : Option MessageId) :
    (store.withdrawPending message).settledMoves = store.settledMoves := by
  cases message <;> rfl

@[simp]
theorem setDeletedLocally_settled (ids : List MessageId) (deleted : Bool) :
    (store.setDeletedLocally ids deleted).settledMoves = store.settledMoves := rfl

@[simp]
theorem deleteMessage_settled (id : MessageId) : (store.deleteMessage id).settledMoves = store.settledMoves := by
  simp only [settledMoves, deleteMessage, List.countP_map]
  rfl

theorem transition_settled (after : MailStore) (id : CrossAccountMoveId)
    (done : store.transition id .aborted = some after) : store.settledMoves < after.settledMoves := by
  unfold transition at done
  split at done
  next => cases done
  next current found =>
    split at done
    next allowed =>
      cases done
      -- The saga found is still open, and none that is aborted is opened.
      have named : current.id = id := by simpa using List.find?_some found
      have unsettled : current.phase ≠ .aborted := by
        intro aborted
        rw [aborted] at allowed
        cases allowed
      obtain ⟨before, rest, apart⟩ := List.append_of_mem (List.mem_of_find?_eq_some found)
      have kept : ∀ sagas : List CrossAccountMove, sagas.countP (fun saga => saga.phase = .aborted) ≤
          (sagas.map (fun saga => if saga.id = id then { saga with phase := .aborted } else saga)).countP
            (fun saga => saga.phase = .aborted) := by
        intro sagas
        rw [List.countP_map]
        refine List.countP_mono_left (fun saga _ aborted => ?_)
        by_cases same : saga.id = id <;> simp_all
      have early := kept before
      have late := kept rest
      simp only [settledMoves, apart, List.map_append, List.map_cons, named, if_true, List.countP_append, List.countP_cons,
        unsettled, decide_false, decide_true, Bool.false_eq_true, if_false]
      omega
    next => cases done

end MailStore

namespace Actions

open Commits Replay MailStore

theorem cancelOne_settled (store after : MailStore) (saga : CrossAccountMove) (done : cancelOne store saga = .ok after) :
    store.settledMoves < after.settledMoves := by
  unfold cancelOne at done
  extract_lets withdrawn dropped shown at done
  have either : ∀ (message : Option MessageId) (base : MailStore) (change : MessageId -> MailStore),
      (∀ id, (change id).settledMoves = base.settledMoves) -> (message.elim base change).settledMoves = base.settledMoves := by
    intro message base change kept
    cases message with
    | none => rfl
    | some id => exact kept id
  have same : shown.settledMoves = store.settledMoves := by
    have first : withdrawn.settledMoves = store.settledMoves := by simp [withdrawn]
    have second : dropped.settledMoves = withdrawn.settledMoves := either _ _ _ (fun id => by simp)
    have third : shown.settledMoves = dropped.settledMoves := either _ _ _ (fun id => by simp)
    rw [third, second, first]
  cases moved : shown.transition saga.id .aborted with
  | none =>
    rw [moved] at done
    cases done
  | some last =>
    rw [moved] at done
    cases done
    rw [← same]
    exact shown.transition_settled _ saga.id moved

theorem startInverse_settled (now : Instant) (ends : SagaEnds) (store : MailStore) :
    store.settledMoves < (startInverse now ends store).settledMoves := by
  unfold startInverse
  extract_lets inverse created
  have sagas : created.settledMoves = store.settledMoves + 1 := by
    simp [created, settledMoves, Nat.add_assoc]
  have same : ∀ base : MailStore, ∀ account message operation,
      (base.enqueue account message operation now).settledMoves = base.settledMoves := fun _ _ _ _ => rfl
  rw [setDeletedLocally_settled, setDeletedLocally_settled, same, same, sagas]
  exact Nat.lt_succ_self _

theorem invertOne_settled (now : Instant) (store after : MailStore) (saga : CrossAccountMove)
    (done : invertOne now store saga = .ok after) :
    if (sagaEnds saga).isSome then store.settledMoves < after.settledMoves else after = store := by
  unfold invertOne at done
  cases found : sagaEnds saga with
  | none =>
    rw [found] at done
    cases done
    simp
  | some ends =>
    rw [found] at done
    dsimp only at done
    split at done
    next => cases done
    next =>
      split at done
      next => cases done
      next =>
        cases done
        simpa using startInverse_settled now ends store

theorem undoSaga_settled (now : Instant) (store after : MailStore) (saga : CrossAccountMove) (undone : Bool)
    (done : undoSaga now store saga = .ok (after, undone)) :
    if Withdraws saga then store.settledMoves < after.settledMoves else after = store := by
  unfold undoSaga at done
  unfold Withdraws
  split at done
  next phase =>
    cases taken : cancelOne store saga with
    | error error =>
      rw [taken] at done
      cases done
    | ok last =>
      rw [taken] at done
      cases done
      simpa [phase] using cancelOne_settled store _ saga taken
  next phase =>
    cases done
    simp [phase]
  next phase =>
    split at done
    next => cases done
    next aborted moved =>
      have less := transition_settled _ aborted saga.id moved
      rw [withdrawPending_settled] at less
      cases taken : invertOne now aborted saga with
      | error error =>
        rw [taken] at done
        cases done
      | ok last =>
        rw [taken] at done
        cases done
        have onward := invertOne_settled now aborted _ saga taken
        simp only [phase, if_true]
        split at onward
        next => omega
        next => rw [onward]; exact less
  next phase =>
    cases taken : invertOne now store saga with
    | error error =>
      rw [taken] at done
      cases done
    | ok last =>
      rw [taken] at done
      cases done
      simpa [phase] using invertOne_settled now store _ saga taken
  next phase =>
    cases done
    simp [phase]

theorem undoSagas_settled (now : Instant) (sagas : List CrossAccountMove) (store after : MailStore) (undone : Nat)
    (done : undoSagas now sagas store = .ok (after, undone)) :
    if ∃ saga ∈ sagas, Withdraws saga then store.settledMoves < after.settledMoves else after = store := by
  induction sagas generalizing store undone with
  | nil =>
    cases done
    simp
  | cons saga rest ih =>
    simp only [undoSagas] at done
    cases first : undoSaga now store saga with
    | error error =>
      rw [first] at done
      cases done
    | ok answer =>
      rw [first] at done
      cases others : undoSagas now rest answer.1 with
      | error error =>
        simp only [bind, Except.bind, others] at done
        cases done
      | ok last =>
        simp only [bind, Except.bind, others] at done
        cases done
        have head := undoSaga_settled now store answer.1 saga answer.2 first
        have tail := ih answer.1 last.2 others
        by_cases here : Withdraws saga <;> by_cases later : ∃ saga ∈ rest, Withdraws saga
        all_goals
          simp only [here, later, if_true, if_false, List.exists_mem_cons_iff, true_or, false_or] at head tail ⊢
        next => omega
        next => rwa [tail]
        next => rwa [head] at tail
        next => rw [tail, head]

theorem undoSagas_changed (now : Instant) (sagas : List CrossAccountMove) (store after : MailStore) (undone : Nat)
    (done : undoSagas now sagas store = .ok (after, undone)) : after ≠ store <-> ∃ saga ∈ sagas, Withdraws saga := by
  have settled := undoSagas_settled now sagas store after undone done
  split at settled
  next some =>
    refine ⟨fun _ => some, fun _ same => ?_⟩
    rw [same] at settled
    exact Nat.lt_irrefl _ settled
  next none => exact ⟨fun changed => absurd settled changed, fun some => absurd some none⟩

/-! ### The withdrawal of a unit's moves -/

variable {Rest Kind Command : Type}

theorem withdrawMoves_unread (now : Instant) (messages : List MessageId) (world : Everything Rest) (error : CommandError)
    (troubled : world.troubles.head?.join = some error) :
    withdrawMoves now messages world = (.error error, { world with troubles := world.troubles.tail }) := by
  simp only [withdrawMoves, commit, troubled]

theorem withdrawMoves_none (now : Instant) (messages : List MessageId) (world : Everything Rest)
    (calm : world.troubles.head?.join = none) (none : world.state.1.forSources messages = []) :
    withdrawMoves now messages world = (.ok false, { world with troubles := world.troubles.tail }) := by
  simp only [withdrawMoves, commit, calm, none, List.isEmpty_nil]

/-- How the withdrawal of a unit's sagas ends. -/
inductive Withdrawal (now : Instant) (messages : List MessageId) (world : Everything Rest) :
    Except CommandError Bool × Everything Rest -> Prop
  | unwritten (error : CommandError) (next : Everything Rest) (troubled : world.troubles.tail.head?.join = some error)
      (same : next.state = world.state) : Withdrawal now messages world (.error error, next)
  | refused (error refusal : CommandError) (next : Everything Rest) (calm : world.troubles.tail.head?.join = none)
      (stopped : undoSagas now (world.state.1.forSources messages) world.state.1 = .error error)
      (same : next.state = world.state) : Withdrawal now messages world (.error refusal, next)
  | nothing (after : MailStore) (refusal : CommandError) (next : Everything Rest)
      (calm : world.troubles.tail.head?.join = none)
      (none : undoSagas now (world.state.1.forSources messages) world.state.1 = .ok (after, 0))
      (same : next.state = world.state) : Withdrawal now messages world (.error refusal, next)
  | undone (after : MailStore) (count : Nat) (next : Everything Rest) (calm : world.troubles.tail.head?.join = none)
      (some : undoSagas now (world.state.1.forSources messages) world.state.1 = .ok (after, count + 1))
      (moved : next.state = (after, world.state.2)) : Withdrawal now messages world (.ok true, next)

theorem withdrawMoves_some (now : Instant) (messages : List MessageId) (world : Everything Rest)
    (calm : world.troubles.head?.join = none) (some : world.state.1.forSources messages ≠ []) :
    Withdrawal now messages world (withdrawMoves now messages world) := by
  have filled : (world.state.1.forSources messages).isEmpty = false := by simpa using some
  have asked : withdrawMoves now messages world =
      onMail (cancelCrossAccountMoves now messages) { world with troubles := world.troubles.tail } := by
    simp only [withdrawMoves, commit, calm, filled]
  rw [asked]
  simp only [onMail, cancelCrossAccountMoves, filled, Bool.false_eq_true, if_false, commit]
  cases troubled : world.troubles.tail.head?.join with
  | some error => exact .unwritten error _ troubled rfl
  | none =>
    dsimp only
    cases taken : undoSagas now (world.state.1.forSources messages) world.state.1 with
    | error error => exact .refused error error _ troubled taken rfl
    | ok answer =>
      obtain ⟨after, count⟩ := answer
      cases count with
      | zero => exact .nothing after _ _ troubled taken rfl
      | succ count => exact .undone after count _ troubled taken rfl

variable (act : Command -> Everything Rest -> Except CommandError Unit × Everything Rest) (now : Instant)

@[simp]
theorem goBack_moves (messages : List MessageId) (world : Everything Rest) :
    goBack act now (.moves messages) world = withdrawMoves now messages world := rfl

theorem moves_work (messages : List MessageId) (state : MailStore × Rest) :
    HasWork (goBack act now) (.moves messages) state <-> state.1.forSources messages ≠ [] ∧ ∃ after count,
      undoSagas now (state.1.forSources messages) state.1 = .ok (after, count + 1) ∧ after ≠ state.1 := by
  rw [HasWork, goBack_moves]
  by_cases none : state.1.forSources messages = []
  case pos =>
    rw [withdrawMoves_none now messages { state, troubles := [] } rfl none]
    simp [none]
  case neg =>
    have ends := withdrawMoves_some now messages { state, troubles := [] } rfl none
    generalize withdrawMoves now messages { state, troubles := [] } = answer at ends
    cases ends with
    | unwritten error next troubled same => cases troubled
    | refused error refusal next calm stopped same =>
      dsimp only at stopped same ⊢
      simp [same, stopped]
    | nothing after refusal next calm none same =>
      dsimp only at none same ⊢
      simp [same, none]
    | undone after count next calm some moved =>
      dsimp only at some moved ⊢
      rw [moved]
      refine ⟨fun changed => ⟨none, after, count, some, fun same => changed (Prod.ext same rfl)⟩, ?_⟩
      rintro ⟨-, other, more, found, changed⟩ same
      rw [some] at found
      cases found
      exact changed (congrArg Prod.fst same)

/-! ### Undo, exactly -/

theorem replayInverse_play (commands : List Command) (world : Everything Rest) :
    replayInverse act commands world = play (goBack act now) (commands.map .command) world := by
  induction commands generalizing world with
  | nil => rfl
  | cons command rest ih =>
    rw [replayInverse, List.map_cons, play, goBack]
    cases act command world with
    | mk outcome next =>
      cases outcome with
      | error error => rfl
      | ok _ => exact ih next

theorem takeBack_play (entry : Core.UndoEntry Kind Command) (world : Everything Rest) :
    takeBack act now entry world = play (goBack act now) (waysBack entry) world := by
  rw [takeBack, waysBack, play, goBack]
  cases withdrawMoves now entry.messages world with
  | mk outcome next =>
    cases outcome with
    | error error => rfl
    | ok last =>
      cases last with
      | true => rfl
      | false => exact replayInverse_play act now entry.inverse next

theorem takenWhole_iff (entry : Core.UndoEntry Kind Command) (world : Everything Rest) :
    TakenWhole act now entry world <->
      Unhindered (goBack act now) (waysBack entry) world ∧ ¬ Idle (goBack act now) (waysBack entry) world := by
  unfold TakenWhole waysBack
  extract_lets sagas commands asked
  rw [Unhindered, Idle, goBack]
  cases unread : world.troubles.head?.join with
  | some error =>
    rw [withdrawMoves_unread now entry.messages world error unread]
    simp
  | none =>
    by_cases none : sagas = []
    case pos =>
      rw [withdrawMoves_none now entry.messages world unread none]
      simp [none, commands, asked]
    case neg =>
      have ends := withdrawMoves_some now entry.messages world unread none
      have moves := moves_work act now entry.messages world.state
      generalize withdrawMoves now entry.messages world = answer at ends
      dsimp only
      rw [if_neg none]
      cases ends with
      | unwritten error next troubled same => simp only [asked, troubled, same, not_false_eq_true, and_true]
      | refused error refusal next calm stopped same =>
        have spent : ¬ HasWork (goBack act now) (.moves entry.messages) world.state := by simp [moves, stopped]
        simp only [asked, calm, sagas, stopped, same, NothingLeft, List.forall_mem_cons, spent, not_false_eq_true, true_and,
          and_true, commands]
      | nothing after refusal next calm none same =>
        have spent : ¬ HasWork (goBack act now) (.moves entry.messages) world.state := by simp [moves, none]
        simp only [asked, calm, sagas, none, same, NothingLeft, List.forall_mem_cons, spent, not_false_eq_true, true_and,
          and_true, commands]
      | undone after count next calm some moved =>
        have changed := undoSagas_changed now sagas world.state.1 after (count + 1) some
        have same : (after, world.state.2) = world.state <-> after = world.state.1 :=
          ⟨fun same => congrArg Prod.fst same, fun same => Prod.ext same rfl⟩
        simp only [asked, calm, sagas, some, moved, same, commands]
        rw [and_comm, ← changed]

variable {policy : Core.Policy} (tick : Nat) (stack : Core.UndoStack Kind Command policy)

theorem undoNewest_some (world : Everything Rest) (entry : Core.UndoEntry Kind Command) (newest : (stack.undoAt tick).1 = some entry) :
    undoNewest act now tick stack world =
      ((takeBack act now entry world).1, (stack.undoAt tick).2, (takeBack act now entry world).2) := by
  unfold undoNewest
  split
  next found =>
    rw [found] at newest
    cases newest
  next found =>
    rw [found] at newest
    cases newest
    rw [found]

theorem undoAt_shorter (entry : Core.UndoEntry Kind Command) (newest : (stack.undoAt tick).1 = some entry) :
    (stack.undoAt tick).2.entries ≠ (stack.prune tick).entries := by
  intro same
  have filled : (stack.prune tick).entries ≠ [] := by
    intro empty
    simp [Core.UndoStack.undoAt, empty] at newest
  have shorter : (stack.undoAt tick).2.entries.length = (stack.prune tick).entries.length - 1 := List.length_dropLast
  have length := List.length_pos_iff.mpr filled
  rw [same] at shorter
  omega

def unreadTwice : Core.UndoStack UndoKind Postio.Command Core.Policy.new :=
  ((Core.UndoStack.empty _ _ _).recordAt (.new .markUnread [⟨1⟩] [.toggleRead (.messages [⟨1⟩]) (some false)]) 0).recordAt
    (.new .markUnread [⟨2⟩] [.toggleRead (.messages [⟨2⟩]) (some false)]) 500

def busyTwice : Everything Unit := { state := (twoAccounts, ()), troubles := [none, none, some (.failed storeBusy)] }

end Actions

end Postio

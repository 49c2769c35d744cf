import Postio.Session.Command
import Postio.Lib.Run
import Mathlib.Data.List.Forall2
import Mathlib.Tactic.ByContra
import Mathlib.Tactic.Push

set_option autoImplicit false

namespace Postio

inductive AccountScope where
  | account (account : AccountId)
  | unified
  deriving DecidableEq

def AccountScope.accountId : AccountScope -> Option AccountId
  | .account id => some id
  | .unified => none

def ViewScope.mailboxId : ViewScope -> Option MailboxId
  | .mailbox id => some id
  | .flagged _ | .unified _ | .focus _ => none

inductive ViewMode where
  | list
  | conversation (thread : ThreadId)
  | reader (message : MessageId)
  | composer (draft : DraftId)
  deriving DecidableEq

inductive Context where
  | list
  | conversation
  | reader
  | composer
  deriving DecidableEq

namespace ViewMode

def context : ViewMode -> Context
  | .list => .list
  | .conversation _ => .conversation
  | .reader _ => .reader
  | .composer _ => .composer

def composing : ViewMode -> Option DraftId
  | .composer draft => some draft
  | _ => none

end ViewMode

inductive Event where
  | messageListChanged (account : AccountId) (mailbox : MailboxId)
  | composerClosed (draft : DraftId)
  | composerOpened (draft : DraftId)
  | viewChanged (view : ViewMode)
  | contextChanged (context : Context)
  | selectionChanged (selection : Selection)
  deriving DecidableEq

namespace Selection

def isEmpty : Selection -> Bool
  | .these messages => messages.isEmpty
  | .everything _ => false

def contains (selection : Selection) (message : MessageId) : Bool :=
  match selection with
  | .these messages => messages.contains message
  | .everything excepted => !excepted.contains message

def toggle (selection : Selection) (message : MessageId) : Selection :=
  match selection with
  | .these messages =>
    .these (if messages.contains message then messages.erase message else messages ++ [message])
  -- Inside the predicate, toggling edits the exceptions.
  | .everything excepted =>
    .everything (if excepted.contains message then excepted.erase message else excepted ++ [message])

def insert (selection : Selection) (message : MessageId) : Selection :=
  if selection.contains message then selection else selection.toggle message

end Selection

structure Frame where
  view : ViewMode
  selected : Selection
  focus : Option MessageId
  deriving DecidableEq

/-- All of app state: what a verb is aimed with, and the view and the steps that led to it. -/
structure Navigation extends AppState where
  scope : AccountScope
  view : ViewMode
  back : List Frame
  deriving DecidableEq

namespace Navigation

def maxBackDepth : Nat := 32

def new (scope : AccountScope) : Navigation :=
  { selected := .these [], viewing := none, focus := none, scope, view := .list, back := [] }

variable (state : Navigation)

def clearPosition : Navigation := { state with selected := .these [], focus := none }

def forget {Step : Type} (steps : List Step) : List Step :=
  if maxBackDepth < steps.length then steps.eraseIdx 1 else steps

def push (view : ViewMode) : Navigation :=
  { state with
    view
    back := forget (state.back ++ [{ view := state.view, selected := state.selected, focus := state.focus }]) }

def diff (next : Navigation) : List Event :=
  -- The events a change caused, read off the difference.
  (if state.viewing ≠ next.viewing then
    match next.viewing.bind ViewScope.mailboxId, next.scope.accountId with
    | some mailbox, some account => [.messageListChanged account mailbox]
    | _, _ => []
  else []) ++
  (if state.view ≠ next.view then
    (match state.view.composing with
      | some draft => if next.view.composing ≠ some draft then [.composerClosed draft] else []
      | none => []) ++
    (match next.view.composing with
      | some draft => if state.view.composing ≠ some draft then [.composerOpened draft] else []
      | none => []) ++
    [.viewChanged next.view] ++
    (if state.view.context ≠ next.view.context then [.contextChanged next.view.context] else [])
  else []) ++
  (if state.selected ≠ next.selected ∨ state.focus ≠ next.focus then [.selectionChanged next.selected] else [])

inductive Mutation where
  | openMailbox (mailbox : MailboxId)
  | openFlagged (account : AccountId)
  | openView (scope : ViewScope)
  | select (messages : List MessageId) (focus : Option MessageId)
  | toggleSelection (message : MessageId)
  | extendSelectionTo (message : MessageId)
  | selectAll
  | focusOn (message : Option MessageId)
  | clearSelection
  | openConversation (thread : ThreadId)
  | openMessage (message : MessageId)
  | openComposer (draft : DraftId)
  | back
  deriving DecidableEq

def openView (scope : ViewScope) : Navigation :=
  if state.viewing = some scope then state else { state with viewing := some scope }.clearPosition

def goBack : Navigation :=
  match state.back.getLast? with
  | none => state
  | some frame =>
    { state with view := frame.view, selected := frame.selected, focus := frame.focus, back := state.back.dropLast }

def mutate : Mutation -> Navigation
  | .openMailbox mailbox => state.openView (.mailbox mailbox)
  | .openFlagged account => state.openView (.flagged account)
  | .openView scope => state.openView scope
  | .select messages focus => { state with selected := .these messages, focus }
  | .toggleSelection message => { state with selected := state.selected.toggle message }
  | .extendSelectionTo message => { state with selected := state.selected.insert message, focus := some message }
  | .selectAll => { state with selected := .everything [] }
  | .focusOn message => { state with focus := message }
  | .clearSelection => state.clearPosition
  | .openConversation thread => state.push (.conversation thread)
  -- What the reader is showing is the selection.
  | .openMessage message => { state.push (.reader message) with selected := .these [message], focus := some message }
  | .openComposer draft => state.push (.composer draft)
  | .back => state.goBack

def commit (mutation : Mutation) : Navigation × List Event :=
  (state.mutate mutation, state.diff (state.mutate mutation))

theorem commit_silent (mutation : Mutation) (silent : (state.commit mutation).2 = []) :
    (state.commit mutation).1.view = state.view ∧ (state.commit mutation).1.selected = state.selected ∧
      (state.commit mutation).1.focus = state.focus := by
  -- A commit that emits nothing changed neither the view, the selection nor the focused row.
  simp only [commit, diff, List.append_eq_nil_iff] at silent ⊢
  obtain ⟨⟨-, view⟩, selection⟩ := silent
  have sameView : state.view = (state.mutate mutation).view := by
    by_contra changed
    simp [changed] at view
  have kept : ¬ (state.selected ≠ (state.mutate mutation).selected ∨ state.focus ≠ (state.mutate mutation).focus) := by
    intro changed
    rw [if_pos changed] at selection
    cases selection
  push Not at kept
  exact ⟨sameView.symm, kept.1.symm, kept.2.symm⟩

end Navigation

open Navigation

/-! Which view each selection was made in, the ones kept on the back stack included. -/

/-- Where a frame's selection was made, and where the list was when the frame was pushed. -/
structure Mark where
  madeIn : Option ViewScope
  pushedIn : Option ViewScope
  deriving DecidableEq

structure Marked where
  state : Navigation
  madeIn : Option ViewScope
  marks : List Mark
  deriving DecidableEq

namespace Marked

def new (scope : AccountScope) : Marked := { state := .new scope, madeIn := none, marks := [] }

variable (marked : Marked) (mutation : Mutation)

/-- A selection is made by what sets it, or adds the first row to none; a row more or less leaves it where it was made. -/
def madeBy : Mutation -> Option ViewScope
  | .toggleSelection _ | .extendSelectionTo _ =>
    if marked.state.selected.isEmpty then marked.state.viewing else marked.madeIn
  | .select _ _ | .selectAll | .clearSelection | .openMessage _ => marked.state.viewing
  | .back => marked.marks.getLast?.elim marked.madeIn Mark.madeIn
  | _ => marked.madeIn

def pushed : List Mark :=
  forget (marked.marks ++ [{ madeIn := marked.madeIn, pushedIn := marked.state.viewing }])

def step : Marked where
  state := marked.state.mutate mutation
  madeIn := marked.madeBy mutation
  marks :=
    match mutation with
    | .openConversation _ | .openMessage _ | .openComposer _ => marked.pushed
    | .back => marked.marks.dropLast
    | _ => marked.marks

def OfView : Prop :=
  -- What a command aimed at the selection acts on was selected in the view it acts in.
  match marked.state.resolve .selection with
  | some (.everything scope _) => marked.madeIn = some scope
  | some (.messages messages) => marked.state.selected = .these messages -> marked.madeIn = marked.state.viewing
  | _ => True

def BackInView : Prop :=
  mutation = .back -> ∀ frame ∈ marked.state.back.getLast?, ∀ mark ∈ marked.marks.getLast?,
    frame.selected.isEmpty = false -> mark.pushedIn = marked.state.viewing

/-- Every selection held was made where it was pushed, the current one in the current view. -/
structure Faithful (marked : Marked) : Prop where
  current : marked.state.selected.isEmpty = false -> marked.madeIn = marked.state.viewing
  held : List.Forall₂ (fun frame mark => frame.selected.isEmpty = false -> mark.madeIn = mark.pushedIn)
    marked.state.back marked.marks

theorem forall₂_eraseIdx {First Second : Type} (related : First -> Second -> Prop) (first : List First)
    (second : List Second) (all : List.Forall₂ related first second) (index : Nat) :
    List.Forall₂ related (first.eraseIdx index) (second.eraseIdx index) := by
  induction all generalizing index with
  | nil => simp
  | cons head tail ih =>
    cases index with
    | zero => exact tail
    | succ index => exact .cons head (ih index)

theorem forall₂_forget {First Second : Type} (related : First -> Second -> Prop) (first : List First)
    (second : List Second) (all : List.Forall₂ related first second) :
    List.Forall₂ related (forget first) (forget second) := by
  unfold forget
  rw [all.length_eq]
  split
  · exact forall₂_eraseIdx related first second all 1
  · exact all

theorem faithful_pushed (faithful : Faithful marked) (view : ViewMode) :
    List.Forall₂ (fun frame mark => frame.selected.isEmpty = false -> mark.madeIn = mark.pushedIn)
      (marked.state.push view).back marked.pushed := by
  apply forall₂_forget
  exact List.rel_append faithful.held (.cons faithful.current .nil)

theorem faithful_openView (faithful : Faithful marked) (scope : ViewScope) (made : Option ViewScope)
    (kept : made = marked.madeIn) :
    Faithful { state := marked.state.openView scope, madeIn := made, marks := marked.marks } := by
  subst kept
  unfold openView
  split
  · exact ⟨faithful.current, faithful.held⟩
  · exact ⟨fun some => by simp [clearPosition, Selection.isEmpty] at some, faithful.held⟩

theorem faithful_toggled (faithful : Faithful marked) :
    (if marked.state.selected.isEmpty then marked.state.viewing else marked.madeIn) = marked.state.viewing := by
  -- A row more or less keeps a selection that is there, and starts one that is not.
  cases empty : marked.state.selected.isEmpty with
  | true => rfl
  | false => exact faithful.current empty

theorem faithful_step (faithful : Faithful marked)
    (inView : BackInView marked mutation) : Faithful (marked.step mutation) := by
  cases mutation with
  | openMailbox | openFlagged | openView => exact faithful_openView marked faithful _ _ rfl
  | select | selectAll | clearSelection => exact ⟨fun _ => rfl, faithful.held⟩
  | toggleSelection | extendSelectionTo => exact ⟨fun _ => faithful_toggled marked faithful, faithful.held⟩
  | focusOn => exact ⟨faithful.current, faithful.held⟩
  | openConversation | openComposer => exact ⟨faithful.current, faithful_pushed marked faithful _⟩
  | openMessage message => exact ⟨fun _ => rfl, faithful_pushed marked faithful (.reader message)⟩
  | back =>
    have held := faithful.held
    have within := inView rfl
    rcases List.eq_nil_or_concat' marked.state.back with empty | ⟨frames, frame, frameSame⟩
    · rw [empty] at held
      have none : marked.marks = [] := by
        cases same : marked.marks with
        | nil => rfl
        | cons => rw [same] at held; cases held
      have stays : marked.step .back = marked := by
        obtain ⟨state, madeIn, marks⟩ := marked
        simp only at empty none
        subst none
        simp [step, mutate, goBack, madeBy, empty]
      rw [stays]
      exact faithful
    · rcases List.eq_nil_or_concat' marked.marks with empty | ⟨marks, mark, markSame⟩
      · rw [empty, frameSame] at held
        have length := held.length_eq
        simp at length
      · rw [frameSame, markSame] at held within
        have both := List.forall₂_reverse_iff.mpr held
        simp only [List.reverse_append, List.reverse_cons, List.reverse_nil, List.nil_append, List.singleton_append,
          List.forall₂_cons, List.forall₂_reverse_iff] at both
        obtain ⟨made, others⟩ := both
        refine ⟨fun some => ?_, ?_⟩
        · simp only [step, mutate, goBack, madeBy, frameSame, markSame, List.getLast?_concat] at some ⊢
          exact (made some).trans (within frame (by simp) mark (by simp) some)
        · simpa only [step, mutate, goBack, frameSame, markSame, List.getLast?_concat, List.dropLast_concat] using others

theorem faithful_ofView (faithful : Faithful marked) : OfView marked := by
  -- A faithful selection is one of the view it is in.
  simp only [OfView, AppState.resolve]
  cases same : marked.state.selected with
  | everything excepted =>
    cases viewing : marked.state.viewing with
    | none => trivial
    | some scope => exact (faithful.current (by rw [same]; rfl)).trans viewing
  | these messages =>
    cases messages with
    | nil =>
      cases focus : marked.state.focus with
      | none => trivial
      | some message => simp
    | cons first rest => exact fun _ => faithful.current (by rw [same]; rfl)

theorem ofView_current (ofView : OfView marked) (unopened : marked.state.viewing = none -> marked.madeIn = none) :
    marked.state.selected.isEmpty = false -> marked.madeIn = marked.state.viewing := by
  -- The other way: a selection out of its view is seen, once the list has one.
  intro some
  simp only [OfView, AppState.resolve] at ofView
  cases same : marked.state.selected with
  | everything excepted =>
    rw [same] at ofView
    cases viewing : marked.state.viewing with
    | none => exact unopened viewing
    | some scope =>
      rw [viewing] at ofView
      exact ofView
  | these messages =>
    rw [same] at ofView some
    cases messages with
    | nil => cases some
    | cons first rest => exact ofView rfl

def Unopened : Prop :=
  marked.state.viewing = none -> marked.madeIn = none ∧ ∀ mark ∈ marked.marks, mark.madeIn = none

theorem mem_forget {Step : Type} (steps : List Step) (step : Step) (member : step ∈ forget steps) : step ∈ steps := by
  unfold forget at member
  split at member
  · exact List.mem_of_mem_eraseIdx member
  · exact member

theorem unopened_step (unopened : Unopened marked) :
    Unopened (marked.step mutation) := by
  have opened : ∀ scope, Unopened
      { state := marked.state.openView scope, madeIn := marked.madeIn, marks := marked.marks } := by
    intro scope
    unfold openView
    split
    · exact unopened
    · intro none
      cases none
  have pushed : marked.state.viewing = none -> ∀ mark ∈ marked.pushed, mark.madeIn = none := by
    intro none mark member
    rcases List.mem_append.mp (mem_forget _ mark member) with inside | same
    · exact (unopened none).2 mark inside
    · rw [List.mem_singleton.mp same]
      exact (unopened none).1
  cases mutation with
  | openMailbox | openFlagged | openView => exact opened _
  | select | selectAll | clearSelection => exact fun none => ⟨none, (unopened none).2⟩
  | focusOn => exact unopened
  | toggleSelection | extendSelectionTo =>
    refine fun none => ⟨?_, (unopened none).2⟩
    simp only [step, madeBy]
    split
    · exact none
    · exact (unopened none).1
  | openConversation | openComposer => exact fun none => ⟨(unopened none).1, pushed none⟩
  | openMessage => exact fun none => ⟨none, pushed none⟩
  | back =>
    intro none
    have before : marked.state.viewing = .none := by
      simp only [step, mutate, goBack] at none
      split at none <;> exact none
    refine ⟨?_, fun mark member => (unopened before).2 mark (List.mem_of_mem_dropLast member)⟩
    simp only [step, madeBy]
    cases last : marked.marks.getLast? with
    | none => exact (unopened before).1
    | some mark => exact (unopened before).2 mark (List.mem_of_getLast? last)

theorem backInView_of_ofView (faithful : Faithful marked)
    (unopened : Unopened marked) (after : OfView (marked.step mutation)) : BackInView marked mutation := by
  -- A step back out of view is seen at once: what it gives back was selected elsewhere.
  rintro rfl frame top mark topMark some
  have made : (marked.step .back).madeIn = (marked.step .back).state.viewing := by
    refine ofView_current (marked.step .back) after (fun none => (unopened_step marked .back unopened none).1) ?_
    simp only [step, mutate, goBack, Option.mem_def.mp top]
    exact some
  have pushedIn : mark.madeIn = mark.pushedIn := by
    obtain ⟨frames, frameSame⟩ := List.getLast?_eq_some_iff.mp top
    obtain ⟨marks, markSame⟩ := List.getLast?_eq_some_iff.mp topMark
    have held := faithful.held
    rw [frameSame, markSame] at held
    have both := List.forall₂_reverse_iff.mpr held
    simp only [List.reverse_append, List.reverse_cons, List.reverse_nil, List.nil_append, List.singleton_append,
      List.forall₂_cons] at both
    exact both.1 some
  simp only [step, mutate, goBack, madeBy, Option.mem_def.mp top, Option.mem_def.mp topMark] at made
  exact pushedIn.symm.trans made

/-- No selection is acted on out of the view it was made in, exactly when no step back is taken in another view than
the one it was stepped out of. -/
theorem of_view_iff_back_in_view (scope : AccountScope) (mutations : List Mutation) :
    (∀ earlier, earlier <+: mutations -> OfView (Run.run step (new scope) earlier)) <->
      Run.Along step BackInView (new scope) mutations := by
  have initial : Faithful (new scope) ∧ Unopened (new scope) :=
    ⟨⟨fun some => (by cases some), .nil⟩, fun _ => ⟨rfl, fun _ member => (by cases member)⟩⟩
  constructor
  · intro every
    have along : ∀ (marked : Marked) (mutations : List Mutation), Faithful marked -> Unopened marked ->
        (∀ earlier, earlier <+: mutations -> OfView (Run.run step marked earlier)) ->
          Run.Along step BackInView marked mutations := by
      intro marked mutations faithful unopened every
      induction mutations generalizing marked with
      | nil => trivial
      | cons mutation rest ih =>
        have here := backInView_of_ofView marked mutation faithful unopened (every [mutation] (by simp))
        refine ⟨here, ih (marked.step mutation) (faithful_step marked mutation faithful here)
          (unopened_step marked mutation unopened) (fun earlier early => ?_)⟩
        exact every (mutation :: earlier) (List.cons_prefix_cons.mpr ⟨rfl, early⟩)
    exact along (new scope) mutations initial.1 initial.2 every
  · rintro along earlier ⟨rest, rfl⟩
    have before := ((Run.along_append step BackInView (new scope) earlier rest).mp along).1
    exact faithful_ofView _ (Run.run_invariant step Faithful BackInView
      (fun marked mutation faithful inView => faithful_step marked mutation faithful inView) (new scope) earlier
        initial.1 before)

/-- Everything of folder 1 is selected and a conversation opened; then folder 2, and back. -/
theorem everything_carried_to_another_folder :
    ¬ OfView (Run.run step (new .unified)
      [.openMailbox ⟨1⟩, .selectAll, .openConversation ⟨7⟩, .openMailbox ⟨2⟩, .back]) := by
  intro ofView
  have made : some (ViewScope.mailbox ⟨1⟩) = some (ViewScope.mailbox ⟨2⟩) := ofView
  cases made

end Marked

end Postio

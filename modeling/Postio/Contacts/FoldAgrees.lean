import Mathlib.Algebra.Order.Ring.Int
import Mathlib.Data.List.Induction
import Postio.Contacts.Sightings

set_option autoImplicit false

namespace Postio.Sightings

open ContactSync Newest Run

variable (setting : Setting)

/-! ### When the fold counts as recording does -/

def laterName (held : Option (Int × Option Text)) (date : Int) (name : Option Text) : Int × Option Text :=
  match held with
  | none => (date, name)
  | some (last, kept) => (max last date, if last ≤ date then name.or kept else kept)

def recordedName (address : AddressKey) (messages : List Stored) : Option (Int × Option Text) :=
  messages.foldl (fun held message => (seenOn setting address message).elim held
    (fun seen => some (laterName held message.date (headerName setting seen.address)))) none

def mailOf (address : AddressKey) (account : AccountId) (messages : List Stored) : List Stored :=
  (messages.filter (mentions setting address)).filter (fun message => message.account = account)

/-- The history counts for an address by the fold as it would by recording each message for its own account. -/
structure Folds (mine : AddressKey -> Bool) (address : AddressKey) (history : List Stored) : Prop where
  counted : ∀ message ∈ history, mentions setting address message = true -> ∃ seen, seenOn setting address message = some seen ∧
    seen.written = writtenBy setting mine address message ∧ seen.sender = sentBy setting address message
  dated : ∀ message ∈ history, mentions setting address message = true -> sqlMonth message.date = monthKey message.date
  named : ∀ account, newestName setting address (mailOf setting address account history) =
    (recordedName setting address (mailOf setting address account history)).bind Prod.snd

def Joins (address : AddressKey) (message : Stored) (seen : Seen) (history : List Stored) : Prop :=
  ∀ last name, recordedName setting address (mailOf setting address message.account history) = some (last, name) ->
    last ≤ message.date ∨ headerName setting seen.address = none ∨ headerName setting seen.address = name

/-- Whatever history a step folds counts as recording it would. -/
def Agreeing (state : State) : Event -> Prop
  | .store _ => True
  | .record message =>
    ∀ seen ∈ correspondents setting (ownOf setting message.account) message,
      state.owned (normalized setting seen.address) = false -> normalized setting seen.address ∈ state.addresses ->
        setting.historyThrough ≠ 0 ->
          Folds setting (givenOwn setting (ownOf setting message.account)) (normalized setting seen.address)
              (history setting state) ∧
            Joins setting (normalized setting seen.address) message seen (history setting state)
  | .adopt address =>
    state.owned (normalized setting address) = false -> everyOwn setting (normalized setting address) = false ->
      setting.historyThrough ≠ 0 ->
        Folds setting (everyOwn setting) (normalized setting address) (history setting state)
  | .catchUp before limit =>
    setting.historyThrough ≠ 0 -> ∀ address ∈ (unowned setting before state).take limit,
      Folds setting (everyOwn setting) address (history setting state)

def Promised (state : State) : Event -> Prop
  | .store message => setting.historyThrough < message.id ∧ ∀ other ∈ state.stored, other.id < message.id
  | .record message => message ∈ state.stored ∧ setting.historyThrough < message.id ∧ message ∉ state.recorded
  | .adopt _ | .catchUp _ _ => True

/-- A store in which contacts begin: it may hold mail, and nobody owns an address. -/
structure Began (state : State) : Prop where
  numbered : state.stored.Pairwise (fun first second => first.id < second.id)
  positive : ∀ message ∈ state.stored, 0 < message.id
  rows : ∀ message ∈ state.stored, ∀ header ∈ message.headers, normalized setting header ∈ state.addresses
  unowned : ∀ address, state.owned address = false
  bare : ∀ address, state.evidence address = .empty
  unrecorded : state.recorded = []

/-! ### The correspondents of a message -/

def EachOnce (message : Stored) (seen : List Seen) : Prop :=
  (seen.map (fun one => normalized setting one.address)).Nodup ∧ ∀ one ∈ seen, one.address ∈ message.headers

theorem addCorrespondent_once (own : List Text) (message : Stored) (seen : List Seen) (address : EmailAddress)
    (once : EachOnce setting message seen) (inside : address ∈ message.headers) :
    EachOnce setting message (addCorrespondent setting own message seen address) := by
  unfold addCorrespondent
  split
  next => exact once
  next =>
    split
    next => exact once
    next absent =>
      constructor
      next =>
        rw [List.map_append, List.map_singleton, List.nodup_append]
        refine ⟨once.1, List.nodup_singleton _, ?_⟩
        intro key before other new
        cases List.mem_singleton.mp new
        rintro rfl
        obtain ⟨one, there, same⟩ := List.mem_map.mp before
        exact absent (List.any_eq_true.mpr ⟨one, there, by simpa using same⟩)
      next =>
        intro one member
        rcases List.mem_append.mp member with before | new
        next => exact once.2 one before
        next =>
          cases List.mem_singleton.mp new
          exact inside

theorem correspondents_once (own : List Text) (message : Stored) :
    EachOnce setting message (correspondents setting own message) := by
  have each : ∀ (headers : List EmailAddress) (seen : List Seen), (∀ header ∈ headers, header ∈ message.headers) ->
      EachOnce setting message seen -> EachOnce setting message (headers.foldl (addCorrespondent setting own message) seen) := by
    intro headers
    induction headers with
    | nil => exact fun _ _ once => once
    | cons header rest ih =>
      intro seen inside once
      exact ih _ (fun other member => inside other (List.mem_cons_of_mem _ member))
        (addCorrespondent_once setting own message seen header once (inside header (List.mem_cons_self ..)))
  exact each message.headers [] (fun _ member => member) ⟨List.nodup_nil, by simp⟩

theorem seenOn_mentions (address : AddressKey) (message : Stored) (seen : Seen)
    (found : seenOn setting address message = some seen) : mentions setting address message = true := by
  have inside := (correspondents_once setting _ message).2 seen (List.mem_of_find?_eq_some found)
  exact List.any_eq_true.mpr ⟨seen.address, inside, by simpa using List.find?_some found⟩

theorem seenOn_correspondent (message : Stored) (seen : Seen)
    (member : seen ∈ correspondents setting (ownOf setting message.account) message) :
    seenOn setting (normalized setting seen.address) message = some seen := by
  have distinct := (correspondents_once setting (ownOf setting message.account) message).1
  unfold seenOn
  generalize correspondents setting (ownOf setting message.account) message = seens at member distinct
  induction seens with
  | nil => cases member
  | cons first rest ih =>
    rw [List.map_cons, List.nodup_cons] at distinct
    rcases List.mem_cons.mp member with rfl | later
    next => simp
    next =>
      have apart : normalized setting first.address ≠ normalized setting seen.address := by
        intro same
        exact distinct.1 (same ▸ List.mem_map_of_mem later)
      rw [List.find?_cons_of_neg (by simpa using apart)]
      exact ih later distinct.2

theorem seenOn_none (address : AddressKey) (message : Stored)
    (absent : ∀ seen ∈ correspondents setting (ownOf setting message.account) message,
      normalized setting seen.address ≠ address) : seenOn setting address message = none :=
  List.find?_eq_none.mpr (fun seen member => by simpa using absent seen member)

/-! ### Recording, in one go -/

theorem note_sightings (now : Recording) (seen : Seen) (evidence : Evidence) (account : AccountId) :
    (note setting now seen evidence).sightings account =
      if account = now.account then some (noteSighting setting now seen (evidence.sightings account))
      else evidence.sightings account := by
  simp only [note, noteMonthAndRing]
  split <;> rfl

theorem note_months (now : Recording) (seen : Seen) (evidence : Evidence) (month : Int) :
    (note setting now seen evidence).months month = evidence.months month + if month = monthKey now.date then 1 else 0 := by
  simp only [note, noteMonthAndRing]
  split <;> rfl

variable (pick : Stored -> Seen)

variable (mine : AddressKey -> Bool) (mail : List Stored) (address : AddressKey) (message : Stored)
    (history : List Stored)

def noted : Evidence :=
  mail.foldl (fun evidence message => note setting (recordingOf message) (pick message) evidence) .empty

def notedRow : Option Sighting :=
  mail.foldl (fun held message => some (noteSighting setting (recordingOf message) (pick message) held)) none

def entryOf : RingEntry :=
  { date := message.date, message := message.id, out := (pick message).written }

theorem noted_append :
    noted setting pick (mail ++ [message]) = note setting (recordingOf message) (pick message) (noted setting pick mail) := by
  simp [noted]

theorem noted_sightings (account : AccountId) : (noted setting pick mail).sightings account =
      notedRow setting pick (mail.filter (fun message => message.account = account)) := by
  induction mail using List.reverseRecOn with
  | nil => rfl
  | append_singleton mail message ih =>
    rw [noted_append, note_sightings, ih, List.filter_append]
    by_cases same : message.account = account
    case pos => simp [same, notedRow, recordingOf]
    case neg =>
      have other : ¬ account = message.account := fun equal => same equal.symm
      simp [same, other, recordingOf]

theorem noted_months (month : Int) :
    (noted setting pick mail).months month = mail.countP (fun message => monthKey message.date = month) := by
  induction mail using List.reverseRecOn with
  | nil => rfl
  | append_singleton mail message ih =>
    rw [noted_append, note_months, ih, List.countP_append]
    by_cases same : month = monthKey message.date <;> simp [recordingOf, same, eq_comm]

theorem note_ring (seen : Seen) (evidence : Evidence) (positive : 0 < message.id) :
    (note setting (recordingOf message) seen evidence).ring =
      trimRing (insertNew { date := message.date, message := message.id, out := seen.written } evidence.ring) := by
  simp [note, noteMonthAndRing, recordingOf, Nat.pos_iff_ne_zero.mp positive]

theorem insertNew_fresh (entry : RingEntry) (ring : Finset RingEntry) (fresh : ∀ held ∈ ring, held.message ≠ entry.message) :
    insertNew entry ring = insert entry ring := by
  unfold insertNew
  split
  next found =>
    obtain ⟨held, member, same⟩ := found
    exact absurd same (fresh held member)
  next => rfl

theorem noted_ring (numbered : mail.Pairwise (fun first second => first.id < second.id))
    (positive : ∀ message ∈ mail, 0 < message.id) :
    (noted setting pick mail).ring = trimRing (mail.map (entryOf pick)).toFinset := by
  induction mail using List.reverseRecOn with
  | nil => rfl
  | append_singleton mail message ih =>
    obtain ⟨before, -, below⟩ := List.pairwise_append.mp numbered
    have known := ih before (fun other member => positive other (List.mem_append_left _ member))
    rw [noted_append, note_ring setting message (pick message) _ (positive message (by simp)), known]
    have fresh : ∀ held ∈ trimRing (mail.map (entryOf pick)).toFinset, held.message ≠ message.id := by
      intro held member
      have inside := newest_subset recent _ member
      simp only [List.mem_toFinset, List.mem_map] at inside
      obtain ⟨other, there, rfl⟩ := inside
      exact Nat.ne_of_lt (below other there message (by simp))
    rw [insertNew_fresh _ _ fresh]
    unfold trimRing
    rw [newest_insert]
    congr 1
    ext entry
    simp [entryOf, eq_comm]

theorem notedRow_from (held : Sighting) (rest : List Stored) :
    rest.foldl (fun held message => some (noteSighting setting (recordingOf message) (pick message) held)) (some held) =
      some
        { timesSeen := held.timesSeen + rest.length
          lastSeenAt := (rest.map Stored.date).foldl max held.lastSeenAt
          lastName := (rest.foldl (fun kept message =>
            laterName (some kept) message.date (headerName setting (pick message).address)) (held.lastSeenAt, held.lastName)).2
          timesWritten := held.timesWritten + rest.countP (fun message => (pick message).written)
          seenCount := held.seenCount + rest.countP (fun message => (pick message).sender && message.seen) } := by
  induction rest generalizing held with
  | nil => simp
  | cons message rest ih =>
    rw [List.foldl_cons, ih]
    have one : ∀ flag : Bool, flag.toNat = if flag = true then 1 else 0 := fun flag => by cases flag <;> rfl
    simp only [noteSighting, recordingOf, List.length_cons, List.map_cons, List.foldl_cons, List.countP_cons, laterName, one,
      Option.some.injEq, Sighting.mk.injEq, true_and]
    exact ⟨by omega, rfl, by omega, by omega⟩

/-! ### The fold is recording, in one go -/

def PicksAs : Prop :=
  seenOn setting address message = some (pick message) ∧ (pick message).written = writtenBy setting mine address message ∧
    (pick message).sender = sentBy setting address message

theorem recordedName_row (mail : List Stored)
    (seen : ∀ message ∈ mail, seenOn setting address message = some (pick message)) :
    recordedName setting address mail = (notedRow setting pick mail).map (fun row => (row.lastSeenAt, row.lastName)) := by
  induction mail using List.reverseRecOn with
  | nil => rfl
  | append_singleton mail message ih =>
    have known := ih (fun other member => seen other (List.mem_append_left _ member))
    have found := seen message (by simp)
    have name : recordedName setting address (mail ++ [message]) =
        some (laterName (recordedName setting address mail) message.date (headerName setting (pick message).address)) := by
      simp [recordedName, found]
    have row : notedRow setting pick (mail ++ [message]) =
        some (noteSighting setting (recordingOf message) (pick message) (notedRow setting pick mail)) := by
      simp [notedRow]
    rw [name, row, known]
    cases notedRow setting pick mail <;> rfl

theorem foldedRow_noted (mail : List Stored) (picks : ∀ message ∈ mail, PicksAs setting pick mine address message)
    (named : newestName setting address mail = (recordedName setting address mail).bind Prod.snd) :
    foldedRow setting mine address mail = notedRow setting pick mail := by
  rw [recordedName_row setting pick address mail (fun message member => (picks message member).1)] at named
  cases mail with
  | nil => rfl
  | cons first rest =>
    have row : notedRow setting pick (first :: rest) = rest.foldl (fun held message =>
        some (noteSighting setting (recordingOf message) (pick message) held))
          (some (noteSighting setting (recordingOf first) (pick first) none)) := rfl
    rw [row, notedRow_from] at named ⊢
    have one : ∀ flag : Bool, flag.toNat = if flag = true then 1 else 0 := fun flag => by cases flag <;> rfl
    have written : (first :: rest).countP (writtenBy setting mine address) =
        (first :: rest).countP (fun message => (pick message).written) :=
      List.countP_congr (fun message member => by rw [(picks message member).2.1])
    have opened : (first :: rest).countP (fun message => sentBy setting address message && message.seen) =
        (first :: rest).countP (fun message => (pick message).sender && message.seen) :=
      List.countP_congr (fun message member => by rw [(picks message member).2.2])
    simp only [Option.map_some, Option.bind_some] at named
    rw [List.countP_cons] at written opened
    simp only [foldedRow, named, noteSighting, recordingOf, one, Option.some.injEq, Sighting.mk.injEq, List.length_cons,
      List.countP_cons, true_and]
    rw [written, opened, List.countP_cons, List.countP_cons]
    exact ⟨by omega, by omega, by omega⟩

def pickOf : Seen :=
  (seenOn setting address message).getD { address := { name := none, address := [] }, written := false, sender := false }

theorem folds_picks (folds : Folds setting mine address history) :
    ∀ message ∈ history.filter (mentions setting address), PicksAs setting (pickOf setting address) mine address message := by
  intro message member
  obtain ⟨inside, named⟩ := List.mem_filter.mp member
  obtain ⟨seen, found, written, sender⟩ := folds.counted message inside named
  have picked : pickOf setting address message = seen := by simp [pickOf, found]
  rw [PicksAs, picked]
  exact ⟨found, written, sender⟩

theorem recordedOnce_noted (seen : ∀ message ∈ history.filter (mentions setting address), seenOn setting address message = some (pick message)) :
    recordedOnce setting address history = noted setting pick (history.filter (mentions setting address)) := by
  induction history using List.reverseRecOn with
  | nil => rfl
  | append_singleton history message ih =>
    rw [List.filter_append] at seen ⊢
    have known := ih (fun other member => seen other (List.mem_append_left _ member))
    have last : recordedOnce setting address (history ++ [message]) =
        (seenOn setting address message).elim (recordedOnce setting address history)
          (fun one => note setting (recordingOf message) one (recordedOnce setting address history)) := by simp [recordedOnce]
    rw [last, known]
    by_cases named : mentions setting address message = true
    case pos =>
      have found := seen message (by simp [named])
      rw [found, List.filter_singleton, named]
      exact (noted_append setting pick _ message).symm
    case neg =>
      have unseen : seenOn setting address message = none := by
        cases found : seenOn setting address message with
        | none => rfl
        | some one => exact absurd (seenOn_mentions setting address message one found) named
      rw [unseen]
      simp [named]

theorem folded_rows (folds : Folds setting mine address history) (account : AccountId) :
    foldedRow setting mine address (mailOf setting address account history) =
      (recordedOnce setting address history).sightings account := by
  have picks := folds_picks setting mine address history folds
  rw [recordedOnce_noted setting (pickOf setting address) address history (fun message member => (picks message member).1),
    noted_sightings]
  exact foldedRow_noted setting (pickOf setting address) mine address (mailOf setting address account history)
    (fun message member => picks message (List.mem_of_mem_filter member)) (folds.named account)

theorem folded_months (folds : Folds setting mine address history) (month : Int) :
    (history.filter (mentions setting address)).countP (fun message => sqlMonth message.date = month) =
      (recordedOnce setting address history).months month := by
  have picks := folds_picks setting mine address history folds
  rw [recordedOnce_noted setting (pickOf setting address) address history (fun message member => (picks message member).1),
    noted_months]
  refine List.countP_congr (fun message member => ?_)
  obtain ⟨inside, named⟩ := List.mem_filter.mp member
  rw [folds.dated message inside named]

def foldedEntries (mail : List Stored) : Finset RingEntry :=
  (mail.map (fun message =>
    { date := message.date, message := message.id, out := writtenBy setting mine address message : RingEntry })).toFinset

theorem folded_ring (folds : Folds setting mine address history) (numbered : history.Pairwise (fun first second => first.id < second.id))
    (positive : ∀ message ∈ history, 0 < message.id) :
    trimRing (foldedEntries setting mine address (history.filter (mentions setting address))) =
      (recordedOnce setting address history).ring := by
  have picks := folds_picks setting mine address history folds
  rw [recordedOnce_noted setting (pickOf setting address) address history (fun message member => (picks message member).1),
    noted_ring setting (pickOf setting address) _ (numbered.filter _)
      (fun message member => positive message (List.mem_of_mem_filter member))]
  unfold foldedEntries
  congr 2
  refine List.map_congr_left (fun message member => ?_)
  rw [entryOf, (picks message member).2.1]

theorem foldSightings_sightings (mine : AddressKey -> Bool) (address : AddressKey) (add : Bool)
    (evidence : Evidence) (folds : Folds setting mine address history) (account : AccountId) :
    (foldSightings setting history mine address add evidence).sightings account =
      ((recordedOnce setting address history).sightings account).elim (evidence.sightings account)
        (fun folded => some (mergeRow add (evidence.sightings account) folded)) := by
  rw [← folded_rows setting mine address history folds]
  simp only [foldSightings, foldMonthsAndRing, mailOf]
  cases foldedRow setting mine address ((history.filter (mentions setting address)).filter
    (fun message => message.account = account)) <;> rfl

theorem foldSightings_ring (mine : AddressKey -> Bool) (address : AddressKey) (add : Bool)
    (evidence : Evidence) (folds : Folds setting mine address history)
    (numbered : history.Pairwise (fun first second => first.id < second.id)) (positive : ∀ message ∈ history, 0 < message.id)
    (fresh : ∀ held ∈ evidence.ring, ∀ message ∈ history, message.id < held.message) :
    (foldSightings setting history mine address add evidence).ring =
      trimRing (evidence.ring ∪ (recordedOnce setting address history).ring) := by
  rw [← folded_ring setting mine address history folds numbered positive]
  simp only [foldSightings, foldMonthsAndRing]
  change trimRing (evidence.ring ∪ (trimRing (foldedEntries setting mine address (history.filter (mentions setting address)))).filter
    (fun entry => ∀ held ∈ evidence.ring, held.message ≠ entry.message)) = _
  rw [Finset.filter_true_of_mem]
  -- No message of the history is in the ring already.
  intro entry member held there
  have inside := newest_subset recent _ member
  simp only [foldedEntries, List.mem_toFinset, List.mem_map] at inside
  obtain ⟨message, among, rfl⟩ := inside
  exact Nat.ne_of_gt (fresh held there message (List.mem_of_mem_filter among))

theorem foldSightings_set (folds : Folds setting mine address history) (numbered : history.Pairwise (fun first second => first.id < second.id))
    (positive : ∀ message ∈ history, 0 < message.id) :
    foldSightings setting history mine address false .empty = recordedOnce setting address history := by
  refine Evidence.ext (funext fun account => ?_) (funext fun month => ?_) ?_
  next =>
    rw [foldSightings_sightings setting history mine address false .empty folds]
    cases (recordedOnce setting address history).sightings account <;> rfl
  next =>
    rw [← folded_months setting mine address history folds]
    simp only [foldSightings, foldMonthsAndRing, Evidence.empty, Bool.false_eq_true, if_false]
    split
    next none => exact none.symm
    next => rfl
  next =>
    rw [foldSightings_ring setting history mine address false .empty folds numbered positive (by simp [Evidence.empty])]
    have known := folded_ring setting mine address history folds numbered positive
    rw [← known, Evidence.empty, Finset.empty_union]
    simpa [trimRing] using newest_union recent
      (foldedEntries setting mine address (history.filter (mentions setting address))) ∅

theorem foldSightings_add (message : Stored)
    (seen : Seen) (folds : Folds setting mine address history) (joins : Joins setting address message seen history)
    (numbered : history.Pairwise (fun first second => first.id < second.id)) (positive : ∀ other ∈ history, 0 < other.id)
    (later : ∀ other ∈ history, other.id < message.id) (stored : 0 < message.id) :
    foldSightings setting history mine address true (note setting (recordingOf message) seen .empty) =
      note setting (recordingOf message) seen (recordedOnce setting address history) := by
  have picks := folds_picks setting mine address history folds
  have once := recordedOnce_noted setting (pickOf setting address) address history
    (fun message member => (picks message member).1)
  refine Evidence.ext (funext fun account => ?_) (funext fun month => ?_) ?_
  next =>
    rw [foldSightings_sightings setting history mine address true _ folds, note_sightings, note_sightings]
    by_cases same : account = message.account
    case neg =>
      cases (recordedOnce setting address history).sightings account <;> simp [same, Evidence.empty, mergeRow, recordingOf]
    case pos =>
      subst same
      have named : recordedName setting address (mailOf setting address message.account history) =
          ((recordedOnce setting address history).sightings message.account).map (fun row => (row.lastSeenAt, row.lastName)) := by
        rw [once, noted_sightings]
        exact recordedName_row setting (pickOf setting address) address _
          (fun message member => (picks message (List.mem_of_mem_filter member)).1)
      cases held : (recordedOnce setting address history).sightings message.account with
      | none => simp [Evidence.empty, recordingOf]
      | some row =>
        rw [held] at named
        have agree := joins row.lastSeenAt row.lastName named
        have name : (headerName setting seen.address).or row.lastName =
            if row.lastSeenAt ≤ message.date then (headerName setting seen.address).or row.lastName else row.lastName := by
          rcases agree with newer | none | same
          next => rw [if_pos newer]
          next => simp [none]
          next => simp [same]
        simp only [Option.elim_some, recordingOf, if_true, Evidence.empty, noteSighting, mergeRow, Option.some.injEq,
          Sighting.mk.injEq]
        exact ⟨Nat.add_comm _ _, max_comm _ _, name, Nat.add_comm _ _, Nat.add_comm _ _⟩
  next =>
    rw [note_months, ← folded_months setting mine address history folds]
    simp only [foldSightings, foldMonthsAndRing, if_true]
    rw [note_months]
    simp only [Evidence.empty]
    split <;> omega
  next =>
    have single : insertNew { date := message.date, message := message.id, out := seen.written } Evidence.empty.ring =
        {{ date := message.date, message := message.id, out := seen.written }} := by
      rw [insertNew_fresh _ _ (by simp [Evidence.empty])]
      rfl
    have first := note_ring setting message seen .empty stored
    rw [single] at first
    rw [foldSightings_ring setting history mine address true _ folds numbered positive, first, note_ring setting message seen _ stored]
    next =>
      rw [insertNew_fresh]
      next =>
        unfold trimRing
        rw [newest_union, Finset.singleton_union]
      next =>
        intro held member
        rw [← folded_ring setting mine address history folds numbered positive] at member
        have inside := newest_subset recent _ member
        simp only [foldedEntries, List.mem_toFinset, List.mem_map] at inside
        obtain ⟨other, among, rfl⟩ := inside
        exact Nat.ne_of_lt (later other (List.mem_of_mem_filter among))
    next =>
      intro held member other among
      rw [first] at member
      cases Finset.mem_singleton.mp (newest_subset recent _ member)
      exact later other among

end Postio.Sightings

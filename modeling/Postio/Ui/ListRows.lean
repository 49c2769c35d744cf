import Postio.Ui.ListShifts

set_option autoImplicit false

namespace Postio

variable {Row : Type}

/-! ### Answers on their way -/

def Listing.taken (listing : Listing Row) (disowned : Nat -> Nat) (page : Nat) : List (Flight Row) :=
  (listing.flights.filter (fun flight => flight.generation = listing.window.generation ∧ flight.page = page)).drop
    (disowned page)

def Listing.Fresh (listing : Listing Row) (disowned : Nat -> Nat) (rows : List Row) : Prop :=
  ∀ page, ∀ flight ∈ listing.taken disowned page, OnPage rows page flight.rows

structure Listing.Sound (listing : Listing Row) : Prop where
  total : listing.window.total = listing.rows.length
  agree : listing.window.pages.Agree listing.rows
  fresh : listing.Fresh listing.window.discard listing.rows
  asked : ∀ flight ∈ listing.flights, flight.generation ≤ listing.window.generation

/-! ### Answers landing -/

theorem first_flight (flights : List (Flight Row)) (page : Nat) (flight : Flight Row)
    (found : flights.find? (fun flight => flight.page = page) = some flight) :
    flight.page = page ∧ ∃ earlier later, flights = earlier ++ flight :: later ∧
      flights.eraseP (fun flight => flight.page = page) = earlier ++ later ∧ ∀ other ∈ earlier, other.page ≠ page := by
  obtain ⟨named, earlier, later, rfl, apart⟩ := List.find?_eq_some_iff_append.mp found
  simp only [decide_eq_true_eq] at named
  simp only [Bool.not_eq_true', decide_eq_false_iff_not] at apart
  refine ⟨named, earlier, later, rfl, ?_, apart⟩
  rw [List.eraseP_append_right _ (by simpa using apart), List.eraseP_cons_of_pos (by simpa using named)]

theorem waiting_answered (flights : List (Flight Row)) (generation page other : Nat) (flight : Flight Row)
    (found : flights.find? (fun flight => flight.page = page) = some flight) :
    flights.filter (fun flight => flight.generation = generation ∧ flight.page = other) =
      (if flight.generation = generation ∧ page = other then [flight] else []) ++
        (flights.eraseP (fun flight => flight.page = page)).filter
          (fun flight => flight.generation = generation ∧ flight.page = other) := by
  -- The answer that lands is the first of those a page waits for, if it is of this generation, and none of another's.
  obtain ⟨named, earlier, later, split, erased, apart⟩ := first_flight flights page flight found
  rw [erased, split]
  by_cases same : page = other
  · subst same
    have none : earlier.filter (fun flight => flight.generation = generation ∧ flight.page = page) = [] := by
      apply List.filter_eq_nil_iff.mpr
      intro before member
      simpa using fun _ => apart before member
    rw [List.filter_append, List.filter_append, none]
    by_cases current : flight.generation = generation
    · simp [named, current]
    · simp [current]
  · simp [named, same]

theorem rowAt_window (window : ListWindow Row) (position : Nat) :
    (window.rowAt position).1.pages = window.pages ∧ (window.rowAt position).1.total = window.total ∧
      (window.rowAt position).1.discard = window.discard ∧ (window.rowAt position).1.generation = window.generation := by
  have wanted : ∀ window : ListWindow Row, ∀ page index, (window.want page index).1.pages = window.pages ∧
      (window.want page index).1.total = window.total ∧ (window.want page index).1.discard = window.discard ∧
      (window.want page index).1.generation = window.generation := by
    intro window page index
    unfold ListWindow.want
    simp only
    split
    · exact ⟨rfl, rfl, rfl, rfl⟩
    · exact ⟨rfl, rfl, rfl, rfl⟩
  unfold ListWindow.rowAt
  split
  · exact ⟨rfl, rfl, rfl, rfl⟩
  · simp only
    split
    · exact ⟨rfl, rfl, rfl, rfl⟩
    · split
      · simp only [wanted, and_self]
      · simp only [wanted, and_self]

theorem pageOf_onPage (rows : List Row) (page : Nat) : OnPage rows page (Listing.pageOf rows page) := by
  refine ⟨List.length_take_le _ _, fun index row found => ?_⟩
  unfold Listing.pageOf at found
  rw [List.getElem?_take] at found
  split at found
  · rwa [List.getElem?_drop] at found
  · cases found

theorem onPage_grown (rows added held : List Row) (page : Nat) (onPage : OnPage rows page held) :
    OnPage (rows ++ added) page held := by
  refine ⟨onPage.1, fun index row found => ?_⟩
  have there := onPage.2 index row found
  rw [List.getElem?_append_left (List.getElem?_eq_some_iff.mp there).1]
  exact there

theorem touch_evict (window : ListWindow Row) (rows : List Row) (page : Nat) (agree : window.pages.Agree rows) :
    (window.touch page).evict.pages.Agree rows ∧ (window.touch page).evict.discard = window.discard := by
  -- Making room only lets pages go.
  refine ⟨fun entry member => agree entry ?_, rfl⟩
  exact List.mem_of_mem_filter member

/-! ### Answers that stay right -/

/-- What a change may leave held, and leave on its way, for the rows it makes of the list. -/
def Listing.Current (listing : Listing Row) : Listing.Event Row -> Prop
  | .shrink total =>
    (∀ entry ∈ listing.window.pages, entry.1 * pageSize < total -> entry.1 * pageSize + entry.2.length ≤ total) ∧
      listing.Fresh listing.window.discard (listing.rows.take total)
  | .insertedAtTop rows => listing.Fresh listing.window.discard (rows ++ listing.rows)
  | .removeAt position => (listing.window.removeAt position).isSome = true ->
      listing.window.pages.runFull listing.window.pages.length (position / pageSize) = true ∧
        listing.Fresh listing.window.discard (listing.rows.eraseIdx position)
  | .splice position removed inserted => (listing.window.splice position removed inserted).2 = true ->
      listing.Fresh (listing.window.overtaken position removed inserted) (spliced listing.rows position removed inserted)
  | .invalidate rows =>
    listing.Fresh (fun _ => 0) (if rows.length = listing.rows.length then rows else listing.rows)
  | .reset _ | .grow _ | .rowAt _ | .deliver _ | .abandon _ => True

theorem Listing.fresh_of (before after : Listing Row) (disowned : Nat -> Nat) (rows : List Row)
    (fresh : before.Fresh disowned rows) (flights : after.flights = before.flights)
    (generation : after.window.generation = before.window.generation) : after.Fresh disowned rows := by
  intro page flight member
  apply fresh page flight
  unfold Listing.taken at member ⊢
  rwa [flights, generation] at member

theorem Listing.fresh_none (listing : Listing Row) (disowned : Nat -> Nat) (rows : List Row)
    (none : listing.flights = []) : listing.Fresh disowned rows := by
  intro page flight member
  simp [taken, none] at member

theorem Listing.fresh_grown (listing : Listing Row) (disowned : Nat -> Nat) (rows added : List Row)
    (fresh : listing.Fresh disowned rows) : listing.Fresh disowned (rows ++ added) :=
  fun page flight member => onPage_grown rows added flight.rows page (fresh page flight member)

theorem setTotal_fields (window : ListWindow Row) (total : Nat) :
    (window.setTotal total).total = total ∧ (window.setTotal total).discard = window.discard ∧
      (window.setTotal total).generation = window.generation ∧
      ∀ entry ∈ (window.setTotal total).pages, entry ∈ window.pages ∧
        (total < window.total -> entry.1 * pageSize < total) := by
  unfold ListWindow.setTotal
  split
  next same => exact ⟨same, rfl, rfl, fun entry member => ⟨member, fun less => (by omega)⟩⟩
  next =>
    split
    next => exact ⟨rfl, rfl, rfl, fun entry member => ⟨member, fun less => (by omega)⟩⟩
    next =>
      refine ⟨rfl, rfl, rfl, fun entry member => ?_⟩
      obtain ⟨there, kept⟩ := List.mem_filter.mp member
      refine ⟨there, fun _ => ?_⟩
      have early : entry.1 < (total + pageSize - 1) / pageSize := by simpa using kept
      simp only [pageSize] at *
      omega

theorem onPage_cut (rows held : List Row) (page total : Nat) (onPage : OnPage rows page held)
    (inside : page * pageSize + held.length ≤ total) : OnPage (rows.take total) page held := by
  refine ⟨onPage.1, fun index row found => ?_⟩
  have short := (List.getElem?_eq_some_iff.mp found).1
  rw [List.getElem?_take, if_pos (by omega)]
  exact onPage.2 index row found

theorem opened_sound : (Listing.opened : Listing Row).Sound where
  total := rfl
  agree := fun _ member => absurd member List.not_mem_nil
  fresh := fun _ _ member => absurd (List.mem_of_mem_drop member) List.not_mem_nil
  asked := fun _ member => absurd member List.not_mem_nil

theorem Listing.sound_reset (listing : Listing Row) (rows : List Row) (sound : listing.Sound) :
    (listing.step (.reset rows)).Sound where
  total := rfl
  agree := fun _ member => absurd member List.not_mem_nil
  -- Every answer on its way was asked for under a generation gone by.
  fresh := by
    intro page flight member
    exfalso
    obtain ⟨there, named⟩ := List.mem_filter.mp (List.mem_of_mem_drop member)
    have old := sound.asked flight there
    have new : flight.generation = listing.window.generation + 1 ∧ flight.page = page := of_decide_eq_true named
    omega
  asked := fun flight member => Nat.le_succ_of_le (sound.asked flight member)

theorem Listing.sound_grow (listing : Listing Row) (added : List Row) (sound : listing.Sound) :
    (listing.step (.grow added)).Sound := by
  obtain ⟨total, discard, generation, kept⟩ :=
    setTotal_fields listing.window (listing.rows.length + added.length)
  constructor
  · simp only [step, total, List.length_append]
  · exact fun entry member => onPage_grown _ added _ _ (sound.agree entry (kept entry member).1)
  · refine fresh_of listing (listing.step (.grow added)) _ _ ?_ rfl generation
    change listing.Fresh (listing.window.setTotal _).discard _
    rw [discard]
    exact fresh_grown listing _ _ added sound.fresh
  · intro flight member
    change flight.generation ≤ (listing.window.setTotal _).generation
    rw [generation]
    exact sound.asked flight member

theorem Listing.sound_shrink (listing : Listing Row) (end_ : Nat) (sound : listing.Sound)
    (current : listing.Current (.shrink end_)) : (listing.step (.shrink end_)).Sound := by
  obtain ⟨total, discard, generation, kept⟩ := setTotal_fields listing.window (min end_ listing.rows.length)
  constructor
  · simp only [step, total, List.length_take]
  · intro entry member
    obtain ⟨there, early⟩ := kept entry member
    have onPage := sound.agree entry there
    by_cases less : end_ < listing.rows.length
    · apply onPage_cut _ _ _ _ onPage
      apply current.1 entry there
      have started := early (by rw [sound.total]; omega)
      omega
    · change OnPage (listing.rows.take end_) _ _
      rw [List.take_of_length_le (by omega)]
      exact onPage
  · refine fresh_of listing (listing.step (.shrink end_)) _ _ ?_ rfl generation
    change listing.Fresh (listing.window.setTotal _).discard _
    rw [discard]
    exact current.2
  · intro flight member
    change flight.generation ≤ (listing.window.setTotal _).generation
    rw [generation]
    exact sound.asked flight member

theorem Listing.sound_insertedAtTop (listing : Listing Row) (rows : List Row) (sound : listing.Sound)
    (current : listing.Current (.insertedAtTop rows)) : (listing.step (.insertedAtTop rows)).Sound := by
  cases rows with
  | nil => exact sound
  | cons row rest =>
    refine ⟨?_, fun _ member => absurd member List.not_mem_nil, current, sound.asked⟩
    simp only [step, ListWindow.insertedAtTop, List.length_append]
    rw [if_neg (by simp)]
    simp only [sound.total]
    omega

theorem Listing.sound_removeAt (listing : Listing Row) (position : Nat) (sound : listing.Sound)
    (current : listing.Current (.removeAt position)) : (listing.step (.removeAt position)).Sound := by
  cases applied : listing.window.removeAt position with
  | none =>
    simp only [step, applied]
    exact sound
  | some after =>
    obtain ⟨runFull, fresh⟩ := current (by rw [applied]; rfl)
    obtain ⟨agree, inside, total, discard, generation⟩ :=
      removeAt_agree listing.window after listing.rows position sound.agree applied runFull
    simp only [step, applied]
    constructor
    · rw [sound.total] at inside
      simp only [total, List.length_eraseIdx_of_lt inside, sound.total]
    · exact agree
    · refine fresh_of listing { listing with window := _, rows := _ } _ _ ?_ rfl generation
      simp only [discard]
      exact fresh
    · simp only [generation]
      exact sound.asked

theorem Listing.sound_splice (listing : Listing Row) (position removed : Nat) (inserted : List Row)
    (sound : listing.Sound) (current : listing.Current (.splice position removed inserted)) :
    (listing.step (.splice position removed inserted)).Sound := by
  obtain ⟨generation, spec⟩ := splice_spec listing.window listing.rows inserted position removed sound.total sound.agree
  simp only [step]
  cases applied : (listing.window.splice position removed inserted).2 with
  | false =>
    rw [applied, if_neg Bool.false_ne_true] at spec
    obtain ⟨agree, total, discard⟩ := spec
    refine ⟨total, agree, ?_, fun flight member => ?_⟩
    · refine fresh_of listing { listing with window := _, rows := _ } _ _ ?_ rfl generation
      simp only [discard]
      exact sound.fresh
    · simp only [generation]
      exact sound.asked flight member
  | true =>
    rw [applied, if_pos rfl] at spec
    obtain ⟨agree, total, discard⟩ := spec
    refine ⟨total, agree, ?_, fun flight member => ?_⟩
    · refine fresh_of listing { listing with window := _, rows := _ } _ _ ?_ rfl generation
      simp only [discard]
      exact current applied
    · simp only [generation]
      exact sound.asked flight member

theorem Listing.sound_invalidate (listing : Listing Row) (rows : List Row) (sound : listing.Sound)
    (current : listing.Current (.invalidate rows)) : (listing.step (.invalidate rows)).Sound := by
  refine ⟨?_, fun _ member => absurd member List.not_mem_nil, current, sound.asked⟩
  simp only [step]
  split
  next same =>
    rw [same]
    exact sound.total
  next => exact sound.total

theorem Listing.sound_rowAt (listing : Listing Row) (position : Nat) (sound : listing.Sound) :
    (listing.step (.rowAt position)).Sound := by
  obtain ⟨pages, total, discard, generation⟩ := rowAt_window listing.window position
  simp only [step]
  refine ⟨?_, ?_, ?_, ?_⟩
  · simp only [total]
    exact sound.total
  · simp only [pages]
    exact sound.agree
  · intro page flight member
    unfold taken at member
    simp only [generation, discard, List.filter_append] at member
    rw [List.drop_append] at member
    rcases List.mem_append.mp member with waiting | asked
    · exact sound.fresh page flight waiting
    · obtain ⟨new, named⟩ := List.mem_filter.mp (List.mem_of_mem_drop asked)
      obtain ⟨request, -, rfl⟩ := List.mem_map.mp new
      have same : request = page := by simpa using named
      subst same
      exact pageOf_onPage listing.rows request
  · intro flight member
    simp only [generation]
    rcases List.mem_append.mp member with old | new
    · exact sound.asked flight old
    · obtain ⟨request, -, rfl⟩ := List.mem_map.mp new
      exact Nat.le_refl _

theorem Listing.fresh_landed (before after : Listing Row) (page : Nat) (flight : Flight Row) (rows : List Row)
    (found : before.flights.find? (fun flight => flight.page = page) = some flight)
    (fresh : before.Fresh before.window.discard rows)
    (flights : after.flights = before.flights.eraseP (fun flight => flight.page = page))
    (generation : after.window.generation = before.window.generation)
    (disowned : ∀ other, after.window.discard other =
      before.window.discard other - if flight.generation = before.window.generation ∧ page = other then 1 else 0) :
    after.Fresh after.window.discard rows := by
  -- What lands is the first waited for, and takes with it one of those disowned.
  intro other answer member
  apply fresh other answer
  unfold taken at member ⊢
  rw [flights, generation, disowned] at member
  rw [waiting_answered before.flights _ page other flight found]
  by_cases taken_ : flight.generation = before.window.generation ∧ page = other
  · rw [if_pos taken_] at member ⊢
    rw [List.singleton_append]
    cases count : before.window.discard other with
    | zero =>
      rw [count] at member
      exact List.mem_cons_of_mem flight member
    | succ count =>
      rw [count, Nat.add_sub_cancel] at member
      exact member
  · rw [if_neg taken_] at member ⊢
    exact member

theorem Listing.asked_landed (listing : Listing Row) (page : Nat) (sound : listing.Sound) :
    ∀ flight ∈ listing.flights.eraseP (fun flight => flight.page = page), flight.generation ≤ listing.window.generation :=
  fun flight member => sound.asked flight (List.mem_of_mem_eraseP member)

theorem Listing.sound_deliver (listing : Listing Row) (page : Nat) (sound : listing.Sound) :
    (listing.step (.deliver page)).Sound := by
  cases found : listing.flights.find? (fun flight => flight.page = page) with
  | none =>
    simp only [step, found]
    exact sound
  | some flight =>
    simp only [step, found]
    have landed := listing.asked_landed page sound
    unfold ListWindow.deliver
    split
    next old =>
      refine ⟨sound.total, sound.agree, ?_, landed⟩
      exact fresh_landed listing _ page flight _ found sound.fresh rfl rfl (fun other => (by simp [old]))
    next current =>
      rw [not_not] at current
      split
      next disowned =>
        refine ⟨sound.total, sound.agree, ?_, landed⟩
        refine fresh_landed listing _ page flight _ found sound.fresh rfl rfl (fun other => ?_)
        by_cases same : other = page
        · simp [same, current]
        · simp [same, Ne.symm same]
      next wanted =>
        have held : OnPage listing.rows page flight.rows := by
          apply sound.fresh page flight
          unfold taken
          rw [waiting_answered listing.flights _ page page flight found, if_pos ⟨current, rfl⟩]
          rw [Nat.eq_zero_of_not_pos wanted]
          exact List.mem_cons_self
        obtain ⟨agree, discard⟩ := touch_evict
          { listing.window with
            pending := listing.window.pending.filter (· ≠ page)
            pages := listing.window.pages.put page flight.rows }
          listing.rows page (Pages.agree_put _ _ page flight.rows sound.agree held)
        refine ⟨sound.total, agree, ?_, landed⟩
        · refine fresh_landed listing _ page flight _ found sound.fresh rfl rfl (fun other => ?_)
          change listing.window.discard other = listing.window.discard other - _
          by_cases same : page = other
          · rw [← same, Nat.eq_zero_of_not_pos wanted, Nat.zero_sub]
          · rw [if_neg (fun both => same both.2), Nat.sub_zero]

theorem Listing.sound_abandon (listing : Listing Row) (page : Nat) (sound : listing.Sound) :
    (listing.step (.abandon page)).Sound := by
  cases found : listing.flights.find? (fun flight => flight.page = page) with
  | none =>
    simp only [step, found]
    exact sound
  | some flight =>
    simp only [step, found]
    have landed := listing.asked_landed page sound
    unfold ListWindow.abandon
    split
    next old =>
      refine ⟨sound.total, sound.agree, ?_, landed⟩
      exact fresh_landed listing _ page flight _ found sound.fresh rfl rfl (fun other => (by simp [old]))
    next current =>
      rw [not_not] at current
      split
      next disowned =>
        refine ⟨sound.total, sound.agree, ?_, landed⟩
        refine fresh_landed listing _ page flight _ found sound.fresh rfl rfl (fun other => ?_)
        by_cases same : other = page
        · simp [same, current]
        · simp [same, Ne.symm same]
      next wanted =>
        refine ⟨sound.total, sound.agree, ?_, landed⟩
        refine fresh_landed listing _ page flight _ found sound.fresh rfl rfl (fun other => ?_)
        by_cases same : page = other
        · rw [← same]
          simp only [Nat.eq_zero_of_not_pos wanted, Nat.zero_sub]
        · rw [if_neg (fun both => same both.2), Nat.sub_zero]

theorem Listing.sound_step (listing : Listing Row) (event : Listing.Event Row) (sound : listing.Sound)
    (current : listing.Current event) : (listing.step event).Sound := by
  cases event with
  | reset rows => exact listing.sound_reset rows sound
  | grow added => exact listing.sound_grow added sound
  | shrink end_ => exact listing.sound_shrink end_ sound current
  | insertedAtTop rows => exact listing.sound_insertedAtTop rows sound current
  | removeAt position => exact listing.sound_removeAt position sound current
  | splice position removed inserted => exact listing.sound_splice position removed inserted sound current
  | invalidate rows => exact listing.sound_invalidate rows sound current
  | rowAt position => exact listing.sound_rowAt position sound
  | deliver page => exact listing.sound_deliver page sound
  | abandon page => exact listing.sound_abandon page sound

/-! ### What the window reports -/

theorem held_row (pages : Pages Row) (rows : List Row) (position : Nat) (row : Row) (agree : pages.Agree rows)
    (found : (pages.get (position / pageSize)).bind (fun held => held[position % pageSize]?) = some row) :
    rows[position]? = some row := by
  obtain ⟨held, there, placed⟩ := Option.bind_eq_some_iff.mp found
  have row := (pages.onPage_get rows _ held agree there).2 _ row placed
  rwa [Nat.mul_comm, Nat.div_add_mod] at row

theorem residentAt_right (listing : Listing Row) (agree : listing.window.pages.Agree listing.rows) (position : Nat)
    (row : Row) (found : listing.window.residentAt position = some row) : listing.rows[position]? = some row := by
  unfold ListWindow.residentAt at found
  split at found
  · cases found
  · exact held_row _ _ position row agree found

variable [ListRow Row]

/-- Every row reported for a position is the row the list has there. -/
structure Listing.Right (listing : Listing Row) : Prop where
  rowAt : ∀ position row, (listing.window.rowAt position).2 = some (.resident row) -> listing.rows[position]? = some row
  residentAt : ∀ position row, listing.window.residentAt position = some row -> listing.rows[position]? = some row
  peek : ∀ position message, listing.window.peek position = some message ->
    ∃ row, listing.rows[position]? = some row ∧ ListRow.id row = some message
  positionOf : ∀ message position, listing.window.positionOf message = some position ->
    ∃ row, listing.rows[position]? = some row ∧ ListRow.id row = some message

theorem right_of_agree (listing : Listing Row) (agree : listing.window.pages.Agree listing.rows) : listing.Right := by
  constructor
  · intro position row found
    unfold ListWindow.rowAt at found
    split at found
    · cases found
    · simp only at found
      split at found
      next held there =>
        cases found
        exact held_row _ _ position row agree there
      next => cases found
  · exact residentAt_right listing agree
  · intro position message found
    obtain ⟨row, there, named⟩ := Option.bind_eq_some_iff.mp found
    exact ⟨row, residentAt_right listing agree position row there, named⟩
  · intro message position found
    obtain ⟨entry, member, placed⟩ := List.exists_of_findSome?_eq_some found
    obtain ⟨index, first, rfl⟩ := Option.map_eq_some_iff.mp placed
    obtain ⟨inside, named, -⟩ := List.findIdx?_eq_some_iff_getElem.mp first
    exact ⟨entry.2[index], (agree entry member).2 index _ (List.getElem?_eq_getElem inside), by simpa using named⟩

theorem Listing.rows_in_place (events : List (Listing.Event Row))
    (current : Run.Along Listing.step Listing.Current .opened events) :
    (Run.run Listing.step .opened events : Listing Row).Right ∧
      (Run.run Listing.step .opened events).window.total = (Run.run Listing.step .opened events).rows.length := by
  -- Along changes that leave held, and on its way, only what the list has, every row reported is in its place.
  have sound := Run.run_invariant Listing.step Listing.Sound Listing.Current Listing.sound_step _ events
    opened_sound current
  exact ⟨right_of_agree _ sound.agree, sound.total⟩

/-! ### A row arriving while its page is asked for -/

instance : ListRow MessageId where
  id := some

def insertedWhileAsked : List (Listing.Event MessageId) :=
  [.reset [⟨1⟩, ⟨2⟩], .rowAt 0, .insertedAtTop [⟨3⟩], .deliver 0]

theorem insertedWhileAsked_misplaced : ¬ (Run.run Listing.step .opened insertedWhileAsked).Right := by
  intro right
  have shown := right.rowAt 0 ⟨1⟩ (by rfl)
  have there : (Run.run Listing.step .opened insertedWhileAsked).rows[0]? = some ⟨3⟩ := by rfl
  rw [there] at shown
  exact absurd shown (by decide)

def settledChanges : List (Listing.Event MessageId) :=
  [.reset [⟨1⟩, ⟨2⟩, ⟨3⟩], .rowAt 1, .deliver 0, .removeAt 1, .splice 1 1 [⟨4⟩, ⟨5⟩], .insertedAtTop [⟨6⟩]]

theorem settledChanges_in_place : (Run.run Listing.step .opened settledChanges).Right ∧
    (Run.run Listing.step .opened settledChanges).window.total =
      (Run.run Listing.step .opened settledChanges).rows.length :=
  Listing.rows_in_place settledChanges
    ⟨trivial, trivial, trivial, fun _ => ⟨by rfl, Listing.fresh_none _ _ _ rfl⟩,
      fun _ => Listing.fresh_none _ _ _ rfl, Listing.fresh_none _ _ _ rfl, trivial⟩

end Postio

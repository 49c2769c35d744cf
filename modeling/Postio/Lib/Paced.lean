import Mathlib.Data.List.Basic

set_option autoImplicit false

namespace Postio

/-! Sequences read in pieces, at a pace the reader does not choose. -/

/-- A source that hands out what is left of it, in pieces as small as it likes. -/
structure Paced (A : Type) where
  left : List A
  -- What each further read gives at most, less one.
  pace : Nat -> Nat

namespace Paced

variable {A : Type}

variable (source : Paced A) (room : Nat)

def read : List A × Paced A :=
  let count := min room (source.pace 0 + 1)
  (source.left.take count, { left := source.left.drop count, pace := fun turn => source.pace (turn + 1) })

/-- Reads until the room is filled or a read gives nothing. -/
def fillFrom : Nat -> Nat -> Paced A -> List A × Paced A
  | 0, _, source => ([], source)
  | turns + 1, room, source =>
    if room = 0 then ([], source)
    else
      let (piece, next) := source.read room
      if piece.isEmpty then ([], next)
      else
        let (more, last) := fillFrom turns (room - piece.length) next
        (piece ++ more, last)

def fill (source : Paced A) : List A × Paced A := fillFrom room room source

theorem read_left : (source.read room).1 ++ (source.read room).2.left = source.left:= List.take_append_drop _ _

theorem read_bounded : (source.read room).1.length ≤ room := by
  rw [read, List.length_take]
  omega

theorem read_nil (some_room : 0 < room) : (source.read room).1 = [] ↔ source.left = []:= by
  rw [read, List.take_eq_nil_iff]
  exact or_iff_right (by omega)

theorem fillFrom_exact (turns room : Nat) (source : Paced A) (enough : room ≤ turns) :
    (fillFrom turns room source).1 = source.left.take room ∧
      (fillFrom turns room source).2.left = source.left.drop room := by
  induction turns generalizing room source with
  | zero =>
    obtain rfl : room = 0 := by omega
    simp [fillFrom]
  | succ turns ih =>
    unfold fillFrom
    by_cases full : room = 0
    case pos => simp [full]
    case neg =>
      rw [if_neg full]
      have whole := read_left source room
      have small := read_bounded source room
      cases shape : source.read room with
      | mk piece next =>
        rw [shape] at whole small
        by_cases ended : piece = []
        case pos =>
          have none := (read_nil source room (by omega)).mp (by rw [shape]; exact ended)
          have drained : next.left = [] := by simpa [ended, none] using whole
          simp [ended, none, drained]
        case neg =>
          have positive := List.length_pos_of_ne_nil ended
          obtain ⟨more, last⟩ := ih (room - piece.length) next (by omega)
          simp only [List.isEmpty_iff, ended, if_false]
          rw [more, last, ← whole]
          constructor
          next => rw [List.take_append, List.take_of_length_le small]
          next => rw [List.drop_append, List.drop_of_length_le small, List.nil_append]

theorem fill_exact (source : Paced A) :
    (fill room source).1 = source.left.take room ∧ (fill room source).2.left = source.left.drop room :=
  fillFrom_exact room room source (Nat.le_refl room)

end Paced

/-! What reading in pieces delivers: some items, and then the end or an error. -/

section Delivery

variable {A E State : Type}

/-- Every read of a valid state hands out the front of what remains, and is empty only at the end. -/
structure Delivers (read : State -> Nat -> Except E (List A × State)) (valid : State -> Prop)
    (remaining : State -> List A × Option E) : Prop where
  more : ∀ state room, valid state -> 0 < room -> (remaining state).1 ≠ [] ->
    ∃ piece next, read state room = .ok (piece, next) ∧ piece ≠ [] ∧ piece.length ≤ room ∧ valid next ∧
      remaining state = (piece ++ (remaining next).1, (remaining next).2)
  ended : ∀ state room, valid state -> 0 < room -> remaining state = ([], none) ->
    ∃ next, read state room = .ok ([], next) ∧ valid next ∧ remaining next = ([], none)
  failed : ∀ state room error, valid state -> 0 < room -> remaining state = ([], some error) ->
    read state room = .error error

/-- Reads of the given sizes, one after the other. -/
def reads (read : State -> Nat -> Except E (List A × State)) : List Nat -> State -> Except E (List (List A))
  | [], _ => .ok []
  | room :: rooms, state => do
    let (piece, next) <- read state room
    let pieces <- reads read rooms next
    return piece :: pieces

/-- Reads until one gives nothing. The sizes are the caller's. -/
def readToEnd (read : State -> Nat -> Except E (List A × State)) (rooms : Nat -> Nat) :
    Nat -> State -> Option (Except E (List A))
  | 0, _ => none
  | turns + 1, state =>
    match read state (rooms 0 + 1) with
    | .error error => some (.error error)
    | .ok (piece, next) =>
      if piece.isEmpty then some (.ok [])
      else (readToEnd read (fun turn => rooms (turn + 1)) turns next).map (fun rest => rest.map (piece ++ ·))

def wholly (delivered : List A × Option E) : Except E (List A) :=
  match delivered.2 with
  | none => .ok delivered.1
  | some error => .error error

variable {read : State -> Nat -> Except E (List A × State)} {valid : State -> Prop}
  {remaining : State -> List A × Option E}

theorem Delivers.reads_front (delivers : Delivers read valid remaining) (rooms : List Nat)
    (positive : ∀ room ∈ rooms, 0 < room) (state : State) (sound : valid state) (pieces : List (List A))
    (got : reads read rooms state = .ok pieces) :
    pieces.flatten <+: (remaining state).1 ∧
      ([] ∈ pieces -> pieces.flatten = (remaining state).1 ∧ (remaining state).2 = none) := by
  induction rooms generalizing state pieces with
  | nil =>
    cases got
    simp
  | cons room rooms ih =>
    have here := positive room List.mem_cons_self
    have later := fun other inside => positive other (List.mem_cons_of_mem room inside)
    unfold reads at got
    by_cases some_item : (remaining state).1 = []
    case pos =>
      cases stop : (remaining state).2 with
      | some error =>
        rw [delivers.failed state room error sound here (Prod.ext some_item stop)] at got
        cases got
      | none =>
        obtain ⟨next, empty, kept, onward⟩ := delivers.ended state room sound here (Prod.ext some_item stop)
        rw [empty] at got
        cases rest : reads read rooms next with
        | error error =>
          simp only [bind, Except.bind, rest] at got
          cases got
        | ok others =>
          simp only [bind, Except.bind, rest, pure, Except.pure] at got
          cases got
          have front := (ih later next kept others rest).1
          rw [onward, List.prefix_nil] at front
          simp [some_item, front]
    case neg =>
      obtain ⟨piece, next, one, filled, -, kept, split⟩ := delivers.more state room sound here some_item
      rw [one] at got
      cases rest : reads read rooms next with
      | error error =>
        simp only [bind, Except.bind, rest] at got
        cases got
      | ok others =>
        simp only [bind, Except.bind, rest, pure, Except.pure] at got
        cases got
        obtain ⟨front, whole⟩ := ih later next kept others rest
        rw [split]
        refine ⟨?_, ?_⟩
        next =>
          rw [List.flatten_cons]
          exact (List.prefix_append_right_inj piece).mpr front
        next =>
          intro inside
          have among := (List.mem_cons.mp inside).resolve_left (fun same => filled same.symm)
          rw [List.flatten_cons, (whole among).1]
          exact ⟨rfl, (whole among).2⟩

theorem Delivers.reads_ok (delivers : Delivers read valid remaining) (rooms : List Nat)
    (positive : ∀ room ∈ rooms, 0 < room) (state : State) (sound : valid state) (clean : (remaining state).2 = none) :
    ∃ pieces, reads read rooms state = .ok pieces := by
  induction rooms generalizing state with
  | nil => exact ⟨[], rfl⟩
  | cons room rooms ih =>
    have here := positive room List.mem_cons_self
    have later := fun other inside => positive other (List.mem_cons_of_mem room inside)
    have one : ∃ piece next, read state room = .ok (piece, next) ∧ valid next ∧ (remaining next).2 = none := by
      by_cases some_item : (remaining state).1 = []
      case pos =>
        obtain ⟨next, empty, kept, onward⟩ := delivers.ended state room sound here (Prod.ext some_item clean)
        exact ⟨[], next, empty, kept, by rw [onward]⟩
      case neg =>
        obtain ⟨piece, next, one, -, -, kept, split⟩ := delivers.more state room sound here some_item
        refine ⟨piece, next, one, kept, ?_⟩
        rw [← clean, split]
    obtain ⟨piece, next, one, kept, onward⟩ := one
    obtain ⟨pieces, rest⟩ := ih later next kept onward
    refine ⟨piece :: pieces, ?_⟩
    unfold reads
    rw [one]
    simp only [bind, Except.bind, rest, pure, Except.pure]

theorem Delivers.readToEnd_exact (delivers : Delivers read valid remaining) (rooms : Nat -> Nat) (turns : Nat)
    (state : State) (sound : valid state) (enough : (remaining state).1.length < turns) :
    readToEnd read rooms turns state = some (wholly (remaining state)) := by
  induction turns generalizing rooms state with
  | zero => omega
  | succ turns ih =>
    unfold readToEnd
    by_cases some_item : (remaining state).1 = []
    case pos =>
      cases stop : (remaining state).2 with
      | some error =>
        rw [delivers.failed state _ error sound (Nat.succ_pos _) (Prod.ext some_item stop)]
        simp [wholly, stop]
      | none =>
        obtain ⟨next, empty, -, -⟩ := delivers.ended state _ sound (Nat.succ_pos (rooms 0)) (Prod.ext some_item stop)
        rw [empty]
        simp [wholly, stop, some_item]
    case neg =>
      obtain ⟨piece, next, one, filled, -, kept, split⟩ :=
        delivers.more state _ sound (Nat.succ_pos (rooms 0)) some_item
      have positive := List.length_pos_of_ne_nil filled
      have fewer : (remaining next).1.length < turns := by
        rw [split, List.length_append] at enough
        omega
      rw [one]
      simp only [List.isEmpty_iff, filled, if_false, ih _ next kept fewer, Option.map_some, Option.some.injEq]
      rw [split]
      unfold wholly
      cases (remaining next).2 <;> rfl

theorem Delivers.readToEnd_some (delivers : Delivers read valid remaining) (rooms : Nat -> Nat) (turns : Nat)
    (state : State) (sound : valid state) (outcome : Except E (List A))
    (ended : readToEnd read rooms turns state = some outcome) : outcome = wholly (remaining state) := by
  induction turns generalizing rooms state outcome with
  | zero => cases ended
  | succ turns ih =>
    unfold readToEnd at ended
    by_cases some_item : (remaining state).1 = []
    case pos =>
      cases stop : (remaining state).2 with
      | some error =>
        rw [delivers.failed state _ error sound (Nat.succ_pos _) (Prod.ext some_item stop)] at ended
        cases ended
        simp [wholly, stop]
      | none =>
        obtain ⟨next, empty, -, -⟩ := delivers.ended state _ sound (Nat.succ_pos (rooms 0)) (Prod.ext some_item stop)
        rw [empty] at ended
        cases ended
        simp [wholly, stop, some_item]
    case neg =>
      obtain ⟨piece, next, one, filled, -, kept, split⟩ :=
        delivers.more state _ sound (Nat.succ_pos (rooms 0)) some_item
      rw [one] at ended
      simp only [List.isEmpty_iff, filled, if_false] at ended
      obtain ⟨rest, later, same⟩ := Option.map_eq_some_iff.mp ended
      rw [← same, ih _ next kept rest later, split]
      unfold wholly
      cases (remaining next).2 <;> rfl

end Delivery

end Postio

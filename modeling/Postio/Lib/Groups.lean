import Mathlib.Data.List.SplitBy

set_option autoImplicit false

namespace Postio.Groups

/-! A list cut into groups where its neighbours come apart, by Mathlib's `List.splitBy`. -/

variable {A : Type}

variable (ends continues : A -> Bool) (size : Nat) (values : List A)

def endedBy : List (List A) := values.splitBy (fun before _ => !ends before)

def continuedBy : List (List A) := values.splitBy (fun _ next => continues next)

theorem splitBy_flatten_of_sublist (related : A -> A -> Bool)
    (bridges : ∀ first second third fourth, related first second = false -> related third fourth = false ->
      related first fourth = false)
    (values : List A) (kept : List (List A)) (within : kept.Sublist (values.splitBy related)) :
    kept.flatten.splitBy related = kept := by
  let Cut := fun (earlier later : List A) =>
    ∃ first second, related (earlier.getLast first) (later.head second) = false
  have carried : Trans Cut Cut Cut :=
    ⟨fun ⟨first, _, left⟩ ⟨_, second, right⟩ => ⟨first, second, bridges _ _ _ _ left right⟩⟩
  have cut : (values.splitBy related).IsChain Cut := List.isChain_getLast_head_splitBy related values
  apply List.splitBy_flatten
  next => exact fun inside => List.nil_notMem_splitBy related values (within.subset inside)
  next => exact fun group inside => List.isChain_of_mem_splitBy (within.subset inside)
  next => exact cut.sublist within

theorem endedBy_of_sublist (kept : List (List A))
    (within : kept.Sublist (endedBy ends values)) : endedBy ends kept.flatten = kept :=
  splitBy_flatten_of_sublist (fun before _ => !ends before) (fun _ _ _ _ left _ => left) values kept within

theorem continuedBy_of_sublist (kept : List (List A))
    (within : kept.Sublist (continuedBy continues values)) : continuedBy continues kept.flatten = kept :=
  splitBy_flatten_of_sublist (fun _ next => continues next) (fun _ _ _ _ _ right => right) values kept within

@[simp]
theorem endedBy_nil : endedBy ends [] = [] := rfl

theorem flatten_endedBy : (endedBy ends values).flatten = values :=
  List.flatten_splitBy _ values

theorem flatten_continuedBy : (continuedBy continues values).flatten = values :=
  List.flatten_splitBy _ values

theorem endedBy_append (inner : List A) (final : A) (rest : List A)
    (runs : ∀ value ∈ inner, ends value = false) (stops : ends final = true ∨ rest = []) :
    endedBy ends (inner ++ [final] ++ rest) = (inner ++ [final]) :: endedBy ends rest := by
  have chain : (inner ++ [final]).IsChain (fun before _ => !ends before) := by
    induction inner with
    | nil => simp
    | cons value inner ih =>
      have here := runs value List.mem_cons_self
      have further := ih (fun value inside => runs value (List.mem_cons_of_mem _ inside))
      simpa [List.isChain_cons, here] using further
  have whole : endedBy ends (inner ++ [final]) = [inner ++ [final]] := List.splitBy_of_isChain (by simp) chain
  have apart : endedBy ends (inner ++ [final] ++ rest) = endedBy ends (inner ++ [final]) ++ endedBy ends rest := by
    apply List.splitBy_append
    rcases stops with stops | rfl
    next => simp [stops]
    next => simp
  rw [apart, whole, List.singleton_append]

theorem continuedBy_shape (group : List A) (inside : group ∈ continuedBy continues values) :
    ∃ opening rest, group = opening :: rest ∧ ∀ value ∈ rest, continues value = true := by
  have chain : group.IsChain (fun _ next => continues next) := List.isChain_of_mem_splitBy inside
  cases group with
  | nil => exact absurd inside (List.nil_notMem_splitBy _ values)
  | cons opening rest =>
    refine ⟨opening, rest, rfl, ?_⟩
    clear inside
    induction rest generalizing opening with
    | nil => simp
    | cons value rest ih =>
      rw [List.isChain_cons_cons] at chain
      intro other among
      rcases List.mem_cons.mp among with rfl | among
      next => exact chain.1
      next => exact ih value chain.2 other among

theorem continuedBy_openings (first : List A) (others : List (List A))
    (read : continuedBy continues values = first :: others) :
    ∀ group ∈ others, ∀ opening rest, group = opening :: rest -> continues opening = false := by
  have chain := List.isChain_getLast_head_splitBy (fun (_ next : A) => continues next) values
  change (continuedBy continues values).IsChain _ at chain
  rw [read] at chain
  clear read
  induction others generalizing first with
  | nil => simp
  | cons second others ih =>
    rw [List.isChain_cons_cons] at chain
    obtain ⟨⟨_, _, cut⟩, chain⟩ := chain
    intro group among
    rcases List.mem_cons.mp among with rfl | among
    next =>
      rintro opening rest rfl
      simpa using cut
    next => exact ih second chain group among

def chunksFrom (size : Nat) : List A -> Nat -> List A × List (List A)
  | [], _ => ([], [])
  | value :: rest, 0 => ([], (value :: (chunksFrom size rest (size - 1)).1) :: (chunksFrom size rest (size - 1)).2)
  | value :: rest, room + 1 => (value :: (chunksFrom size rest room).1, (chunksFrom size rest room).2)

/-- `slice::chunks`. -/
def chunks : List (List A) := (chunksFrom size values 0).2

theorem chunksFrom_eq (room : Nat) :
    chunksFrom size values room = (values.take room, chunks size (values.drop room)) := by
  induction values generalizing room with
  | nil => simp [chunksFrom, chunks]
  | cons value rest ih =>
    cases room with
    | zero => simp [chunks, chunksFrom]
    | succ room => simp [chunksFrom, ih]

theorem chunks_flatten : (chunks size values).flatten = values := by
  have whole : ∀ (values : List A) (room : Nat),
      (chunksFrom size values room).1 ++ (chunksFrom size values room).2.flatten = values := by
    intro values
    induction values with
    | nil => simp [chunksFrom]
    | cons value rest ih =>
      intro room
      cases room with
      | zero => simpa [chunksFrom] using ih (size - 1)
      | succ room => simpa [chunksFrom] using ih room
  have read := whole values 0
  rw [chunksFrom_eq] at read
  simpa using read

theorem chunks_sized (filled : 0 < size) (values : List A) :
    ∀ piece ∈ chunks size values, piece ≠ [] ∧ piece.length ≤ size := by
  have bounded : ∀ (values : List A) (room : Nat),
      (∀ piece ∈ (chunksFrom size values room).2, piece ≠ [] ∧ piece.length ≤ size) := by
    intro values
    induction values with
    | nil => simp [chunksFrom]
    | cons value rest ih =>
      intro room
      cases room with
      | zero =>
        intro piece inside
        rcases List.mem_cons.mp inside with rfl | later
        next =>
          rw [chunksFrom_eq, List.length_cons, List.length_take]
          exact ⟨List.cons_ne_nil _ _, by omega⟩
        next => exact ih (size - 1) piece later
      | succ room => exact ih room
  exact bounded values 0

end Postio.Groups

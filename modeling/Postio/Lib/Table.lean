import Mathlib.Algebra.BigOperators.Group.List.Basic
import Mathlib.Algebra.Order.Ring.Int
import Mathlib.Data.List.Nodup
import Mathlib.Algebra.Order.BigOperators.Group.List

set_option autoImplicit false

namespace Postio

/-! Tables of rows under the ids they were issued, and sums over them. -/

structure Table (Row : Type) (key : Row -> Nat) where
  rows : List Row
  nextId : Nat
  ordered : rows.Pairwise (fun first second => key first < key second)
  issued : ∀ row ∈ rows, key row < nextId

namespace Table

variable {Row : Type} {key : Row -> Nat}

def empty (key : Row -> Nat) : Table Row key :=
  { rows := [], nextId := 1, ordered := .nil, issued := fun _ member => by cases member }

variable (table : Table Row key) (row : Nat -> Row) (gone : Row -> Bool) (id : Nat) (change : Row -> Row)
    (stamped : ∀ id, key (row id) = id) (kept : ∀ row, key (change row) = key row) (weight : Row -> Int)

def get : Option Row := table.rows.find? (fun row => key row = id)

/-- Rewrites rows in place. No statement changes a row's id. -/
def update : Table Row key :=
  { rows := table.rows.map change
    nextId := table.nextId
    ordered := by
      rw [List.pairwise_map]
      simpa only [kept] using table.ordered
    issued := by
      intro row member
      obtain ⟨old, there, rfl⟩ := List.mem_map.mp member
      simpa only [kept] using table.issued old there }

/-- Rewrites the one row under an id. -/
def updateAt :
    Table Row key :=
  table.update (fun row => if key row = id then change row else row) (fun row => by
    split
    · exact kept row
    · rfl)

def insert : Table Row key :=
  { rows := table.rows ++ [row table.nextId]
    nextId := table.nextId + 1
    ordered := by
      rw [List.pairwise_append]
      refine ⟨table.ordered, List.pairwise_singleton _ _, ?_⟩
      intro first member second last
      simp only [List.mem_singleton] at last
      subst last
      simpa [stamped] using table.issued first member
    issued := by
      intro row member
      rcases List.mem_append.mp member with old | new
      · exact Nat.lt_succ_of_lt (table.issued row old)
      · simp only [List.mem_singleton] at new
        subst new
        simp [stamped] }

def remove : Table Row key :=
  { rows := table.rows.filter (fun row => !gone row)
    nextId := table.nextId
    ordered := table.ordered.filter _
    issued := fun row member => table.issued row (List.mem_of_mem_filter member) }

def removeAt : Table Row key := table.remove (fun row => key row = id)

@[simp]
theorem update_rows : (table.update change kept).rows = table.rows.map change:= rfl

@[simp]
theorem insert_rows : (table.insert row stamped).rows = table.rows ++ [row table.nextId]:= rfl

@[simp]
theorem remove_rows : (table.remove gone).rows = table.rows.filter (fun row => !gone row):= rfl

theorem update_self (same : ∀ row ∈ table.rows, change row = row) : table.update change kept = table := by
  cases table with
  | mk rows nextId ordered issued =>
    unfold update
    congr 1
    exact (List.map_congr_left same).trans (List.map_id rows)

theorem update_eq_iff (first second : Row -> Row) (kept : ∀ row, key (first row) = key row)
    (held : ∀ row, key (second row) = key row) :
    table.update first kept = table.update second held <-> ∀ row ∈ table.rows, first row = second row := by
  constructor
  next =>
    intro same
    exact List.map_inj_left.mp (congrArg Table.rows same)
  next =>
    intro same
    unfold update
    congr 1
    exact List.map_congr_left same

theorem update_update (first second : Row -> Row) (kept : ∀ row, key (first row) = key row)
    (held : ∀ row, key (second row) = key row) :
    (table.update first kept).update second held =
      table.update (fun row => second (first row)) (fun row => (held (first row)).trans (kept row)) := by
  unfold update
  congr 1
  exact List.map_map

theorem keys_nodup : (table.rows.map key).Nodup :=
  List.pairwise_map.mpr (table.ordered.imp (fun less equal => by
    rw [equal] at less
    exact Nat.lt_irrefl _ less))

theorem key_injective (row other : Row) (first : row ∈ table.rows) (second : other ∈ table.rows)
    (same : key row = key other) : row = other :=
  List.inj_on_of_nodup_map table.keys_nodup first second same

theorem get_eq_some (row : Row) :
    table.get id = some row <-> row ∈ table.rows ∧ key row = id := by
  constructor
  · intro found
    exact ⟨List.mem_of_find?_eq_some found, by simpa using List.find?_some found⟩
  · rintro ⟨member, rfl⟩
    cases found : table.get (key row) with
    | none => exact absurd (List.find?_eq_none.mp found row member) (by simp)
    | some other =>
      have there := List.mem_of_find?_eq_some found
      have same : key other = key row := by simpa using List.find?_some found
      rw [key_injective table other row there member same]

theorem get_eq_none : table.get id = none <-> ∀ row ∈ table.rows, key row ≠ id := by
  simp [get, List.find?_eq_none]

theorem get_update (id : Nat) : (table.update change kept).get id = (table.get id).map change:= by
  simp only [get, update, List.find?_map, Function.comp_def, kept]

theorem get_updateAt (other : Nat) :
    (table.updateAt id change kept).get other = if other = id then (table.get other).map change else table.get other := by
  rw [updateAt, get_update]
  cases found : table.get other with
  | none => simp
  | some row =>
    have named := ((table.get_eq_some other row).mp found).2
    by_cases same : other = id
    · simp [same, named]
    · simp [same, named]

theorem get_insert (id : Nat) :
    (table.insert row stamped).get id = if id = table.nextId then some (row table.nextId) else table.get id := by
  by_cases same : id = table.nextId
  · rw [if_pos same, get_eq_some]
    exact ⟨by simp, by rw [stamped, same]⟩
  · rw [if_neg same]
    simp only [get, insert, List.find?_append, List.find?_singleton, stamped]
    simp [Ne.symm same]

theorem rows_split (row : Row) (found : table.get id = some row) :
    ∃ before after, table.rows = before ++ row :: after ∧ key row = id ∧
      (∀ other ∈ before, key other ≠ id) ∧ ∀ other ∈ after, key other ≠ id := by
  obtain ⟨there, named⟩ := (table.get_eq_some id row).mp found
  obtain ⟨before, after, same⟩ := List.append_of_mem there
  have distinct := table.keys_nodup
  rw [same, List.map_append, List.map_cons] at distinct
  obtain ⟨-, tail, apart⟩ := List.nodup_append.mp distinct
  refine ⟨before, after, same, named, fun other member equal => ?_, fun other member equal => ?_⟩
  · exact apart (key other) (List.mem_map_of_mem member) (key row) (by simp) (equal.trans named.symm)
  · exact (List.nodup_cons.mp tail).1 (List.mem_map.mpr ⟨other, member, equal.trans named.symm⟩)

theorem get_remove : (table.remove gone).get id = (table.get id).filter (fun row => !gone row):= by
  cases found : table.get id with
  | none =>
    rw [Option.filter_none, get_eq_none]
    intro row member
    exact (table.get_eq_none id).mp found row (List.mem_of_mem_filter member)
  | some row =>
    obtain ⟨there, named⟩ := (table.get_eq_some id row).mp found
    cases taken : gone row with
    | true =>
      rw [Option.filter_some, if_neg (by simp [taken]), get_eq_none]
      intro other member same
      obtain ⟨inside, kept⟩ := List.mem_filter.mp member
      rw [key_injective table other row inside there (same.trans named.symm), taken] at kept
      cases kept
    | false =>
      rw [Option.filter_some, if_pos (by simp [taken]), get_eq_some]
      exact ⟨List.mem_filter.mpr ⟨there, by simp [taken]⟩, named⟩

/-! ### Sums over the rows -/

def total : Int := (table.rows.map weight).sum

theorem total_insert : (table.insert row stamped).total weight = table.total weight + weight (row table.nextId) := by
  simp [total]

theorem total_updateAt (old : Row) (found : table.get id = some old) :
    (table.updateAt id change kept).total weight = table.total weight - weight old + weight (change old) := by
  obtain ⟨before, after, same, named, first, second⟩ := table.rows_split id old found
  have others : ∀ rows : List Row, (∀ other ∈ rows, key other ≠ id) ->
      rows.map (fun row => weight (if key row = id then change row else row)) = rows.map weight := fun rows apart =>
    List.map_congr_left (fun other member => by rw [if_neg (apart other member)])
  simp only [total, updateAt, update_rows, same, List.map_map, Function.comp_def, List.map_append, List.map_cons,
    others before first, others after second, if_pos named, List.sum_append, List.sum_cons]
  omega

theorem total_removeAt (old : Row)
    (found : table.get id = some old) : (table.removeAt id).total weight = table.total weight - weight old := by
  obtain ⟨before, after, same, named, first, second⟩ := table.rows_split id old found
  have others : ∀ rows : List Row, (∀ other ∈ rows, key other ≠ id) ->
      rows.filter (fun row => !decide (key row = id)) = rows := fun rows apart =>
    List.filter_eq_self.mpr (fun other member => by simpa using apart other member)
  simp only [total, removeAt, remove_rows, same, List.filter_append, List.filter_cons, named, decide_true, Bool.not_true,
    Bool.false_eq_true, if_false, others before first, others after second, List.map_append, List.map_cons,
    List.sum_append, List.sum_cons]
  omega

end Table

/-! Figures kept for groups of a table's rows by taking a row's old share out and putting its new share in, where
taking out stops at zero. -/

abbrev Figures (Group Figure : Type) := Group -> Figure -> Int

namespace Figures

variable {Group Figure : Type} [DecidableEq Group]

variable (figures : Figures Group Figure) (touched : Figure -> Bool) (group other : Group) (share : Figure -> Int)
    (figure : Figure)

def lower :
    Figures Group Figure := fun other figure =>
  if other = group ∧ touched figure then max (figures other figure - share figure) 0 else figures other figure

def raise :
    Figures Group Figure := fun other figure =>
  if other = group ∧ touched figure then figures other figure + share figure else figures other figure

def Unclamped :
    Prop := ∀ figure, touched figure -> 0 ≤ figures group figure - share figure

def shareOf : Figures Group Figure := fun other figure =>
  if other = group then share figure else 0

theorem lower_untouched (untouched : touched figure = false) :
    figures.lower touched group share other figure = figures other figure := by
  simp [lower, untouched]

theorem raise_untouched (untouched : touched figure = false) :
    figures.raise touched group share other figure = figures other figure := by
  simp [raise, untouched]

theorem lower_touched (hit : touched figure = true) (unclamped : 0 ≤ figures group figure - share figure) :
    figures.lower touched group share other figure = figures other figure - shareOf group share other figure := by
  by_cases same : other = group
  · subst same
    simp only [lower, shareOf, hit, and_self, if_true]
    omega
  · simp [lower, shareOf, same]

theorem raise_touched (hit : touched figure = true) :
    figures.raise touched group share other figure = figures other figure + shareOf group share other figure := by
  by_cases same : other = group
  · simp [raise, shareOf, same, hit]
  · simp [raise, shareOf, same]

end Figures

namespace Table

variable {Row Group Figure : Type} {key : Row -> Nat} [DecidableEq Group]

def tally (table : Table Row key) (groupOf : Row -> Group) (share : Row -> Figure -> Int) : Figures Group Figure :=
  fun group figure => table.total (fun row => Figures.shareOf (groupOf row) (share row) group figure)

variable (table : Table Row key) (groupOf : Row -> Group) (share : Row -> Figure -> Int)

theorem tally_insert (row : Nat -> Row) (stamped : ∀ id, key (row id) = id) (group : Group) (figure : Figure) :
    (table.insert row stamped).tally groupOf share group figure = table.tally groupOf share group figure +
      Figures.shareOf (groupOf (row table.nextId)) (share (row table.nextId)) group figure :=
  table.total_insert row stamped _

theorem tally_split (id : Nat) (row : Row) (found : table.get id = some row) (group : Group) (figure : Figure) :
    table.tally groupOf share group figure = (table.removeAt id).tally groupOf share group figure +
      Figures.shareOf (groupOf row) (share row) group figure := by
  have removed := table.total_removeAt id
    (fun row => Figures.shareOf (groupOf row) (share row) group figure) row found
  simp only [tally] at *
  omega

theorem tally_updateAt (id : Nat) (change : Row -> Row) (kept : ∀ row, key (change row) = key row) (row : Row)
    (found : table.get id = some row) (group : Group) (figure : Figure) :
    (table.updateAt id change kept).tally groupOf share group figure =
      (table.removeAt id).tally groupOf share group figure +
        Figures.shareOf (groupOf (change row)) (share (change row)) group figure := by
  have updated := table.total_updateAt id change kept
    (fun row => Figures.shareOf (groupOf row) (share row) group figure) row found
  have removed := table.total_removeAt id
    (fun row => Figures.shareOf (groupOf row) (share row) group figure) row found
  simp only [tally] at *
  omega

theorem tally_nonneg (figure : Figure) (nonneg : ∀ row ∈ table.rows, 0 ≤ share row figure) (group : Group) :
    0 ≤ table.tally groupOf share group figure := by
  apply List.sum_nonneg
  intro amount member
  obtain ⟨row, there, rfl⟩ := List.mem_map.mp member
  simp only [Figures.shareOf]
  split
  · exact nonneg row there
  · exact Int.le_refl 0

theorem tally_remove_other (gone : Row -> Bool) (group : Group) (figure : Figure)
    (other : ∀ row ∈ table.rows, gone row = true -> groupOf row ≠ group) :
    (table.remove gone).tally groupOf share group figure = table.tally groupOf share group figure := by
  have walk : ∀ rows : List Row, (∀ row ∈ rows, gone row = true -> groupOf row ≠ group) ->
      ((rows.filter (fun row => !gone row)).map
        (fun row => Figures.shareOf (groupOf row) (share row) group figure)).sum =
      (rows.map (fun row => Figures.shareOf (groupOf row) (share row) group figure)).sum := by
    intro rows apart
    induction rows with
    | nil => rfl
    | cons row rest ih =>
      have later := ih (fun row member => apart row (List.mem_cons_of_mem _ member))
      cases taken : gone row with
      | true =>
        have none : Figures.shareOf (groupOf row) (share row) group figure = 0 := by
          simp [Figures.shareOf, Ne.symm (apart row List.mem_cons_self taken)]
        simp [taken, none, later]
      | false => simp [taken, later]
  exact walk table.rows other

theorem tally_empty (group : Group) (figure : Figure) (empty : ∀ row ∈ table.rows, groupOf row ≠ group) :
    table.tally groupOf share group figure = 0 := by
  apply List.sum_eq_zero
  intro amount member
  obtain ⟨row, there, rfl⟩ := List.mem_map.mp member
  simp [Figures.shareOf, Ne.symm (empty row there)]

end Table

end Postio

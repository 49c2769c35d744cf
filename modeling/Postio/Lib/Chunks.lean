import Mathlib.Data.List.Basic

set_option autoImplicit false

namespace Postio.Chunks

variable {A : Type}

/-! A list cut into chunks of one size, the last one shorter. There is always a last one. -/

def chunksOf (size : Nat) (items : List A) : List (List A) :=
  if 0 < size ∧ size < items.length then items.take size :: chunksOf size (items.drop size) else [items]
termination_by items.length
decreasing_by
  rw [List.length_drop]
  omega

variable (size : Nat) (items : List A)

theorem chunksOf_short (short : items.length ≤ size) : chunksOf size items = [items] := by
  rw [chunksOf, if_neg (by omega)]

theorem chunksOf_long (positive : 0 < size) (long : size < items.length) :
    chunksOf size items = items.take size :: chunksOf size (items.drop size) := by
  rw [chunksOf, if_pos ⟨positive, long⟩]

theorem chunksOf_append (chunk rest : List A) (positive : 0 < size) (whole : chunk.length = size)
    (more : rest ≠ []) : chunksOf size (chunk ++ rest) = chunk :: chunksOf size rest := by
  have longer := List.length_pos_of_ne_nil more
  rw [chunksOf_long size _ positive (by rw [List.length_append]; omega), ← whole, List.take_left, List.drop_left]

theorem chunksOf_full (full : List (List A)) (last : List A) (positive : 0 < size)
    (whole : ∀ chunk ∈ full, chunk.length = size) (short : last.length ≤ size) (filled : full ≠ [] -> last ≠ []) :
    chunksOf size (full.flatten ++ last) = full ++ [last] := by
  induction full with
  | nil => exact chunksOf_short size last short
  | cons chunk full ih =>
    have some_last := filled (List.cons_ne_nil _ _)
    have rest := ih (fun other inside => whole other (List.mem_cons_of_mem _ inside)) (fun _ => some_last)
    rw [List.flatten_cons, List.append_assoc, chunksOf_append size chunk _ positive (whole chunk List.mem_cons_self)
      (by simp [some_last]), rest]
    rfl

theorem chunksOf_ne : chunksOf size items ≠ [] := by
  rw [chunksOf]
  split <;> exact List.cons_ne_nil _ _

theorem chunksOf_flatten : (chunksOf size items).flatten = items := by
  induction counted : items.length using Nat.strongRecOn generalizing items with
  | ind count ih =>
    rw [chunksOf]
    split
    next split =>
      rw [List.flatten_cons, ih (items.drop size).length (by rw [List.length_drop]; omega) (items.drop size) rfl,
        List.take_append_drop]
    next => simp

theorem chunksOf_sized (positive : 0 < size) (full : List (List A)) (last : List A)
    (chunks : chunksOf size items = full ++ [last]) : (∀ chunk ∈ full, chunk.length = size) ∧ last.length ≤ size := by
  induction full generalizing items with
  | nil =>
    by_cases long : size < items.length
    case pos =>
      rw [chunksOf_long size items positive long] at chunks
      injection chunks with _ none
      exact absurd none (chunksOf_ne size _)
    case neg =>
      rw [chunksOf_short size items (by omega)] at chunks
      cases chunks
      exact ⟨by simp, by omega⟩
  | cons chunk full ih =>
    by_cases long : size < items.length
    case pos =>
      rw [chunksOf_long size items positive long, List.cons_append] at chunks
      injection chunks with first rest
      obtain ⟨whole, short⟩ := ih (items.drop size) rest
      refine ⟨?_, short⟩
      rintro other (_ | ⟨_, inside⟩)
      next =>
        rw [← first, List.length_take]
        omega
      next => exact whole other inside
    case neg =>
      rw [chunksOf_short size items (by omega), List.cons_append] at chunks
      injection chunks with _ none
      exact absurd none.symm (by simp)

theorem chunksOf_length (positive : 0 < size) :
    (chunksOf size items).length = max 1 ((items.length + size - 1) / size) := by
  induction counted : items.length using Nat.strongRecOn generalizing items with
  | ind count ih =>
    by_cases long : size < items.length
    case pos =>
      rw [chunksOf_long size items positive long, List.length_cons,
        ih (items.drop size).length (by rw [List.length_drop]; omega) (items.drop size) rfl, List.length_drop]
      have step : (count + size - 1) / size = (items.length - size + size - 1) / size + 1 := by
        have shape : count + size - 1 = (items.length - size + size - 1) + size := by omega
        rw [shape, Nat.add_div_right _ positive]
      have some_rest : 1 ≤ (items.length - size + size - 1) / size := (Nat.one_le_div_iff positive).mpr (by omega)
      rw [step]
      omega
    case neg =>
      rw [chunksOf_short size items (by omega), List.length_singleton]
      have few : (count + size - 1) / size ≤ 1 := Nat.lt_succ_iff.mp ((Nat.div_lt_iff_lt_mul positive).mpr (by omega))
      omega

end Postio.Chunks

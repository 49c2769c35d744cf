import Mathlib.Data.List.Basic

set_option autoImplicit false

namespace Postio.Separated

variable {A : Type} [DecidableEq A]

/-! Texts whose parts stand apart by a separator, and what reading one separator as another does to them. -/

variable (separator sought put : A) (parts : List (List A)) (text part : List A) (item : A)

def respell : A := if item = sought then put else item

def join : List A := List.intercalate [separator] parts

omit [DecidableEq A] in
@[simp]
theorem join_nil : join separator [] = [] := rfl

omit [DecidableEq A] in
@[simp]
theorem join_singleton : join separator [part] = part := List.intercalate_singleton

omit [DecidableEq A] in
theorem join_cons (parts : List (List A)) (more : parts ≠ []) :
    join separator (part :: parts) = part ++ separator :: join separator parts := by
  cases parts with
  | nil => exact absurd rfl more
  | cons next rest => simp [join, List.intercalate_cons_cons]

omit [DecidableEq A] in
theorem join_append (others : List (List A)) (some_part : parts ≠ []) (more : others ≠ []) :
    join separator (parts ++ others) = join separator parts ++ separator :: join separator others := by
  induction parts with
  | nil => exact absurd rfl some_part
  | cons part parts ih =>
    cases parts with
    | nil => simpa using join_cons separator part others more
    | cons next rest =>
      rw [List.cons_append, join_cons separator part _ (by simp), ih (by simp),
        join_cons separator part (next :: rest) (by simp)]
      simp

theorem join_split : join separator (text.splitOn separator) = text :=
  List.intercalate_splitOn separator

theorem split_join (some_part : parts ≠ [])
    (apart : ∀ part ∈ parts, separator ∉ part) : (join separator parts).splitOn separator = parts :=
  List.splitOn_intercalate separator apart some_part

theorem split_part (front part back : List A) (opens : front = [] ∨ front.getLast? = some separator)
    (closes : back = [] ∨ back.head? = some separator) :
    ∃ before after, (front ++ (part ++ back)).splitOn separator = before ++ (part.splitOn separator ++ after) ∧
      (before = [] <-> front = []) ∧ (after = [] <-> back = []) := by
  have behind : ∃ after, (part ++ back).splitOn separator = part.splitOn separator ++ after ∧ (after = [] <-> back = []) := by
    cases back with
    | nil => exact ⟨[], by simp, by simp⟩
    | cons item back =>
      obtain rfl : item = separator := by simpa using closes
      exact ⟨back.splitOn item, List.splitOn_append_cons_self part back, by simp [List.splitOn_ne_nil]⟩
  obtain ⟨after, split, ends⟩ := behind
  rcases List.eq_nil_or_concat front with rfl | ⟨before, item, rfl⟩
  next => exact ⟨[], after, by simpa using split, by simp, ends⟩
  next =>
    rw [List.concat_eq_append] at opens ⊢
    obtain rfl : item = separator := by simpa using opens
    refine ⟨before.splitOn item, after, ?_, by simp [List.splitOn_ne_nil], ends⟩
    rw [List.append_assoc, List.singleton_append, List.splitOn_append_cons_self, split]

theorem split_apart (inside : part ∈ text.splitOn separator) :
    separator ∉ part := by
  induction text generalizing part with
  | nil =>
    rw [List.splitOn_nil, List.mem_singleton] at inside
    simp [inside]
  | cons item text ih =>
    rw [List.splitOn_cons_eq_if_modifyHead] at inside
    split at inside
    next =>
      rcases List.mem_cons.mp inside with rfl | later
      next => simp
      next => exact ih part later
    next other =>
      cases parts : text.splitOn separator with
      | nil => exact absurd parts (List.splitOn_ne_nil separator text)
      | cons first rest =>
        rw [parts, List.modifyHead_cons] at inside
        rcases List.mem_cons.mp inside with rfl | later
        next =>
          rintro (_ | ⟨_, deeper⟩)
          next => simp at other
          next => exact ih first (by simp [parts]) deeper
        next => exact ih part (by simp [parts, later])

omit [DecidableEq A] in
theorem mem_join (inside : item ∈ join separator parts) :
    item = separator ∨ ∃ part ∈ parts, item ∈ part := by
  induction parts with
  | nil => cases inside
  | cons part parts ih =>
    cases parts with
    | nil => exact .inr ⟨part, List.mem_cons_self, by simpa using inside⟩
    | cons next rest =>
      rw [join_cons separator part (next :: rest) (by simp), List.mem_append, List.mem_cons] at inside
      rcases inside with here | rfl | later
      next => exact .inr ⟨part, List.mem_cons_self, here⟩
      next => exact .inl rfl
      next =>
        rcases ih later with same | ⟨other, among, deeper⟩
        next => exact .inl same
        next => exact .inr ⟨other, List.mem_cons_of_mem _ among, deeper⟩

omit [DecidableEq A] in
theorem mem_join_of_mem (among : part ∈ parts) (inside : item ∈ part) : item ∈ join separator parts:= by
  induction parts with
  | nil => cases among
  | cons first rest ih =>
    cases rest with
    | nil =>
      cases List.mem_singleton.mp among
      simpa using inside
    | cons next others =>
      rw [join_cons separator first (next :: others) (by simp), List.mem_append, List.mem_cons]
      rcases List.mem_cons.mp among with rfl | later
      next => exact .inl inside
      next => exact .inr (.inr (ih later))

theorem join_split_other :
    join put (text.splitOn sought) = text.map (respell sought put) := by
  induction text with
  | nil => simp [List.splitOn_nil]
  | cons item text ih =>
    rw [List.splitOn_cons_eq_if_modifyHead]
    split
    next same =>
      rw [join_cons put [] _ (List.splitOn_ne_nil sought text), ih]
      simp [respell, eq_of_beq same]
    next other =>
      cases parts : text.splitOn sought with
      | nil => exact absurd parts (List.splitOn_ne_nil sought text)
      | cons first rest =>
        rw [parts] at ih
        have kept : respell sought put item = item := if_neg (by simpa using other)
        rw [List.modifyHead_cons, List.map_cons, kept, ← ih]
        cases rest with
        | nil => simp
        | cons next others =>
          rw [join_cons put (item :: first) (next :: others) (by simp),
            join_cons put first (next :: others) (by simp), List.cons_append]

theorem respell_ne (other : put ≠ sought) : respell sought put item ≠ sought := by
  unfold respell
  split
  next => exact other
  next kept => exact kept

theorem map_respell (absent : sought ∉ text) :
    text.map (respell sought put) = text := by
  have kept : ∀ item ∈ text, respell sought put item = item := by
    intro item inside
    apply if_neg
    rintro rfl
    exact absent inside
  rw [List.map_congr_left kept, List.map_id']

end Postio.Separated

import Mathlib.Algebra.GroupWithZero.Nat
import Mathlib.Data.List.Basic
import Mathlib.Data.List.Pairwise
import Mathlib.Data.List.Sort
import Mathlib.Order.MinMax

set_option autoImplicit false

namespace Postio.Slices

/-! Sequences cut at offsets, where an item reaches further than one. -/

variable {A : Type} (weight : A -> Nat)

variable (items : List A)

def reach : Nat := (items.map weight).sum

def skip : Nat -> List A -> List A
  | _, [] => []
  | offset, item :: rest => if offset = 0 then item :: rest else skip (offset - weight item) rest

def keep : Nat -> List A -> List A
  | _, [] => []
  | offset, item :: rest => if offset = 0 then [] else item :: keep (offset - weight item) rest

def slice (start stop : Nat) (items : List A) : List A := keep weight (stop - start) (skip weight start items)

def Boundary (offset : Nat) : Prop := ∃ front back, items = front ++ back ∧ reach weight front = offset

@[simp] theorem reach_nil : reach weight [] = 0 := rfl

@[simp] theorem reach_cons (item : A) (items : List A) : reach weight (item :: items) = weight item + reach weight items := by
  simp [reach]

@[simp] theorem reach_append (front back : List A) : reach weight (front ++ back) = reach weight front + reach weight back := by
  simp [reach]

theorem boundary_zero : Boundary weight items 0 := ⟨[], items, rfl, rfl⟩

theorem boundary_reach : Boundary weight items (reach weight items) := ⟨items, [], by simp, rfl⟩

section Heavy

variable (heavy : ∀ item, 0 < weight item)

include heavy

variable (items front : List A) (start : Nat) (back : List A)

theorem skip_reach : skip weight (reach weight front) (front ++ back) = back := by
  induction front with
  | nil => cases back <;> simp [skip]
  | cons item front ih =>
    have further := heavy item
    rw [reach_cons, List.cons_append, skip, if_neg (by omega), Nat.add_sub_cancel_left, ih]

theorem keep_reach : keep weight (reach weight front) (front ++ back) = front := by
  induction front with
  | nil => cases back <;> simp [keep]
  | cons item front ih =>
    have further := heavy item
    rw [reach_cons, List.cons_append, keep, if_neg (by omega), Nat.add_sub_cancel_left, ih]

theorem slice_reach (middle back : List A) :
    slice weight (reach weight front) (reach weight front + reach weight middle) (front ++ (middle ++ back)) = middle := by
  rw [slice, skip_reach weight heavy, Nat.add_sub_cancel_left, keep_reach weight heavy]

theorem front_unique (other rest : List A) (same : front ++ back = other ++ rest)
    (reached : reach weight front = reach weight other) : front = other ∧ back = rest := by
  have kept := keep_reach weight heavy front back
  rw [same, reached, keep_reach weight heavy] at kept
  subst kept
  exact ⟨rfl, List.append_cancel_left same⟩

theorem Boundary.apart (whole : items = front ++ back) (offset : Nat)
    (boundary : Boundary weight items offset) (later : reach weight front ≤ offset) :
    ∃ middle rest, back = middle ++ rest ∧ reach weight (front ++ middle) = offset := by
  obtain ⟨before, after, split, rfl⟩ := boundary
  subst whole
  induction front generalizing before with
  | nil => exact ⟨before, after, by simpa using split, rfl⟩
  | cons item front ih =>
    have further := heavy item
    cases before with
    | nil =>
      rw [reach_cons, reach_nil] at later
      omega
    | cons first before =>
      rw [List.cons_append, List.cons_append, List.cons.injEq] at split
      obtain ⟨rfl, split⟩ := split
      obtain ⟨middle, rest, within, reached⟩ := ih before (by simpa using later) split
      exact ⟨middle, rest, within, by simpa using reached⟩

theorem slice_between (stop : Nat) (first : Boundary weight items start)
    (second : Boundary weight items stop) (ordered : start ≤ stop) :
    ∃ front middle back, items = front ++ (middle ++ back) ∧ reach weight front = start ∧
      start + reach weight middle = stop ∧ slice weight start stop items = middle := by
  obtain ⟨front, behind, whole, rfl⟩ := first
  obtain ⟨middle, back, rfl, reached⟩ := Boundary.apart weight heavy items front behind whole stop second ordered
  rw [reach_append] at reached
  subst reached
  exact ⟨front, middle, back, whole, rfl, rfl, by rw [whole, slice_reach weight heavy]⟩

theorem reach_slice (stop : Nat) (first : Boundary weight items start)
    (second : Boundary weight items stop) (ordered : start ≤ stop) :
    start + reach weight (slice weight start stop items) = stop := by
  obtain ⟨front, middle, back, -, -, reached, same⟩ := slice_between weight heavy items start stop first second ordered
  rw [same, reached]

theorem slice_append (middle stop : Nat) (first : Boundary weight items start)
    (second : Boundary weight items middle) (third : Boundary weight items stop) (ordered : start ≤ middle)
    (further : middle ≤ stop) :
    slice weight start middle items ++ slice weight middle stop items = slice weight start stop items := by
  obtain ⟨front, here, behind, whole, rfl, rfl, same⟩ := slice_between weight heavy items start middle first second ordered
  rw [← List.append_assoc] at whole
  obtain ⟨later, back, rfl, reached⟩ := Boundary.apart weight heavy items (front ++ here) behind whole stop third
    (by rwa [reach_append])
  rw [reach_append, reach_append] at reached
  have both := slice_reach weight heavy front (here ++ later) back
  have last := slice_reach weight heavy (front ++ here) later back
  rw [reach_append, reached] at last
  rw [reach_append, ← Nat.add_assoc, reached] at both
  rw [same, whole, last]
  simpa using both.symm

end Heavy

end Postio.Slices

namespace Postio

/-! Half-open ranges, and what folding together those that overlap or touch makes of them. -/

structure Range (A : Type) where
  start : A
  stop : A
  deriving DecidableEq

namespace Ranges

variable {A : Type} [LinearOrder A]

def Precedes (first second : Range A) : Prop := first.start < second.start ∨ first.start = second.start ∧ first.stop ≤ second.stop

instance (first second : Range A) : Decidable (Precedes first second) := inferInstanceAs (Decidable (_ ∨ _))

def joinFrom (last : Range A) : List (Range A) -> List (Range A)
  | [] => [last]
  | range :: rest =>
    if range.start ≤ last.stop then joinFrom { last with stop := max last.stop range.stop } rest
    else last :: joinFrom range rest

def joined : List (Range A) -> List (Range A)
  | [] => []
  | first :: rest => joinFrom first rest

variable (ranges taken merged : List (Range A))

def merge : List (Range A) := joined (ranges.insertionSort Precedes)

/-- Ranges apart from each other that cover what other ranges do, none of which is cut. -/
structure Merges (taken merged : List (Range A)) : Prop where
  apart : merged.Pairwise (fun first second => first.stop < second.start)
  begins : ∀ range ∈ merged, ∃ one ∈ taken, one.start = range.start ∧ one.stop ≤ range.stop
  ends : ∀ range ∈ merged, ∃ one ∈ taken, one.stop = range.stop ∧ range.start ≤ one.start
  whole : ∀ one ∈ taken, ∃ range ∈ merged, range.start ≤ one.start ∧ one.stop ≤ range.stop
  covered : ∀ range ∈ merged, ∀ place, range.start ≤ place → place < range.stop →
    ∃ one ∈ taken, one.start ≤ place ∧ place < one.stop

theorem joinFrom_merges (last : Range A) (rest : List (Range A))
    (ascending : (last :: rest).Pairwise (fun first second => first.start ≤ second.start)) :
    Merges (last :: rest) (joinFrom last rest) := by
  induction rest generalizing last with
  | nil =>
    refine ⟨List.pairwise_singleton _ _, ?_, ?_, ?_, ?_⟩
    next => exact fun range inside => ⟨range, inside, rfl, le_refl _⟩
    next => exact fun range inside => ⟨range, inside, rfl, le_refl _⟩
    next => exact fun range inside => ⟨range, inside, le_refl _, le_refl _⟩
    next => exact fun range inside place low high => ⟨range, inside, low, high⟩
  | cons range rest ih =>
    obtain ⟨first, further⟩ := List.pairwise_cons.mp ascending
    have begins := first range List.mem_cons_self
    unfold joinFrom
    split
    next touches =>
      have still : ({ last with stop := max last.stop range.stop } :: rest).Pairwise
          (fun first second => first.start ≤ second.start) :=
        List.pairwise_cons.mpr ⟨fun other inside => first other (List.mem_cons_of_mem _ inside), further.of_cons⟩
      have merges := ih { last with stop := max last.stop range.stop } still
      -- What the two ranges joined give is one of the two again.
      refine ⟨merges.apart, ?_, ?_, ?_, ?_⟩
      next =>
        intro merged inside
        obtain ⟨one, among, same, within⟩ := merges.begins merged inside
        rcases List.mem_cons.mp among with rfl | among
        next => exact ⟨last, List.mem_cons_self, same, le_trans (le_max_left _ _) within⟩
        next => exact ⟨one, List.mem_cons_of_mem _ (List.mem_cons_of_mem _ among), same, within⟩
      next =>
        intro merged inside
        obtain ⟨one, among, same, within⟩ := merges.ends merged inside
        rcases List.mem_cons.mp among with rfl | among
        next =>
          rcases max_choice last.stop range.stop with most | most
          next => exact ⟨last, List.mem_cons_self, by rw [← same]; exact most.symm, within⟩
          next =>
            refine ⟨range, List.mem_cons_of_mem _ List.mem_cons_self, by rw [← same]; exact most.symm, ?_⟩
            exact le_trans within begins
        next => exact ⟨one, List.mem_cons_of_mem _ (List.mem_cons_of_mem _ among), same, within⟩
      next =>
        have joined := merges.whole { last with stop := max last.stop range.stop } List.mem_cons_self
        obtain ⟨merged, inside, low, high⟩ := joined
        intro one among
        rcases List.mem_cons.mp among with rfl | among
        next => exact ⟨merged, inside, low, le_trans (le_max_left _ _) high⟩
        rcases List.mem_cons.mp among with rfl | among
        next => exact ⟨merged, inside, le_trans low begins, le_trans (le_max_right _ _) high⟩
        next => exact merges.whole one (List.mem_cons_of_mem _ among)
      next =>
        intro merged inside place low high
        obtain ⟨one, among, after, before⟩ := merges.covered merged inside place low high
        rcases List.mem_cons.mp among with rfl | among
        next =>
          rcases lt_or_ge place last.stop with within | past
          next => exact ⟨last, List.mem_cons_self, after, within⟩
          next =>
            refine ⟨range, List.mem_cons_of_mem _ List.mem_cons_self, le_trans touches past, ?_⟩
            exact (lt_max_iff.mp before).resolve_left (not_lt_of_ge past)
        next => exact ⟨one, List.mem_cons_of_mem _ (List.mem_cons_of_mem _ among), after, before⟩
    next beyond =>
      have merges := ih range further
      refine ⟨?_, ?_, ?_, ?_, ?_⟩
      next =>
        refine List.pairwise_cons.mpr ⟨?_, merges.apart⟩
        intro merged inside
        obtain ⟨one, among, same, -⟩ := merges.begins merged inside
        refine lt_of_lt_of_le (lt_of_not_ge beyond) ?_
        rw [← same]
        rcases List.mem_cons.mp among with rfl | among
        next => exact le_refl _
        next => exact List.rel_of_pairwise_cons further among
      next =>
        intro merged inside
        rcases List.mem_cons.mp inside with rfl | inside
        next => exact ⟨merged, List.mem_cons_self, rfl, le_refl _⟩
        obtain ⟨one, among, found⟩ := merges.begins merged inside
        exact ⟨one, List.mem_cons_of_mem _ among, found⟩
      next =>
        intro merged inside
        rcases List.mem_cons.mp inside with rfl | inside
        next => exact ⟨merged, List.mem_cons_self, rfl, le_refl _⟩
        obtain ⟨one, among, found⟩ := merges.ends merged inside
        exact ⟨one, List.mem_cons_of_mem _ among, found⟩
      next =>
        intro one among
        rcases List.mem_cons.mp among with rfl | among
        next => exact ⟨one, List.mem_cons_self, le_refl _, le_refl _⟩
        obtain ⟨merged, inside, found⟩ := merges.whole one among
        exact ⟨merged, List.mem_cons_of_mem _ inside, found⟩
      next =>
        intro merged inside place low high
        rcases List.mem_cons.mp inside with rfl | inside
        next => exact ⟨merged, List.mem_cons_self, low, high⟩
        obtain ⟨one, among, found⟩ := merges.covered merged inside place low high
        exact ⟨one, List.mem_cons_of_mem _ among, found⟩

theorem sorted_ascending : (ranges.insertionSort Precedes).Pairwise (fun first second => first.start ≤ second.start):= by
  have total : Std.Total (Precedes (A := A)) := by
    refine ⟨fun first second => ?_⟩
    rcases lt_trichotomy first.start second.start with less | same | more
    next => exact .inl (.inl less)
    next =>
      rcases le_total first.stop second.stop with less | more
      next => exact .inl (.inr ⟨same, less⟩)
      next => exact .inr (.inr ⟨same.symm, more⟩)
    next => exact .inr (.inl more)
  have transitive : IsTrans (Range A) Precedes := by
    refine ⟨fun first second third one two => ?_⟩
    rcases one with less | ⟨same, less⟩ <;> rcases two with more | ⟨also, more⟩
    next => exact .inl (lt_trans less more)
    next => exact .inl (also ▸ less)
    next => exact .inl (same ▸ more)
    next => exact .inr ⟨same.trans also, le_trans less more⟩
  refine (List.pairwise_insertionSort Precedes ranges).imp ?_
  rintro first second (less | ⟨same, -⟩)
  next => exact le_of_lt less
  next => exact le_of_eq same

theorem merge_merges : Merges ranges (merge ranges) := by
  have ascending := sorted_ascending ranges
  have same : ∀ range, range ∈ ranges.insertionSort Precedes <-> range ∈ ranges := fun range => List.mem_insertionSort _
  unfold merge
  cases sorted : ranges.insertionSort Precedes with
  | nil =>
    have empty : ranges = [] := List.eq_nil_iff_forall_not_mem.mpr fun range inside => by
      rw [← same range, sorted] at inside
      cases inside
    subst empty
    exact ⟨.nil, by simp [joined], by simp [joined], by simp, by simp [joined]⟩
  | cons first rest =>
    rw [sorted] at ascending same
    have merges := joinFrom_merges first rest ascending
    refine ⟨merges.apart, ?_, ?_, ?_, ?_⟩
    next => simpa only [joined, same] using merges.begins
    next => simpa only [joined, same] using merges.ends
    next => simpa only [joined, same] using merges.whole
    next => simpa only [joined, same] using merges.covered

theorem Merges.filled (merges : Merges taken merged)
    (filled : ∀ one ∈ taken, one.start < one.stop) : ∀ range ∈ merged, range.start < range.stop := by
  intro range inside
  obtain ⟨one, among, same, within⟩ := merges.begins range inside
  rw [← same]
  exact lt_of_lt_of_le (filled one among) within

theorem Merges.inside (merges : Merges taken merged) (range : Range A)
    (among : range ∈ merged) (place : A) (low : range.start ≤ place) (high : place < range.stop) :
    ∃ one ∈ taken, range.start ≤ one.start ∧ one.start ≤ place ∧ place < one.stop ∧ one.stop ≤ range.stop := by
  obtain ⟨one, inside, after, before⟩ := merges.covered range among place low high
  obtain ⟨other, also, starts, stops⟩ := merges.whole one inside
  have same : other = range := by
    by_contra different
    have apart : other.stop < range.start ∨ range.stop < other.start := by
      have symmetric : merged.Pairwise (fun first second => first.stop < second.start ∨ second.stop < first.start) :=
        merges.apart.imp .inl
      have symm : Std.Symm (fun first second : Range A => first.stop < second.start ∨ second.stop < first.start) :=
        ⟨fun _ _ => Or.symm⟩
      exact symmetric.forall also among different
    rcases apart with less | more
    next => exact absurd (lt_of_lt_of_le before stops) (not_lt_of_ge (le_trans (le_of_lt less) low))
    next => exact absurd (lt_of_lt_of_le high (le_of_lt more)) (not_lt_of_ge (le_trans starts after))
  subst same
  exact ⟨one, inside, starts, after, before, stops⟩

theorem Merges.nil_iff (merges : Merges taken merged) : merged = [] <-> taken = [] := by
  constructor
  next =>
    rintro rfl
    refine List.eq_nil_iff_forall_not_mem.mpr fun one among => ?_
    obtain ⟨range, inside, -⟩ := merges.whole one among
    cases inside
  next =>
    rintro rfl
    refine List.eq_nil_iff_forall_not_mem.mpr fun range inside => ?_
    obtain ⟨one, among, -⟩ := merges.begins range inside
    cases among

end Ranges

end Postio

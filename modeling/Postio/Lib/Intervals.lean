import Mathlib.Data.List.Sort
import Mathlib.Data.Set.Basic
import Mathlib.Order.SuccPred.Basic

set_option autoImplicit false

namespace Postio.Intervals

/-! Sets kept as lists of closed intervals over a linear order with successors, bounded or not. -/

variable {A : Type} [LinearOrder A]

abbrev Interval (A : Type) := A × A

def covered (ranges : List (Interval A)) : Set A := { value | ∃ range ∈ ranges, range.1 ≤ value ∧ value ≤ range.2 }

@[simp]
theorem covered_nil : covered ([] : List (Interval A)) = ∅ := by
  ext value
  simp [covered]

theorem covered_cons (range : Interval A) (ranges : List (Interval A)) :
    covered (range :: ranges) = { value | range.1 ≤ value ∧ value ≤ range.2 } ∪ covered ranges := by
  ext value
  simp [covered]

theorem covered_append (ranges others : List (Interval A)) : covered (ranges ++ others) = covered ranges ∪ covered others := by
  ext value
  simp [covered, or_and_right, exists_or]

theorem covered_perm (ranges others : List (Interval A)) (same : ranges.Perm others) : covered ranges = covered others := by
  ext value
  simp [covered, same.mem_iff]

variable [SuccOrder A]

def Apart (first second : Interval A) : Prop := Order.succ first.2 < second.1

structure Canonical (ranges : List (Interval A)) : Prop where
  filled : ∀ range ∈ ranges, range.1 ≤ range.2
  apart : ranges.Pairwise Apart

theorem Canonical.nil : Canonical ([] : List (Interval A)) := ⟨by simp, .nil⟩

variable (merged : List (Interval A)) (range : Interval A) (ranges : List (Interval A))

theorem Canonical.tail (canonical : Canonical (range :: ranges)) :
    Canonical ranges :=
  ⟨fun other inside => canonical.filled other (List.mem_cons_of_mem _ inside), canonical.apart.of_cons⟩

theorem Canonical.beyond (canonical : Canonical (range :: ranges))
    (value : A) (inside : value ∈ covered ranges) : Order.succ range.2 < value := by
  obtain ⟨other, among, low, _⟩ := inside
  exact lt_of_lt_of_le (List.rel_of_pairwise_cons canonical.apart among) low

theorem Canonical.first_least (canonical : Canonical (range :: ranges))
    (value : A) (inside : value ∈ covered (range :: ranges)) : range.1 ≤ value := by
  rw [covered_cons] at inside
  rcases inside with here | later
  next => exact here.1
  next =>
    calc range.1 ≤ range.2 := canonical.filled range List.mem_cons_self
      _ ≤ Order.succ range.2 := Order.le_succ range.2
      _ ≤ value := (canonical.beyond range ranges value later).le

theorem Canonical.end_greatest (canonical : Canonical (range :: ranges))
    (high : A) (whole : ∀ value, range.1 ≤ value -> value ≤ high -> value ∈ covered (range :: ranges)) : high ≤ range.2 := by
  by_contra further
  have past : range.2 < high := not_le.mp further
  have next_within : Order.succ range.2 ≤ high := Order.succ_le_of_lt past
  have next_from : range.1 ≤ Order.succ range.2 :=
    le_trans (canonical.filled range List.mem_cons_self) (Order.le_succ range.2)
  have inside := whole (Order.succ range.2) next_from next_within
  rw [covered_cons] at inside
  rcases inside with ⟨_, back⟩ | later
  next => exact not_lt_of_ge back (Order.lt_succ_of_not_isMax past.not_isMax)
  next => exact lt_irrefl _ (canonical.beyond range ranges _ later)

theorem Canonical.ext (others : List (Interval A)) (canonical : Canonical ranges) (also : Canonical others)
    (same : covered ranges = covered others) : ranges = others := by
  induction ranges generalizing others with
  | nil =>
    cases others with
    | nil => rfl
    | cons other others =>
      have inside : other.1 ∈ covered (other :: others) :=
        ⟨other, List.mem_cons_self, le_refl _, also.filled other List.mem_cons_self⟩
      rw [← same, covered_nil] at inside
      exact inside.elim
  | cons range ranges ih =>
    cases others with
    | nil =>
      have inside : range.1 ∈ covered (range :: ranges) :=
        ⟨range, List.mem_cons_self, le_refl _, canonical.filled range List.mem_cons_self⟩
      rw [same, covered_nil] at inside
      exact inside.elim
    | cons other others =>
      have starts : ∀ first : Interval A, ∀ rest, Canonical (first :: rest) -> first.1 ∈ covered (first :: rest) :=
        fun first rest whole => ⟨first, List.mem_cons_self, le_refl _, whole.filled first List.mem_cons_self⟩
      have low : range.1 = other.1 := le_antisymm
        (canonical.first_least range ranges _ (same ▸ starts other others also))
        (also.first_least other others _ (same ▸ starts range ranges canonical))
      have all : ∀ first : Interval A, ∀ rest value, first.1 ≤ value -> value ≤ first.2 -> value ∈ covered (first :: rest) :=
        fun first rest value from_low to_high => ⟨first, List.mem_cons_self, from_low, to_high⟩
      have high : range.2 = other.2 := le_antisymm
        (also.end_greatest other others _ (fun value from_low to_high => same ▸ all range ranges value (low ▸ from_low) to_high))
        (canonical.end_greatest range ranges _ (fun value from_low to_high => same ▸ all other others value (low ▸ from_low) to_high))
      obtain rfl : range = other := Prod.ext low high
      have rest : covered ranges = covered others := by
        ext value
        have here : value ∈ covered (range :: ranges) <-> value ∈ covered (range :: others) := by rw [same]
        rw [covered_cons, covered_cons] at here
        constructor
        next =>
          intro inside
          rcases here.mp (.inr inside) with ⟨_, back⟩ | later
          next => exact absurd (lt_of_le_of_lt (Order.le_succ range.2) (canonical.beyond range ranges value inside)) (not_lt_of_ge back)
          next => exact later
        next =>
          intro inside
          rcases here.mpr (.inr inside) with ⟨_, back⟩ | later
          next => exact absurd (lt_of_le_of_lt (Order.le_succ range.2) (also.beyond range others value inside)) (not_lt_of_ge back)
          next => exact later
      rw [ih others (canonical.tail range ranges) (also.tail range others) rest]

/-- One interval is taken up: it is joined to the last one if it overlaps or touches it. -/
def absorb : List (Interval A) :=
  match merged.getLast? with
  | some last =>
    if range.1 ≤ Order.succ last.2 then merged.dropLast ++ [(last.1, max last.2 range.2)] else merged ++ [range]
  | none => merged ++ [range]

structure Taken (merged : List (Interval A)) (from_here : A) : Prop where
  canonical : Canonical merged
  earlier : ∀ range ∈ merged, range.1 ≤ from_here

theorem absorb_taken (filled : range.1 ≤ range.2) (taken : Taken merged range.1) :
    Taken (absorb merged range) range.1 ∧ covered (absorb merged range) = covered (merged ++ [range]) := by
  rcases List.eq_nil_or_concat merged with rfl | ⟨before, last, rfl⟩
  next =>
    refine ⟨⟨⟨?_, ?_⟩, ?_⟩, rfl⟩
    next => simpa [absorb] using filled
    next => simp [absorb]
    next => simp [absorb]
  next =>
    rw [List.concat_eq_append] at taken ⊢
    have ends : last.1 ≤ last.2 := taken.canonical.filled last (by simp)
    have begins : last.1 ≤ range.1 := taken.earlier last (by simp)
    obtain ⟨inner, _, outer⟩ := List.pairwise_append.mp taken.canonical.apart
    unfold absorb
    simp only [List.getLast?_concat, List.dropLast_concat]
    split
    next touches =>
      refine ⟨⟨⟨?_, ?_⟩, ?_⟩, ?_⟩
      next =>
        intro other inside
        rcases List.mem_append.mp inside with inside | inside
        next => exact taken.canonical.filled other (by simp [inside])
        next =>
          obtain rfl := List.mem_singleton.mp inside
          exact le_max_of_le_left ends
      next =>
        refine List.pairwise_append.mpr ⟨inner, List.pairwise_singleton _ _, ?_⟩
        intro other inside joined among
        obtain rfl := List.mem_singleton.mp among
        exact outer other inside last (by simp)
      next =>
        intro other inside
        rcases List.mem_append.mp inside with inside | inside
        next => exact taken.earlier other (by simp [inside])
        next =>
          obtain rfl := List.mem_singleton.mp inside
          exact begins
      next =>
        rw [covered_append, covered_append, covered_append, Set.union_assoc]
        congr 1
        ext value
        simp only [covered, List.mem_singleton, exists_eq_left, Set.mem_ofPred_eq, Set.mem_union, le_max_iff]
        constructor
        next =>
          rintro ⟨low, high⟩
          rcases le_or_gt value last.2 with within | past
          next => exact .inl ⟨low, within⟩
          next =>
            refine .inr ⟨le_trans touches (Order.succ_le_of_lt past), ?_⟩
            exact high.resolve_left (not_le_of_gt past)
        next =>
          rintro (⟨low, high⟩ | ⟨low, high⟩)
          next => exact ⟨low, .inl high⟩
          next => exact ⟨le_trans begins low, .inr high⟩
    next beyond =>
      have clear : Apart last range := not_le.mp beyond
      refine ⟨⟨⟨?_, ?_⟩, ?_⟩, rfl⟩
      next =>
        intro other inside
        rcases List.mem_append.mp inside with inside | inside
        next => exact taken.canonical.filled other (by simpa using inside)
        next =>
          obtain rfl := List.mem_singleton.mp inside
          exact filled
      next =>
        refine List.pairwise_append.mpr ⟨by simpa using taken.canonical.apart, List.pairwise_singleton _ _, ?_⟩
        intro other inside joined among
        obtain rfl := List.mem_singleton.mp among
        rcases List.mem_append.mp inside with inside | inside
        next => exact lt_of_lt_of_le (outer other inside last (by simp)) begins
        next =>
          obtain rfl := List.mem_singleton.mp inside
          exact clear
      next =>
        intro other inside
        rcases List.mem_append.mp inside with inside | inside
        next => exact taken.earlier other (by simpa using inside)
        next =>
          obtain rfl := List.mem_singleton.mp inside
          exact le_refl _

theorem absorbs_taken (filled : ∀ range ∈ ranges, range.1 ≤ range.2)
    (ascending : ranges.Pairwise (fun first second => first.1 ≤ second.1))
    (canonical : Canonical merged) (earlier : ∀ range ∈ ranges, ∀ before ∈ merged, before.1 ≤ range.1) :
    Canonical (ranges.foldl absorb merged) ∧ covered (ranges.foldl absorb merged) = covered (merged ++ ranges) := by
  induction ranges generalizing merged with
  | nil => simpa using canonical
  | cons range ranges ih =>
    obtain ⟨taken, covers⟩ := absorb_taken merged range (filled range List.mem_cons_self)
      ⟨canonical, earlier range List.mem_cons_self⟩
    have next := ih (absorb merged range) (fun other inside => filled other (List.mem_cons_of_mem _ inside))
      ascending.of_cons taken.canonical
      (fun other inside before among => le_trans (taken.earlier before among) (List.rel_of_pairwise_cons ascending inside))
    refine ⟨next.1, ?_⟩
    rw [List.foldl_cons, next.2, covered_append, covers, ← covered_append, List.append_assoc, List.singleton_append]

end Postio.Intervals

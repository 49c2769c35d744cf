import Mathlib.Algebra.GroupWithZero.Nat
import Mathlib.Data.Fin.SuccPredOrder
import Postio.Lib.Intervals

set_option autoImplicit false

namespace Postio

/-- `u32`. -/
abbrev U32 := Fin 4294967296

namespace U32

theorem size_ne_zero : NeZero 4294967296 := ⟨by decide⟩

def max : U32 := 4294967295

variable (value : U32)

def saturatingAdd (other : U32) : U32 :=
  if fits : value.val + other.val < 4294967296 then ⟨value.val + other.val, fits⟩ else max

theorem le_max : value ≤ max := Fin.le_last value

theorem saturatingAdd_one : saturatingAdd value 1 = Order.succ value := by
  unfold saturatingAdd
  by_cases last : value = max
  next =>
    subst last
    have top : IsMax max := fun other _ => le_max other
    rw [Order.succ_eq_iff_isMax.mpr top]
    rfl
  next =>
    have below : value.val ≠ 4294967295 := fun same => last (Fin.ext same)
    have fits : value.val + (1 : U32).val < 4294967296 := by
      have one : (1 : U32).val = 1 := rfl
      omega
    rw [dif_pos fits]
    apply Eq.symm
    apply Order.succ_eq_of_covBy
    constructor
    next => exact Fin.lt_def.mpr (Nat.lt_succ_self value.val)
    next =>
      intro between above under
      rw [Fin.lt_def] at above under
      change between.val < value.val + 1 at under
      omega

theorem le_saturatingAdd_one (low high : U32) : low ≤ saturatingAdd high 1 <-> low.val ≤ high.val + 1 := by
  unfold saturatingAdd
  have one : (1 : U32).val = 1 := rfl
  split
  next fits => exact Fin.le_def
  next full =>
    have within := low.isLt
    exact ⟨fun _ => by omega, fun _ => le_max low⟩

end U32

structure UidSet where
  ranges : List (U32 × U32)
  deriving DecidableEq

namespace UidSet

variable (set : UidSet) (first : U32 × U32) (uids : List U32) (members : Set U32) (second : U32 × U32) (uid : U32)

/-- The order of the derived `Ord` on pairs. -/
def Before : Prop := first.1 < second.1 ∨ first.1 = second.1 ∧ first.2 ≤ second.2

instance : DecidableRel Before := fun first second =>
  inferInstanceAs (Decidable (first.1 < second.1 ∨ first.1 = second.1 ∧ first.2 ≤ second.2))

/-- One range of `normalize`'s loop, over the ranges merged so far. -/
def mergeRange (merged : List (U32 × U32)) (range : U32 × U32) : List (U32 × U32) :=
  match merged.getLast? with
  | some last =>
    if range.1 ≤ U32.saturatingAdd last.2 1 then merged.dropLast ++ [(last.1, max last.2 range.2)]
    else merged ++ [range]
  | none => merged ++ [range]

def normalize (ranges : List (U32 × U32)) : List (U32 × U32) := (ranges.insertionSort Before).foldl mergeRange []

def new : UidSet := { ranges := [] }

def insertRange (first last : U32) : UidSet :=
  let (low, high) := if first ≤ last then (first, last) else (last, first)
  let low := max low 1
  if high < 1 then set else { ranges := normalize (set.ranges ++ [(low, high)]) }

def insert : UidSet := set.insertRange uid uid

def contains : Bool :=
  decide (1 ≤ uid) && set.ranges.any (fun range => decide (range.1 ≤ uid) && decide (uid ≤ range.2))

def fromIter : UidSet :=
  { ranges := normalize ((uids.filter (fun uid => 1 ≤ uid)).map (fun uid => (uid, uid))) }

def extend : UidSet := uids.foldl insert set

/-! ### What the code does to a set, and what a set of numbers it stands for -/

/-- A call. `fromIter` makes a set anew. -/
inductive Edit where
  | insert (uid : U32)
  | insertRange (first last : U32)
  | extend (uids : List U32)
  | fromIter (uids : List U32)

def apply : Edit -> UidSet
  | .insert uid => set.insert uid
  | .insertRange first last => set.insertRange first last
  | .extend uids => set.extend uids
  | .fromIter uids => fromIter uids

def run (edits : List Edit) : UidSet := edits.foldl apply new

/-- The UIDs a call is given. Zero is none. -/
def Edit.given : Edit -> Set U32
  | .insert uid => { other | other = uid ∧ other ≠ 0 }
  | .insertRange first last => { other | min first last ≤ other ∧ other ≤ max first last ∧ other ≠ 0 }
  | .extend uids => { other | other ∈ uids ∧ other ≠ 0 }
  | .fromIter uids => { other | other ∈ uids ∧ other ≠ 0 }

def union : Set U32 -> Edit -> Set U32
  | _, .fromIter uids => (Edit.fromIter uids).given
  | before, edit => before ∪ edit.given

def given (edits : List Edit) : Set U32 := edits.foldl union ∅

/-- Non-empty ranges without zero, ascending, disjoint, and with a gap between any two. -/
structure Canonical (set : UidSet) : Prop where
  filled : ∀ range ∈ set.ranges, range.1 ≤ range.2
  zeroFree : ∀ range ∈ set.ranges, range.1 ≠ 0
  apart : set.ranges.Pairwise (fun first second => first.2.val + 1 < second.1.val)

/-! ### The loop of `normalize` -/

theorem mergeRange_absorbs (merged : List (U32 × U32)) (range : U32 × U32) :
    mergeRange merged range = Intervals.absorb merged range := by
  unfold mergeRange Intervals.absorb
  cases merged.getLast? with
  | none => rfl
  | some last => simp only [U32.saturatingAdd_one]

theorem apart_read :
    Intervals.Apart first second <-> first.2.val + 1 < second.1.val := by
  unfold Intervals.Apart
  rw [← U32.saturatingAdd_one, ← not_le, U32.le_saturatingAdd_one, not_le]

instance : Std.Total Before where
  total first second := by
    unfold Before
    rcases lt_trichotomy first.1 second.1 with less | same | more
    next => exact .inl (.inl less)
    next =>
      rcases le_total first.2 second.2 with less | more
      next => exact .inl (.inr ⟨same, less⟩)
      next => exact .inr (.inr ⟨same.symm, more⟩)
    next => exact .inr (.inl more)

instance : IsTrans (U32 × U32) Before where
  trans first second third := by
    rintro (less | ⟨same, less⟩) (further | ⟨still, further⟩)
    next => exact .inl (less.trans further)
    next => exact .inl (still ▸ less)
    next => exact .inl (same ▸ further)
    next => exact .inr ⟨same.trans still, less.trans further⟩

theorem Before.starts (before : Before first second) : first.1 ≤ second.1 := by
  rcases before with less | ⟨same, _⟩
  next => exact less.le
  next => exact same.le

theorem normalize_exact (ranges : List (U32 × U32)) (filled : ∀ range ∈ ranges, range.1 ≤ range.2) :
    Intervals.Canonical (normalize ranges) ∧ Intervals.covered (normalize ranges) = Intervals.covered ranges := by
  have merges : mergeRange = Intervals.absorb := funext (fun merged => funext (mergeRange_absorbs merged))
  have sorted := List.pairwise_insertionSort Before ranges
  have perm := List.perm_insertionSort Before ranges
  unfold normalize
  rw [merges, ← Intervals.covered_perm _ _ perm]
  exact Intervals.absorbs_taken [] (ranges.insertionSort Before) (fun range inside => filled range (perm.mem_iff.mp inside))
    (sorted.imp (fun before => Before.starts _ _ before)) Intervals.Canonical.nil (by simp)

/-- The invariant: the ranges are canonical, and cover what was given, zero left out. -/
structure Holds (set : UidSet) (members : Set U32) : Prop where
  canonical : Intervals.Canonical set.ranges
  exact : Intervals.covered set.ranges = members
  zeroFree : (0 : U32) ∉ members

theorem new_holds : Holds new ∅ := ⟨Intervals.Canonical.nil, Intervals.covered_nil, fun none => none⟩

theorem one_le : 1 ≤ uid <-> uid ≠ 0 := by
  rw [Fin.le_def, ← Fin.val_ne_iff]
  exact Nat.one_le_iff_ne_zero

theorem insertRange_read (first last : U32) :
    set.insertRange first last = if max first last < 1 then set
      else { ranges := normalize (set.ranges ++ [(max (min first last) 1, max first last)]) } := by
  unfold insertRange
  rcases le_total first last with less | more
  next => simp only [if_pos less, min_eq_left less, max_eq_right less]
  next =>
    have swapped : (if first ≤ last then (first, last) else (last, first)) = (last, first) := by
      split
      next less => rw [le_antisymm less more]
      next => rfl
    simp only [swapped, min_eq_right more, max_eq_left more]

theorem insertRange_holds (first last : U32) (holds : Holds set members) :
    Holds (set.insertRange first last) (members ∪ (Edit.insertRange first last).given) := by
  have bounds : min first last ≤ max first last := min_le_max
  have zeroFree : (0 : U32) ∉ members ∪ (Edit.insertRange first last).given := by
    rintro (before | ⟨_, _, zero⟩)
    next => exact holds.zeroFree before
    next => exact zero rfl
  rw [insertRange_read]
  split
  next none =>
    have nothing : (Edit.insertRange first last).given = ∅ := by
      ext uid
      refine ⟨?_, fun inside => inside.elim⟩
      rintro ⟨_, high, zero⟩
      exact (not_lt.mpr ((one_le uid).mpr zero) (lt_of_le_of_lt high none)).elim
    rw [nothing, Set.union_empty]
    exact holds
  next some_left =>
    have filled : ∀ range ∈ set.ranges ++ [(max (min first last) 1, max first last)], range.1 ≤ range.2 := by
      intro range inside
      rcases List.mem_append.mp inside with inside | inside
      next => exact holds.canonical.filled range inside
      next =>
        obtain rfl := List.mem_singleton.mp inside
        exact max_le bounds (not_lt.mp some_left)
    obtain ⟨canonical, covers⟩ := normalize_exact _ filled
    refine ⟨canonical, ?_, zeroFree⟩
    change Intervals.covered (normalize _) = _
    rw [covers, Intervals.covered_append, holds.exact, Intervals.covered_cons, Intervals.covered_nil, Set.union_empty]
    congr 1
    ext uid
    change max (min first last) 1 ≤ uid ∧ uid ≤ max first last <-> min first last ≤ uid ∧ uid ≤ max first last ∧ uid ≠ 0
    rw [max_le_iff, one_le]
    tauto

theorem insert_holds (holds : Holds set members) :
    Holds (set.insert uid) (members ∪ (Edit.insert uid).given) := by
  have same : (Edit.insertRange uid uid).given = (Edit.insert uid).given := by
    ext other
    change min uid uid ≤ other ∧ other ≤ max uid uid ∧ other ≠ 0 <-> other = uid ∧ other ≠ 0
    rw [min_self, max_self, ← and_assoc, ← le_antisymm_iff, eq_comm]
  rw [← same]
  exact insertRange_holds set members uid uid holds

theorem extend_holds (uids : List U32) (holds : Holds set members) :
    Holds (set.extend uids) (members ∪ (Edit.extend uids).given) := by
  unfold extend
  induction uids generalizing set members with
  | nil =>
    have nothing : (Edit.extend []).given = ∅ := by
      ext uid
      simp [Edit.given]
    rw [nothing, Set.union_empty]
    exact holds
  | cons uid uids ih =>
    have split : (Edit.extend (uid :: uids)).given = (Edit.insert uid).given ∪ (Edit.extend uids).given := by
      ext other
      simp [Edit.given, or_and_right]
    have next := ih _ _ (insert_holds set members uid holds)
    rw [split, ← Set.union_assoc]
    exact next

theorem fromIter_holds : Holds (fromIter uids) (Edit.fromIter uids).given := by
  have filled : ∀ range ∈ (uids.filter (fun uid => 1 ≤ uid)).map (fun uid => (uid, uid)), range.1 ≤ range.2 := by
    intro range inside
    obtain ⟨uid, _, rfl⟩ := List.mem_map.mp inside
    exact le_refl _
  obtain ⟨canonical, covers⟩ := normalize_exact _ filled
  refine ⟨canonical, ?_, fun zero => zero.2 rfl⟩
  change Intervals.covered (normalize _) = _
  rw [covers]
  ext uid
  constructor
  next =>
    rintro ⟨range, inside, low, high⟩
    obtain ⟨other, kept, rfl⟩ := List.mem_map.mp inside
    obtain ⟨among, positive⟩ := List.mem_filter.mp kept
    obtain rfl := le_antisymm low high
    exact ⟨among, (one_le _).mp (of_decide_eq_true positive)⟩
  next =>
    rintro ⟨among, positive⟩
    have kept : uid ∈ uids.filter (fun uid => 1 ≤ uid) :=
      List.mem_filter.mpr ⟨among, decide_eq_true ((one_le uid).mpr positive)⟩
    exact ⟨(uid, uid), List.mem_map.mpr ⟨uid, kept, rfl⟩, le_refl _, le_refl _⟩

theorem apply_holds (edit : Edit) (holds : Holds set members) :
    Holds (apply set edit) (union members edit) := by
  cases edit with
  | insert uid => exact insert_holds set members uid holds
  | insertRange first last => exact insertRange_holds set members first last holds
  | extend uids => exact extend_holds set members uids holds
  | fromIter uids => exact fromIter_holds uids

theorem run_holds (edits : List Edit) : Holds (run edits) (given edits) := by
  unfold run given
  have before := new_holds
  generalize new = set at before ⊢
  generalize (∅ : Set U32) = members at before ⊢
  induction edits generalizing set members with
  | nil => exact before
  | cons edit edits ih => exact ih _ _ (apply_holds set members edit before)

/-! ### What a caller sees of it -/

theorem Holds.contains (holds : Holds set members) (uid : U32) :
    set.contains uid = true <-> uid ∈ members := by
  rw [← holds.exact]
  unfold UidSet.contains Intervals.covered
  simp only [Bool.and_eq_true, decide_eq_true_eq, List.any_eq_true]
  constructor
  next => exact fun inside => inside.2
  next =>
    intro inside
    refine ⟨(one_le uid).mpr ?_, inside⟩
    rintro rfl
    exact holds.zeroFree (holds.exact ▸ inside)

theorem Holds.shape (holds : Holds set members) : Canonical set where
  filled := holds.canonical.filled
  zeroFree range inside zero := by
    have covered : range.1 ∈ Intervals.covered set.ranges :=
      ⟨range, inside, le_refl _, holds.canonical.filled range inside⟩
    rw [holds.exact, zero] at covered
    exact holds.zeroFree covered
  apart := holds.canonical.apart.imp (fun apart => (apart_read _ _).mp apart)

/-- After any calls, a `UidSet` is in canonical form, has the UIDs it was given, and is told from another only by them. The test
for neighbours is exact at the bound of `u32`. -/
theorem run_canonical (edits others : List Edit) :
    Canonical (run edits) ∧
    (∀ uid, (run edits).contains uid = true <-> uid ∈ given edits) ∧
    (run edits = run others <-> ∀ uid, (run edits).contains uid = (run others).contains uid) ∧
    (∀ low high : U32, low ≤ U32.saturatingAdd high 1 <-> low.val ≤ high.val + 1) := by
  have first := run_holds edits
  have second := run_holds others
  refine ⟨first.shape, first.contains, ⟨fun same uid => by rw [same], ?_⟩, U32.le_saturatingAdd_one⟩
  intro same
  have members : given edits = given others := by
    ext uid
    rw [← first.contains, ← second.contains, same uid]
  have ranges := Intervals.Canonical.ext _ _ first.canonical second.canonical
    (first.exact.trans (members.trans second.exact.symm))
  exact congrArg UidSet.mk ranges

end UidSet

end Postio

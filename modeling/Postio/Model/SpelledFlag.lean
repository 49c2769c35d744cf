import Mathlib.Data.List.Sort
import Mathlib.Order.Basic
import Mathlib.Data.String.Basic
import Postio.Lib.Lines

set_option autoImplicit false

namespace Postio

/-! Flags as they are spelled and stored. Elsewhere a set of flags is a set; here it has an order and a text. -/

inductive SpelledFlag where
  | seen
  | answered
  | flagged
  | deleted
  | draft
  | recent
  | forwarded
  | junk
  | notJunk
  | keyword (name : List Char)
  deriving DecidableEq

namespace SpelledFlag

/-- The canonical wire spelling. -/
def asStr : SpelledFlag -> List Char
  | .seen => ['\\', 'S', 'e', 'e', 'n']
  | .answered => ['\\', 'A', 'n', 's', 'w', 'e', 'r', 'e', 'd']
  | .flagged => ['\\', 'F', 'l', 'a', 'g', 'g', 'e', 'd']
  | .deleted => ['\\', 'D', 'e', 'l', 'e', 't', 'e', 'd']
  | .draft => ['\\', 'D', 'r', 'a', 'f', 't']
  | .recent => ['\\', 'R', 'e', 'c', 'e', 'n', 't']
  | .forwarded => ['$', 'F', 'o', 'r', 'w', 'a', 'r', 'd', 'e', 'd']
  | .junk => ['$', 'J', 'u', 'n', 'k']
  | .notJunk => ['$', 'N', 'o', 't', 'J', 'u', 'n', 'k']
  | .keyword name => name

def toAsciiLowercase (text : List Char) : List Char := text.map Char.toLower

def named : List SpelledFlag :=
  [.seen, .answered, .flagged, .deleted, .draft, .recent, .forwarded, .junk, .notJunk]

def parse (raw : List Char) : SpelledFlag :=
  (named.find? (fun flag => toAsciiLowercase flag.asStr = toAsciiLowercase (Lines.trim raw))).getD (.keyword (Lines.trim raw))

def rank : SpelledFlag -> Nat
  | .seen => 0
  | .answered => 1
  | .flagged => 2
  | .deleted => 3
  | .draft => 4
  | .recent => 5
  | .forwarded => 6
  | .junk => 7
  | .notJunk => 8
  | .keyword _ => 9

def folded : SpelledFlag -> List Char
  | .keyword name => toAsciiLowercase name
  | _ => []

variable (first second : SpelledFlag)

/-- `Ord` finds the first less than the second. -/
def Before : Prop :=
  first.rank < second.rank ∨ first.rank = second.rank ∧ first.folded < second.folded

instance : DecidableRel Before := fun first second =>
  inferInstanceAs (Decidable (first.rank < second.rank ∨ first.rank = second.rank ∧ first.folded < second.folded))

/-- `PartialEq`. -/
def same : Bool := first.rank = second.rank && first.folded = second.folded

theorem Before.irrefl (flag : SpelledFlag) : ¬ Before flag flag := by
  rintro (less | ⟨_, less⟩)
  next => exact lt_irrefl _ less
  next => exact lt_irrefl _ less

theorem Before.trans (third : SpelledFlag) (left : Before first second) (right : Before second third) :
    Before first third := by
  rcases left with less | ⟨rank, less⟩ <;> rcases right with further | ⟨still, further⟩
  next => exact .inl (less.trans further)
  next => exact .inl (still ▸ less)
  next => exact .inl (rank ▸ further)
  next => exact .inr ⟨rank.trans still, less.trans further⟩

instance : Std.Irrefl Before := ⟨Before.irrefl⟩

instance : Std.Antisymm Before :=
  ⟨fun first _ left right => absurd (Before.trans _ _ _ left right) (Before.irrefl first)⟩

theorem same_of_not_before (left : ¬ Before first second) (right : ¬ Before second first) :
    first.rank = second.rank ∧ first.folded = second.folded := by
  unfold Before at left right
  push Not at left right
  have rank : first.rank = second.rank := le_antisymm right.1 left.1
  exact ⟨rank, le_antisymm (right.2 rank.symm) (left.2 rank)⟩

theorem eq_of_rank (flag other : SpelledFlag) (known : flag.rank < 9) (same : flag.rank = other.rank) : flag = other := by
  cases flag <;> cases other <;> simp_all [rank]

end SpelledFlag

/-- A set of flags, in its canonical order. -/
structure SpelledFlags where
  flags : List SpelledFlag
  ordered : flags.Pairwise SpelledFlag.Before
  deriving DecidableEq

namespace SpelledFlags

open SpelledFlag

/-- A flag at its place. Of an equal flag that is there already one stays: the new one if it `replaces`. -/
def place (replaces : Bool) (flag : SpelledFlag) : List SpelledFlag -> List SpelledFlag
  | [] => [flag]
  | head :: tail =>
    if Before flag head then flag :: head :: tail
    else if Before head flag then head :: place replaces flag tail
    else (if replaces then flag else head) :: tail

variable (set : SpelledFlags) (replaces : Bool) (flag : SpelledFlag) (flags : List SpelledFlag) (other : SpelledFlag)
    (present : Bool)

theorem mem_place (flags : List SpelledFlag) (inside : other ∈ place replaces flag flags) :
    other = flag ∨ other ∈ flags := by
  induction flags with
  | nil => exact .inl (by simpa [place] using inside)
  | cons head tail ih =>
    unfold place at inside
    split at inside
    next => simpa using inside
    next =>
      split at inside
      next =>
        rcases List.mem_cons.mp inside with rfl | inside
        next => exact .inr List.mem_cons_self
        next => exact (ih inside).imp_right (List.mem_cons_of_mem _)
      next =>
        rcases List.mem_cons.mp inside with rfl | inside
        next => split <;> simp
        next => exact .inr (List.mem_cons_of_mem _ inside)

theorem place_ordered (ordered : flags.Pairwise Before) : (place replaces flag flags).Pairwise Before:= by
  induction flags with
  | nil => simp [place]
  | cons head tail ih =>
    have later : ∀ other ∈ tail, Before head other := fun other inside => List.rel_of_pairwise_cons ordered inside
    unfold place
    split
    next before =>
      refine List.Pairwise.cons ?_ ordered
      rintro other (_ | ⟨_, inside⟩)
      next => exact before
      next => exact before.trans _ _ _ (later other inside)
    next not_before =>
      split
      next after =>
        refine List.Pairwise.cons ?_ (ih ordered.of_cons)
        intro other inside
        rcases mem_place replaces flag other tail inside with rfl | inside
        next => exact after
        next => exact later other inside
      next not_after =>
        obtain ⟨rank, folded⟩ := same_of_not_before flag head not_before not_after
        refine List.Pairwise.cons ?_ ordered.of_cons
        intro other inside
        split
        next =>
          have beyond := later other inside
          unfold Before at beyond ⊢
          rw [rank, folded]
          exact beyond
        next => exact later other inside

def empty : SpelledFlags := ⟨[], List.Pairwise.nil⟩

def insert : SpelledFlags :=
  ⟨place false flag set.flags, place_ordered false flag set.flags set.ordered⟩

def remove : SpelledFlags :=
  ⟨set.flags.filter (fun other => !flag.same other), set.ordered.filter _⟩

def contains : Bool := set.flags.any (fun other => flag.same other)

def replace : SpelledFlags :=
  ⟨place true flag set.flags, place_ordered true flag set.flags set.ordered⟩

def collect : SpelledFlags := flags.foldl replace empty

def persistable : SpelledFlags :=
  ⟨set.flags.filter (fun flag => flag ≠ .recent), set.ordered.filter _⟩

def flagText : List Char := List.intercalate [' '] (set.flags.map asStr)

def parseFlags (text : List Char) : SpelledFlags := collect ((Lines.splitWhitespace text).map parse)

def system : List SpelledFlag := [.seen, .answered, .flagged, .deleted, .draft]

theorem mem_system : flag ∈ system <-> flag.rank < 5 := by
  cases flag <;> simp [system, rank]

theorem contains_named (known : flag.rank < 9) :
    set.contains flag = true <-> flag ∈ set.flags := by
  unfold contains same
  simp only [List.any_eq_true, Bool.and_eq_true, decide_eq_true_eq]
  constructor
  next =>
    rintro ⟨other, inside, rank, _⟩
    exact eq_of_rank flag other known rank ▸ inside
  next => exact fun inside => ⟨flag, inside, rfl, rfl⟩

theorem place_here (known : flag.rank < 9) :
    flag ∈ place replaces flag flags := by
  induction flags with
  | nil => simp [place]
  | cons head tail ih =>
    unfold place
    split
    next => exact List.mem_cons_self
    next not_before =>
      split
      next => exact List.mem_cons_of_mem _ ih
      next not_after =>
        have equal := eq_of_rank flag head known (same_of_not_before flag head not_before not_after).1
        split
        next => exact List.mem_cons_self
        next => exact equal ▸ List.mem_cons_self

theorem place_kept (flags : List SpelledFlag) (inside : other ∈ flags) :
    other ∈ place false flag flags := by
  induction flags with
  | nil => cases inside
  | cons head tail ih =>
    unfold place
    split
    next => exact List.mem_cons_of_mem _ inside
    next =>
      split
      next =>
        rcases List.mem_cons.mp inside with rfl | inside
        next => exact List.mem_cons_self
        next => exact List.mem_cons_of_mem _ (ih inside)
      next => exact inside

def columned : Bool := flag.rank < 5

theorem flags_apart :
    set.flags = system.filter (fun flag => flag ∈ set.flags) ++ set.flags.filter (fun flag => !columned flag) := by
  have inner : (system.filter (fun flag => flag ∈ set.flags)).Pairwise Before := by
    apply List.Pairwise.filter
    decide
  apply List.Pairwise.eq_of_mem_iff set.ordered
  next =>
    refine List.pairwise_append.mpr ⟨inner, set.ordered.filter _, ?_⟩
    intro flag inside other among
    have low := (mem_system flag).mp (List.mem_filter.mp inside).1
    have high : ¬ other.rank < 5 := by simpa [columned] using (List.mem_filter.mp among).2
    exact .inl (by omega)
  next =>
    intro flag
    rw [List.mem_append, List.mem_filter, List.mem_filter, mem_system]
    simp only [decide_eq_true_eq, columned, Bool.not_eq_true']
    rcases Nat.lt_or_ge flag.rank 5 with low | high
    next => simp [low]
    next => simp [Nat.not_lt.mpr high]

def edit : SpelledFlags :=
  if present then set.insert flag else set.remove flag

theorem place_others (known : flag.rank < 5) :
    (place replaces flag flags).filter (fun other => !columned other) = flags.filter (fun other => !columned other) := by
  have own : columned flag = true := decide_eq_true known
  induction flags with
  | nil => simp [place, own]
  | cons head tail ih =>
    unfold place
    split
    next => rw [List.filter_cons_of_neg (by simp [own])]
    next not_before =>
      split
      next => rw [List.filter_cons, List.filter_cons, ih]
      next not_after =>
        have equal := eq_of_rank flag head (by omega) (same_of_not_before flag head not_before not_after).1
        simp [← equal]

theorem edit_others (known : flag.rank < 5) :
    (set.edit flag present).flags.filter (fun other => !columned other) = set.flags.filter (fun other => !columned other) := by
  cases present with
  | true => exact place_others false flag set.flags known
  | false =>
    change (set.flags.filter _).filter _ = _
    rw [List.filter_filter]
    apply List.filter_congr
    intro other _
    cases high : columned other with
    | true => rfl
    | false =>
      have apart : flag.rank ≠ other.rank := by
        have beyond : ¬ other.rank < 5 := by simpa [columned] using high
        omega
      simp [same, apart]

theorem edit_contains (known : flag.rank < 9) (also : other.rank < 9) :
    (set.edit flag present).contains other = if other = flag then present else set.contains other := by
  apply Bool.eq_iff_iff.mpr
  rw [contains_named _ _ also]
  cases present with
  | true =>
    change other ∈ place false flag set.flags <-> _
    split
    next equal => simpa [equal] using place_here false flag set.flags known
    next apart =>
      rw [contains_named _ _ also]
      constructor
      next => exact fun inside => (mem_place false flag other set.flags inside).resolve_left apart
      next => exact place_kept flag other set.flags
  | false =>
    change other ∈ set.flags.filter _ <-> _
    rw [List.mem_filter]
    split
    next equal => simp [equal, same]
    next apart =>
      rw [contains_named _ _ also]
      have differs : flag.same other = false := by
        rw [Bool.eq_false_iff]
        intro equal
        simp only [same, Bool.and_eq_true, decide_eq_true_eq] at equal
        exact apart (eq_of_rank flag other known equal.1).symm
      simp [differs]

theorem persistable_contains (known : flag.rank < 5) :
    set.persistable.contains flag = set.contains flag := by
  apply Bool.eq_iff_iff.mpr
  rw [contains_named _ _ (by omega), contains_named _ _ (by omega)]
  change flag ∈ set.flags.filter _ <-> _
  rw [List.mem_filter]
  constructor
  next => exact fun inside => inside.1
  next =>
    refine fun inside => ⟨inside, ?_⟩
    rw [decide_eq_true_iff]
    rintro rfl
    exact absurd known (by decide)

theorem mem_collect (flag : SpelledFlag) (inside : flag ∈ (collect flags).flags) : flag ∈ flags := by
  have step : ∀ (flags : List SpelledFlag) (set : SpelledFlags), flag ∈ (flags.foldl replace set).flags ->
      flag ∈ set.flags ∨ flag ∈ flags := by
    intro flags
    induction flags with
    | nil => exact fun set inside => .inl inside
    | cons head tail ih =>
      intro set inside
      rcases ih (set.replace head) inside with placed | later
      next =>
        rcases mem_place true head flag set.flags placed with rfl | before
        next => exact .inr List.mem_cons_self
        next => exact .inl before
      next => exact .inr (List.mem_cons_of_mem _ later)
  rcases step flags empty inside with none | inside
  next => cases none
  next => exact inside

theorem parse_filled (word : List Char) (filled : word ≠ []) (solid : ∀ char ∈ word, Lines.isWhitespace char = false) :
    (SpelledFlag.parse word).asStr ≠ [] ∧ ' ' ∉ (SpelledFlag.parse word).asStr := by
  have trimmed : Lines.trim word = word := Lines.trim_solid word solid
  unfold SpelledFlag.parse
  rw [trimmed]
  cases found : named.find? (fun flag => toAsciiLowercase flag.asStr = toAsciiLowercase word) with
  | none =>
    refine ⟨filled, ?_⟩
    intro inside
    exact absurd (solid ' ' inside) (by decide)
  | some flag =>
    have all : ∀ flag ∈ named, flag.asStr ≠ [] ∧ ' ' ∉ flag.asStr := by decide
    exact all flag (List.mem_of_find?_eq_some found)

theorem parseFlags_filled (text : List Char) (flag : SpelledFlag) (inside : flag ∈ (parseFlags text).flags) :
    flag.asStr ≠ [] ∧ ' ' ∉ flag.asStr := by
  obtain ⟨word, among, rfl⟩ := List.mem_map.mp (mem_collect _ flag inside)
  obtain ⟨filled, solid⟩ := Lines.splitWhitespace_words text word among
  exact parse_filled word filled solid

end SpelledFlags

end Postio

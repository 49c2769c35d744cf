import Mathlib.Data.List.Sort
import Mathlib.Order.Lattice

set_option autoImplicit false

namespace Postio.Windows

/-! Lists in strictly descending order of a key, read in windows that resume after a cursor. -/

section listing

variable {Row Key : Type} [LinearOrder Key] (key : Row -> Key)

variable (rows : List Row) (cursor : Option Key)

def Descending : Prop := rows.Pairwise (fun first second => key second < key first)

def sorted : List Row := rows.insertionSort (fun first second => key second ≤ key first)

def after (rows : List Row) : List Row :=
  rows.filter (fun row => cursor.all (fun held => decide (key row < held)))

def window (limit : Nat) (cursor : Option Key) : List Row := (after key cursor rows).take limit

@[simp]
theorem after_none : after key none rows = rows := List.filter_eq_self.mpr fun _ _ => rfl

theorem mem_after (rows : List Row) (row : Row) :
    row ∈ after key cursor rows <-> row ∈ rows ∧ ∀ held, cursor = some held -> key row < held := by
  unfold after
  rw [List.mem_filter]
  cases cursor <;> simp

theorem after_descending (rows : List Row) (descending : Descending key rows) :
    Descending key (after key cursor rows) := descending.filter _

theorem descending_nodup (descending : Descending key rows) : rows.Nodup :=
  descending.imp fun less => ne_of_apply_ne key (ne_of_gt less)

theorem descending_unique (first second : List Row) (one : Descending key first) (two : Descending key second)
    (same : ∀ row, row ∈ first <-> row ∈ second) : first = second := by
  have permuted := (List.perm_ext_iff_of_nodup (descending_nodup key first one) (descending_nodup key second two)).mpr same
  refine permuted.eq_of_pairwise ?_ one two
  intro a b _ _ less more
  exact absurd less (lt_asymm more)

theorem mem_sorted (row : Row) : row ∈ sorted key rows <-> row ∈ rows := by
  unfold sorted
  rw [List.mem_insertionSort]

theorem sorted_descending (distinct : (rows.map key).Nodup) : Descending key (sorted key rows) := by
  have ordered : (sorted key rows).Pairwise (fun first second => key second ≤ key first) := by
    have total : Std.Total (fun first second : Row => key second ≤ key first) :=
      ⟨fun first second => le_total (key second) (key first)⟩
    have transitive : IsTrans Row (fun first second => key second ≤ key first) :=
      ⟨fun first second third one two => le_trans two one⟩
    exact List.pairwise_insertionSort _ rows
  have apart : (sorted key rows).Pairwise (fun first second => key first ≠ key second) := by
    have permuted : ((sorted key rows).map key).Perm (rows.map key) := (List.perm_insertionSort _ rows).map key
    exact List.pairwise_map.mp (permuted.nodup_iff.mpr distinct)
  exact (ordered.and apart).imp fun both => lt_of_le_of_ne both.1 (Ne.symm both.2)

theorem mem_take_iff (descending : Descending key rows) (row : Row) (there : row ∈ rows) (limit : Nat) :
    row ∈ rows.take limit <-> (rows.filter (fun other => decide (key row < key other))).length < limit := by
  obtain ⟨before, later, rfl⟩ := List.append_of_mem there
  obtain ⟨-, rest, across⟩ := List.pairwise_append.mp descending
  obtain ⟨below, -⟩ := List.pairwise_cons.mp rest
  have ahead : before.filter (fun other => decide (key row < key other)) = before :=
    List.filter_eq_self.mpr fun other held => decide_eq_true (across other held row List.mem_cons_self)
  have behind : (row :: later).filter (fun other => decide (key row < key other)) = [] := by
    refine List.filter_eq_nil_iff.mpr fun other held => ?_
    rw [decide_eq_true_eq]
    rcases List.mem_cons.mp held with rfl | late
    · exact lt_irrefl _
    · exact lt_asymm (below other late)
  rw [List.filter_append, ahead, behind, List.append_nil, List.take_append, List.mem_append]
  have absent : row ∉ before := fun early => absurd (across row early row List.mem_cons_self) (lt_irrefl _)
  have absent' : row ∉ before.take limit := fun early => absent (List.mem_of_mem_take early)
  rw [or_iff_right absent']
  constructor
  · intro held
    by_contra short
    rw [Nat.sub_eq_zero_of_le (not_lt.mp short), List.take_zero] at held
    cases held
  · intro short
    obtain ⟨room, same⟩ := Nat.exists_eq_add_of_lt short
    rw [same, show before.length + room + 1 - before.length = room + 1 by omega, List.take_succ_cons]
    exact List.mem_cons_self

open Classical in
theorem take_of_kept (part : List Row) (descending : Descending key rows) (ordered : Descending key part)
    (subset : ∀ row ∈ part, row ∈ rows) (limit : Nat) (kept : ∀ row ∈ rows.take limit, row ∈ part) :
    part.take limit = rows.take limit := by
  have inside : part.Sublist rows := by
    have same : part = rows.filter (fun row => decide (row ∈ part)) := by
      refine descending_unique key _ _ ordered (descending.filter _) fun row => ?_
      rw [List.mem_filter, decide_eq_true_eq]
      exact ⟨fun held => ⟨subset row held, held⟩, fun held => held.2⟩
    rw [same]
    exact List.filter_sublist
  rw [← List.take_append_drop limit rows] at inside
  obtain ⟨first, later, rfl, one, two⟩ := List.sublist_append_iff.mp inside
  have whole : first = rows.take limit := by
    refine descending_unique key _ _ (descending.sublist (one.trans (List.take_sublist _ _)))
      (descending.sublist (List.take_sublist _ _)) fun row => ⟨fun held => one.subset held, fun early => ?_⟩
    rcases List.mem_append.mp (kept row early) with held | late
    · exact held
    · have apart := descending_nodup key rows descending
      rw [← List.take_append_drop limit rows] at apart
      exact absurd rfl ((List.nodup_append.mp apart).2.2 row early row (two.subset late))
  rw [whole]
  by_cases long : limit ≤ rows.length
  · rw [List.take_append_of_le_length (by rw [List.length_take, Nat.min_eq_left long]), List.take_take, Nat.min_self]
  · have none_later : later = [] := by
      rw [List.drop_of_length_le (le_of_not_ge long)] at two
      exact List.sublist_nil.mp two
    rw [none_later, List.append_nil, List.take_take, Nat.min_self]

theorem merge_windows (sources : List (List Row)) (descending : ∀ source ∈ sources, Descending key source)
    (distinct : (sources.flatten.map key).Nodup) (limit : Nat) (cursor : Option Key) :
    (sorted key (sources.flatMap (fun source => window key source limit cursor))).take limit =
      window key (sorted key sources.flatten) limit cursor := by
  have whole := sorted_descending key sources.flatten distinct
  have part : (sources.flatMap (fun source => window key source limit cursor)).Sublist sources.flatten := by
    clear distinct whole descending
    induction sources with
    | nil => exact List.Sublist.refl _
    | cons source rest ih =>
      rw [List.flatMap_cons, List.flatten_cons]
      exact ((List.take_sublist limit _).trans List.filter_sublist).append ih
  have rest := after_descending key cursor _ whole
  refine take_of_kept key _ _ rest (sorted_descending key _ (distinct.sublist (part.map key))) ?_ limit ?_
  · intro row held
    obtain ⟨source, there, first⟩ := List.mem_flatMap.mp ((mem_sorted key _ row).mp held)
    obtain ⟨inside, past⟩ := (mem_after key cursor source row).mp (List.mem_of_mem_take first)
    exact (mem_after key cursor _ row).mpr ⟨(mem_sorted key _ row).mpr (List.mem_flatten.mpr ⟨source, there, inside⟩), past⟩
  · intro row first
    have inside := List.mem_of_mem_take first
    obtain ⟨there, past⟩ := (mem_after key cursor _ row).mp inside
    obtain ⟨source, among, held⟩ := List.mem_flatten.mp ((mem_sorted key _ row).mp there)
    have own : row ∈ after key cursor source := (mem_after key cursor source row).mpr ⟨held, past⟩
    have listed := after_descending key cursor source (descending source among)
    refine (mem_sorted key _ row).mpr (List.mem_flatMap.mpr ⟨source, among, ?_⟩)
    unfold window
    rw [mem_take_iff key _ listed row own]
    rw [mem_take_iff key _ rest row inside] at first
    refine lt_of_le_of_lt ?_ first
    -- Whatever stands before the row in its own listing stands before it in all.
    apply List.Subperm.length_le
    apply List.subperm_of_subset ((descending_nodup key _ listed).filter _)
    intro other before
    obtain ⟨other_inside, less⟩ := List.mem_filter.mp before
    obtain ⟨other_held, other_past⟩ := (mem_after key cursor source other).mp other_inside
    refine List.mem_filter.mpr ⟨(mem_after key cursor _ other).mpr ⟨(mem_sorted key _ other).mpr ?_, other_past⟩, less⟩
    exact List.mem_flatten.mpr ⟨source, among, other_held⟩

/-! ### Resuming -/

theorem after_split (first rest : List Row) (last : Row) (descending : Descending key (first ++ last :: rest)) :
    after key (some (key last)) (first ++ last :: rest) = rest := by
  obtain ⟨-, tail, across⟩ := List.pairwise_append.mp descending
  obtain ⟨below, -⟩ := List.pairwise_cons.mp tail
  unfold after
  have early : first.filter (fun row => (some (key last)).all (fun held => decide (key row < held))) = [] := by
    refine List.filter_eq_nil_iff.mpr fun row held => ?_
    rw [Option.all_some, decide_eq_true_eq]
    exact lt_asymm (across row held last List.mem_cons_self)
  have late : rest.filter (fun row => (some (key last)).all (fun held => decide (key row < held))) = rest :=
    List.filter_eq_self.mpr fun row held => decide_eq_true (below row held)
  rw [List.filter_append, early, List.nil_append, List.filter_cons_of_neg (by simp), late]

theorem after_after (rows : List Row) (row : Row) (there : row ∈ after key cursor rows) :
    after key (some (key row)) (after key cursor rows) = after key (some (key row)) rows := by
  obtain ⟨-, past⟩ := (mem_after key cursor rows row).mp there
  have early (other : Row) (less : key other < key row) : cursor.all (fun held => decide (key other < held)) = true := by
    cases cursor with
    | none => rfl
    | some held => exact decide_eq_true (lt_trans less (past held rfl))
  unfold after
  rw [List.filter_filter]
  apply List.filter_congr
  intro other _
  rw [Bool.eq_iff_iff, Bool.and_eq_true, Option.all_some, decide_eq_true_eq]
  exact and_iff_left_of_imp (early other)

theorem after_window (descending : Descending key rows) (limit : Nat) (cursor : Option Key) (last : Row)
    (ended : (window key rows limit cursor).getLast? = some last) :
    after key (some (key last)) rows = (after key cursor rows).drop limit := by
  obtain ⟨first, split⟩ := List.getLast?_eq_some_iff.mp ended
  have whole : after key cursor rows = first ++ last :: (after key cursor rows).drop limit := by
    have parts := List.take_append_drop limit (after key cursor rows)
    unfold window at split
    rw [split, List.append_assoc] at parts
    exact parts.symm
  have there : last ∈ after key cursor rows := by
    rw [whole]
    exact List.mem_append_right _ List.mem_cons_self
  have listed := after_descending key cursor rows descending
  rw [← after_after key cursor rows last there]
  rw [whole] at listed
  conv_lhs => rw [whole]
  exact after_split key first _ last listed

end listing

section filling

variable {Row Group Key : Type} [LinearOrder Key] (key : Row -> Key) (emit : Row -> Option Group)

/-- Goes through a window's rows until there are enough groups, and says whether there are. -/
def collect (limit : Nat) : List Group -> List Row -> List Group × Bool
  | groups, [] => (groups, false)
  | groups, row :: rest =>
    match emit row with
    | none => collect limit groups rest
    | some group =>
      if limit ≤ groups.length + 1 then (groups ++ [group], true) else collect limit (groups ++ [group]) rest

/-- Reads windows until there are enough groups or the list ends. -/
def fill (source : Option Key -> List Row) (batch limit : Nat) : Nat -> List Group -> Option Key -> List Group
  | 0, groups, _ => groups
  | fuel + 1, groups, cursor =>
    let raw := source cursor
    match raw.getLast? with
    | none => groups
    | some last =>
      match collect emit limit groups raw with
      | (filled, true) => filled
      | (filled, false) =>
        if raw.length < batch then filled else fill source batch limit fuel filled (some (key last))

theorem collect_eq (limit : Nat) (groups : List Group) (rows : List Row) (short : groups.length < max limit 1) :
    collect emit limit groups rows =
      (groups ++ (rows.filterMap emit).take (max limit 1 - groups.length),
        decide (max limit 1 ≤ groups.length + (rows.filterMap emit).length)) := by
  induction rows generalizing groups with
  | nil =>
    have unfilled : ¬ max limit 1 ≤ groups.length := by omega
    simp only [collect, List.filterMap_nil, List.take_nil, List.append_nil, List.length_nil, Nat.add_zero, unfilled,
      decide_false]
  | cons row rest ih =>
    unfold collect
    cases emitted : emit row with
    | none =>
      rw [List.filterMap_cons_none emitted]
      exact ih groups short
    | some group =>
      rw [List.filterMap_cons_some emitted]
      dsimp only
      split
      next full =>
        have one : max limit 1 - groups.length = 1 := by omega
        rw [one, List.take_succ_cons, List.take_zero, List.length_cons]
        simp only [Prod.mk.injEq, true_and]
        exact (decide_eq_true (by omega)).symm
      next room =>
        rw [ih (groups ++ [group]) (by rw [List.length_append, List.length_singleton]; omega)]
        have more : max limit 1 - groups.length = (max limit 1 - (groups ++ [group]).length) + 1 := by
          rw [List.length_append, List.length_singleton]
          omega
        rw [more, List.take_succ_cons, List.append_assoc, List.length_append, List.length_cons, List.length_cons, List.length_nil]
        simp only [List.singleton_append, Prod.mk.injEq, true_and, decide_eq_decide]
        omega

theorem fill_eq (rows : List Row) (descending : Descending key rows) (batch limit : Nat) (some_rows : 0 < batch)
    (source : Option Key -> List Row) (windows : ∀ cursor, source cursor = window key rows batch cursor) (fuel : Nat)
    (groups : List Group) (cursor : Option Key) (enough : (after key cursor rows).length < fuel)
    (short : groups.length < max limit 1) :
    fill key emit source batch limit fuel groups cursor =
      groups ++ ((after key cursor rows).filterMap emit).take (max limit 1 - groups.length) := by
  induction fuel generalizing groups cursor with
  | zero => omega
  | succ fuel ih =>
    have parts := List.take_append_drop batch (after key cursor rows)
    unfold fill
    dsimp only
    rw [windows]
    cases ended : (window key rows batch cursor).getLast? with
    | none =>
      have nothing : (after key cursor rows).take batch = [] := List.getLast?_eq_none_iff.mp ended
      have none_left : after key cursor rows = [] := by
        rcases List.take_eq_nil_iff.mp nothing with zero | empty
        · omega
        · exact empty
      rw [none_left]
      simp
    | some last =>
      dsimp only
      rw [collect_eq emit limit groups _ short]
      by_cases full : max limit 1 ≤ groups.length + ((window key rows batch cursor).filterMap emit).length
      · rw [decide_eq_true full]
        dsimp only
        rw [← parts, List.filterMap_append, List.take_append_of_le_length (by unfold window at full; omega)]
        rfl
      · rw [decide_eq_false full]
        dsimp only
        have all_in : ((window key rows batch cursor).filterMap emit).take (max limit 1 - groups.length) =
            (window key rows batch cursor).filterMap emit := List.take_of_length_le (by omega)
        have more : ((after key cursor rows).filterMap emit).take (max limit 1 - groups.length) =
            (window key rows batch cursor).filterMap emit ++
              (((after key cursor rows).drop batch).filterMap emit).take
                (max limit 1 - (groups ++ (window key rows batch cursor).filterMap emit).length) := by
          conv_lhs => rw [← parts, List.filterMap_append]
          rw [List.take_append, List.length_append, ← Nat.sub_sub]
          unfold window at all_in ⊢
          rw [all_in]
        rw [all_in, more, ← List.append_assoc]
        split
        next exhausted =>
          have none_left : (after key cursor rows).drop batch = [] := by
            unfold window at exhausted
            rw [List.length_take] at exhausted
            exact List.drop_of_length_le (by omega)
          rw [none_left]
          simp
        next full_window =>
          have rest := after_window key rows descending batch cursor last ended
          have shorter : (after key (some (key last)) rows).length < fuel := by
            have some_read : 0 < (window key rows batch cursor).length := by omega
            unfold window at some_read
            rw [List.length_take] at some_read
            rw [rest, List.length_drop]
            omega
          rw [ih _ _ shorter (by rw [List.length_append]; omega), rest]

end filling

section paging

variable {Row Key : Type} (key : Row -> Key)

/-- The pages of a list, each resumed from the last row of the one before. -/
def pages (read : Option Key -> List Row) : Nat -> Option Key -> List Row
  | 0, _ => []
  | fuel + 1, cursor =>
    match (read cursor).getLast? with
    | none => []
    | some last => read cursor ++ pages read fuel (some (key last))

def readOn (first : List Row) (read : Option Key -> List Row) (fuel : Nat) : List Row :=
  match first.getLast? with
  | none => []
  | some last => first ++ pages key read fuel (some (key last))

theorem readOn_stopped (first : List Row) (read : Option Key -> List Row) (stopped : ∀ cursor, read cursor = []) (fuel : Nat) :
    readOn key first read fuel = first := by
  unfold readOn
  cases ended : first.getLast? with
  | none => exact (List.getLast?_eq_none_iff.mp ended).symm
  | some last =>
    dsimp only
    cases fuel with
    | zero => exact List.append_nil first
    | succ fuel =>
      unfold pages
      rw [stopped]
      exact List.append_nil first

variable [LinearOrder Key]

variable (rows : List Row)

theorem pages_eq (descending : Descending key rows) (limit : Nat) (some_rows : 0 < limit)
    (read : Option Key -> List Row) (windows : ∀ cursor, read cursor = window key rows limit cursor) (fuel : Nat)
    (cursor : Option Key) (enough : (after key cursor rows).length < fuel) :
    pages key read fuel cursor = after key cursor rows := by
  induction fuel generalizing cursor with
  | zero => omega
  | succ fuel ih =>
    unfold pages
    rw [windows]
    cases ended : (window key rows limit cursor).getLast? with
    | none =>
      rcases List.take_eq_nil_iff.mp (List.getLast?_eq_none_iff.mp ended) with zero | empty
      · omega
      · exact empty.symm
    | some last =>
      have rest := after_window key rows descending limit cursor last ended
      have some_read : (window key rows limit cursor).length ≠ 0 := by
        intro none_read
        rw [List.length_eq_zero_iff.mp none_read] at ended
        cases ended
      dsimp only
      rw [ih, rest]
      · exact List.take_append_drop limit _
      · unfold window at some_read
        rw [List.length_take] at some_read
        rw [rest, List.length_drop]
        omega

theorem last_of_drop (offset : Nat) (short : offset < rows.length) :
    ∃ last, (rows.drop offset).getLast? = some last ∧ rows.getLast? = some last := by
  have whole := List.take_append_drop offset rows
  cases ended : (rows.drop offset).getLast? with
  | none =>
    rw [List.getLast?_eq_none_iff, List.drop_eq_nil_iff] at ended
    omega
  | some last =>
    refine ⟨last, rfl, ?_⟩
    obtain ⟨first, split⟩ := List.getLast?_eq_some_iff.mp ended
    rw [← whole, split, ← List.append_assoc]
    exact List.getLast?_concat

theorem readOn_eq (descending : Descending key rows) (taken offset limit : Nat) (some_rows : 0 < limit)
    (read : Option Key -> List Row) (windows : ∀ cursor, read cursor = window key rows limit cursor) (fuel : Nat)
    (enough : rows.length < fuel) (begun : offset < taken) (short : offset < rows.length) :
    readOn key ((rows.take taken).drop offset) read fuel = rows.drop offset := by
  have longer : offset < (rows.take taken).length := by
    rw [List.length_take]
    omega
  obtain ⟨last, ended, ended'⟩ := last_of_drop (rows.take taken) offset longer
  have rest := after_window key rows descending taken none last (by rw [window, after_none]; exact ended')
  rw [after_none] at rest
  unfold readOn
  rw [ended]
  dsimp only
  rw [pages_eq key rows descending limit some_rows read windows fuel _ ?_, rest]
  · conv_rhs => rw [← List.take_append_drop taken rows]
    rw [List.drop_append_of_le_length (le_of_lt longer)]
  · rw [rest, List.length_drop]
    omega

end paging

section emitting

variable {Row Group Key : Type} [LinearOrder Key] (key : Row -> Key) (place : Group -> Key) (emit : Row -> Option Group)
  (placed : ∀ row group, emit row = some group -> place group = key row)

include placed

theorem filterMap_descending (rows : List Row) (descending : Descending key rows) :
    Descending place (rows.filterMap emit) := by
  refine List.pairwise_filterMap.mpr (descending.imp fun {first second} less => ?_)
  intro one emitted two emitted'
  rw [placed first one emitted, placed second two emitted']
  exact less

theorem after_filterMap (cursor : Option Key) (rows : List Row) :
    after place cursor (rows.filterMap emit) = (after key cursor rows).filterMap emit := by
  induction rows with
  | nil => rfl
  | cons row rest ih =>
    unfold after at ih ⊢
    have keep (kept : cursor.all (fun held => decide (key row < held)) = true) :=
      List.filter_cons_of_pos (p := fun row => cursor.all (fun held => decide (key row < held))) (l := rest) kept
    have drop (dropped : ¬ cursor.all (fun held => decide (key row < held)) = true) :=
      List.filter_cons_of_neg (p := fun row => cursor.all (fun held => decide (key row < held))) (l := rest) dropped
    cases emitted : emit row with
    | none =>
      rw [List.filterMap_cons_none emitted, ih]
      by_cases past : cursor.all (fun held => decide (key row < held)) = true
      · rw [keep past, List.filterMap_cons_none emitted]
      · rw [drop past]
    | some group =>
      rw [List.filterMap_cons_some emitted, List.filter_cons, placed row group emitted, ih]
      by_cases past : cursor.all (fun held => decide (key row < held)) = true
      · rw [if_pos past, keep past, List.filterMap_cons_some emitted]
      · rw [if_neg past, drop past]

end emitting

end Postio.Windows

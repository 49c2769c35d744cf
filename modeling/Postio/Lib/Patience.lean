import Mathlib.Data.List.Sort
import Mathlib.Data.List.Induction

set_option autoImplicit false

namespace Postio.Patience

/-! A longest increasing run of a list by patience sorting: the rows of a list that are marked, and which to mark. -/

section

variable {Row Other : Type}

variable (indices : List Nat) (marks : List Bool) (rows : List Row)

def pick : List Row :=
  (rows.zip marks).filterMap (fun marked => if marked.2 then some marked.1 else none)

def mark (index : Nat) : List Bool := marks.set index true

theorem pick_cons (marked : Bool) (marks : List Bool) (row : Row) (rows : List Row) :
    pick (marked :: marks) (row :: rows) = (if marked then [row] else []) ++ pick marks rows := by
  cases marked <;> simp [pick]

theorem pick_sublist : (pick marks rows).Sublist rows := by
  induction marks generalizing rows with
  | nil => simp [pick]
  | cons marked marks ih =>
    cases rows with
    | nil => simp [pick]
    | cons row rows =>
      rw [pick_cons]
      cases marked with
      | false => exact (ih rows).cons row
      | true => exact (ih rows).cons_cons row

theorem pick_map (change : Row -> Other) :
    pick marks (rows.map change) = (pick marks rows).map change := by
  induction marks generalizing rows with
  | nil => simp [pick]
  | cons marked marks ih =>
    cases rows with
    | nil => simp [pick]
    | cons row rows =>
      rw [List.map_cons, pick_cons, pick_cons, List.map_append, ih]
      cases marked <;> rfl

theorem length_pick (sized : marks.length = rows.length) : (pick marks rows).length = marks.count true:= by
  induction marks generalizing rows with
  | nil => simp [pick]
  | cons marked marks ih =>
    cases rows with
    | nil => cases sized
    | cons row rows =>
      rw [pick_cons, List.length_append, ih rows (Nat.succ.inj sized)]
      cases marked with
      | false => simp
      | true => simp [Nat.add_comm]

theorem length_marked : (indices.foldl mark marks).length = marks.length := by
  induction indices generalizing marks with
  | nil => rfl
  | cons index indices ih => rw [List.foldl_cons, ih, mark, List.length_set]

theorem getElem?_marked (index : Nat) (inside : index < marks.length) :
    (indices.foldl mark marks)[index]? = some (decide (index ∈ indices) || marks[index]) := by
  induction indices generalizing marks with
  | nil => simp [inside]
  | cons first indices ih =>
    have still : index < (mark marks first).length := by rwa [mark, List.length_set]
    rw [List.foldl_cons, ih (mark marks first) still]
    by_cases same : first = index
    case pos => simp [mark, same]
    case neg => simp [mark, same, Ne.symm same]

theorem marked_reverse : indices.reverse.foldl mark marks = indices.foldl mark marks := by
  apply List.ext_getElem?
  intro index
  by_cases inside : index < marks.length
  case pos =>
    rw [getElem?_marked _ _ _ inside, getElem?_marked _ _ _ inside]
    simp
  case neg =>
    have past := Nat.le_of_not_lt inside
    rw [List.getElem?_eq_none (by rwa [length_marked]), List.getElem?_eq_none (by rwa [length_marked])]

theorem pick_range (chosen : Nat -> Bool) (rows : List Row) :
    pick ((List.range rows.length).map chosen) rows =
      ((List.range rows.length).filter chosen).filterMap (fun position => rows[position]?) := by
  induction rows using List.reverseRecOn with
  | nil => rfl
  | append_singleton rows row ih =>
    have front : ((List.range rows.length).filter chosen).filterMap (fun position => (rows ++ [row])[position]?) =
        ((List.range rows.length).filter chosen).filterMap (fun position => rows[position]?) := by
      apply List.filterMap_congr
      intro position inside
      exact List.getElem?_append_left (List.mem_range.mp (List.mem_of_mem_filter inside))
    have split : pick ((List.range rows.length).map chosen ++ [chosen rows.length]) (rows ++ [row]) =
        pick ((List.range rows.length).map chosen) rows ++ pick [chosen rows.length] [row] := by
      simp [pick, List.zip_append]
    rw [List.length_append, List.length_singleton, List.range_succ, List.map_append, List.map_singleton, split, ih,
      List.filter_append, List.filterMap_append, front]
    cases last : chosen rows.length <;> simp [pick, last]

theorem pick_marked (positions : List Nat) (rows : List Row) (rising : positions.Pairwise (· < ·))
    (inside : ∀ position ∈ positions, position < rows.length) :
    pick (positions.foldl mark (List.replicate rows.length false)) rows = positions.filterMap (fun position => rows[position]?) := by
  have marks : positions.foldl mark (List.replicate rows.length false) =
      (List.range rows.length).map (fun index => decide (index ∈ positions)) := by
    apply List.ext_getElem?
    intro index
    by_cases within : index < rows.length
    case pos => simp [getElem?_marked, within]
    case neg =>
      have beyond : (positions.foldl mark (List.replicate rows.length false)).length ≤ index := by
        rw [length_marked, List.length_replicate]
        exact Nat.le_of_not_lt within
      rw [List.getElem?_eq_none beyond, List.getElem?_eq_none (by simpa using within)]
  have chosen : (List.range rows.length).filter (fun index => decide (index ∈ positions)) = positions := by
    have apart : ((List.range rows.length).filter (fun index => decide (index ∈ positions))).Pairwise (· < ·) :=
      List.pairwise_lt_range.filter _
    apply List.Pairwise.eq_of_mem_iff apart rising
    intro index
    simp only [List.mem_filter, List.mem_range, decide_eq_true_eq]
    exact ⟨And.right, fun chosen => ⟨inside index chosen, chosen⟩⟩
  rw [marks, pick_range, chosen]

end

/-! ### The piles -/

variable {Value : Type} [LinearOrder Value] [Inhabited Value]

structure Piles where
  tails : List Nat
  before : List (Option Nat)

section

variable (values : List Value)

def valueAt (index : Nat) : Value := values.getD index default

def slot (tails : List Nat) (value : Value) : Nat := tails.findIdx (fun tail => ¬ valueAt values tail < value)

def put (piles : Piles) (index : Nat) : Piles :=
  let slot := slot values piles.tails (valueAt values index)
  { tails := if slot = piles.tails.length then piles.tails ++ [index] else piles.tails.set slot index
    before := if 0 < slot then piles.before.set index piles.tails[slot - 1]? else piles.before }

def piles (count : Nat) : Piles :=
  (List.range count).foldl (put values) { tails := [], before := List.replicate values.length none }

def walk (before : List (Option Nat)) : Nat -> Option Nat -> List Bool -> List Bool
  | fuel + 1, some index, marks => walk before fuel before[index]?.join (mark marks index)
  | _, _, marks => marks

def longest : List Bool :=
  let piles := piles values values.length
  walk piles.before values.length piles.tails.getLast? (List.replicate values.length false)

end

/-- The way back from a position, latest first. -/
inductive Chain (before : List (Option Nat)) : Nat -> List Nat -> Prop where
  | first (index : Nat) (start : before[index]? = some none) : Chain before index [index]
  | next (index earlier : Nat) (run : List Nat) (back : before[index]? = some (some earlier))
      (rest : Chain before earlier run) : Chain before index (index :: run)

variable (before : List (Option Nat))

theorem chain_head (index : Nat) (run : List Nat) (chain : Chain before index run) :
    ∃ rest, run = index :: rest := by
  cases chain with
  | first _ start => exact ⟨[], rfl⟩
  | next _ earlier run back rest => exact ⟨run, rfl⟩

theorem chain_congr (first second : List (Option Nat)) (index : Nat) (run : List Nat) (chain : Chain first index run)
    (same : ∀ met ∈ run, second[met]? = first[met]?) : Chain second index run := by
  induction chain with
  | first index start => exact .first index (by rw [same index (by simp), start])
  | next index earlier run back rest ih =>
    refine .next index earlier run (by rw [same index (by simp), back]) (ih ?_)
    exact fun met inside => same met (List.mem_cons_of_mem _ inside)

theorem walk_none (fuel : Nat) (marks : List Bool) : walk before fuel none marks = marks := by
  cases fuel <;> rfl

theorem walk_chain (index : Nat) (run : List Nat) (chain : Chain before index run) (fuel : Nat)
    (enough : run.length ≤ fuel) (marks : List Bool) : walk before fuel (some index) marks = run.foldl mark marks := by
  induction chain generalizing fuel marks with
  | first index start =>
    obtain ⟨fuel, rfl⟩ := Nat.exists_eq_add_one_of_ne_zero (Nat.ne_of_gt enough)
    rw [walk, start, Option.join_some, walk_none, List.foldl_cons, List.foldl_nil]
  | next index earlier run back rest ih =>
    obtain ⟨fuel, rfl⟩ := Nat.exists_eq_add_one_of_ne_zero (Nat.ne_of_gt (Nat.lt_of_lt_of_le (Nat.succ_pos _) enough))
    rw [walk, back, Option.join_some, ih fuel (Nat.le_of_succ_le_succ enough), List.foldl_cons]

/-- What the piles say of the positions below a count. -/
structure Piled (values : List Value) (count : Nat) (piles : Piles) : Prop where
  sized : piles.before.length = values.length
  fresh : ∀ index, count ≤ index -> index < values.length -> piles.before[index]? = some none
  inside : ∀ tail ∈ piles.tails, tail < count
  ordered : piles.tails.Pairwise (fun first second => valueAt values first < valueAt values second)
  -- Each tail ends a rising run as long as the piles up to its own.
  runs : ∀ (pile tail : Nat), piles.tails[pile]? = some tail -> ∃ run, Chain piles.before tail run ∧ run.length = pile + 1 ∧
    run.Pairwise (fun later earlier => earlier < later ∧ valueAt values earlier < valueAt values later) ∧
    ∀ met ∈ run, met < count
  -- No run of that length ends lower.
  best : ∀ (run : List Value) (last : Value), (run ++ [last]).Sublist (values.take count) ->
    (run ++ [last]).Pairwise (· < ·) -> ∃ tail, piles.tails[run.length]? = some tail ∧ valueAt values tail ≤ last

theorem piled_empty (values : List Value) :
    Piled values 0 { tails := [], before := List.replicate values.length none } where
  sized := List.length_replicate
  fresh := fun index _ inside => by simp [inside]
  inside := fun tail member => absurd member List.not_mem_nil
  ordered := .nil
  runs := fun pile tail found => by simp at found
  best := fun run last sub _ => by simp at sub

section

variable (values : List Value) (count : Nat) (piles : Piles) (piled : Piled values count piles) (more : count < values.length)

include piled

variable (value : Value) (pile tail : Nat)

omit piled in
theorem below_slot (found : piles.tails[pile]? = some tail)
    (below : pile < slot values piles.tails value) : valueAt values tail < value := by
  obtain ⟨inside, rfl⟩ := List.getElem?_eq_some_iff.mp found
  have passed := List.not_of_lt_findIdx below
  exact of_not_not (of_decide_eq_false passed)

theorem past_slot (found : piles.tails[pile]? = some tail)
    (past : slot values piles.tails value < pile) : value < valueAt values tail := by
  obtain ⟨inside, rfl⟩ := List.getElem?_eq_some_iff.mp found
  have reached : slot values piles.tails value < piles.tails.length := past.trans inside
  have stopped : value ≤ valueAt values piles.tails[slot values piles.tails value] := by
    unfold slot at reached ⊢
    exact le_of_not_gt (of_decide_eq_true (List.findIdx_getElem (w := reached)))
  exact stopped.trans_lt (List.pairwise_iff_getElem.mp piled.ordered _ _ reached inside past)

theorem above_slot (found : piles.tails[pile]? = some tail)
    (above : slot values piles.tails value ≤ pile) : value ≤ valueAt values tail := by
  rcases Nat.lt_or_eq_of_le above with past | rfl
  next => exact le_of_lt (past_slot values count piles piled value pile tail found past)
  next =>
    obtain ⟨inside, rfl⟩ := List.getElem?_eq_some_iff.mp found
    unfold slot at inside ⊢
    exact le_of_not_gt (of_decide_eq_true (List.findIdx_getElem (w := inside)))

omit piled in
theorem getElem?_put : (put values piles count).tails[pile]? =
      if pile = slot values piles.tails (valueAt values count) then some count else piles.tails[pile]? := by
  have within : slot values piles.tails (valueAt values count) ≤ piles.tails.length := List.findIdx_le_length
  simp only [put]
  split
  next last =>
    rw [List.getElem?_append]
    by_cases same : pile = piles.tails.length
    case pos => rw [if_neg (by omega), same, Nat.sub_self, last, if_pos rfl, List.getElem?_cons_zero]
    case neg =>
      rw [last, if_neg same]
      by_cases held : pile < piles.tails.length
      case pos => rw [if_pos held]
      case neg =>
        have past : [count].length ≤ pile - piles.tails.length := by
          rw [List.length_singleton]
          omega
        rw [if_neg held, List.getElem?_eq_none past, List.getElem?_eq_none (Nat.le_of_not_lt held)]
  next inner =>
    rw [List.getElem?_set]
    by_cases same : slot values piles.tails (valueAt values count) = pile
    case pos => rw [if_pos same, if_pos same.symm, if_pos (by omega)]
    case neg => rw [if_neg same, if_neg (Ne.symm same)]

omit piled in
theorem chain_put (index : Nat) (run : List Nat) (chain : Chain piles.before index run) (earlier : ∀ met ∈ run, met < count) :
    Chain (put values piles count).before index run := by
  apply chain_congr _ _ index run chain
  intro met inside
  have distinct : count ≠ met := Nat.ne_of_gt (earlier met inside)
  simp only [put]
  split
  next => exact List.getElem?_set_ne distinct
  next => rfl

include more

theorem put_run : ∃ run, Chain (put values piles count).before count run ∧
    run.length = slot values piles.tails (valueAt values count) + 1 ∧
    run.Pairwise (fun later earlier => earlier < later ∧ valueAt values earlier < valueAt values later) ∧
    ∀ met ∈ run, met < count + 1 := by
  have fresh := piled.fresh count (Nat.le_refl _) more
  have room : count < piles.before.length := by rwa [piled.sized]
  cases place : slot values piles.tails (valueAt values count) with
  | zero =>
    refine ⟨[count], .first count ?_, rfl, List.pairwise_singleton _ _, ?_⟩
    next => simpa [put, place] using fresh
    next => simp
  | succ pile =>
    have within : pile < piles.tails.length := by
      have bound : slot values piles.tails (valueAt values count) ≤ piles.tails.length := List.findIdx_le_length
      omega
    have found : piles.tails[pile]? = some piles.tails[pile] := List.getElem?_eq_getElem within
    obtain ⟨run, chain, size, rising, early⟩ := piled.runs pile _ found
    have below : valueAt values piles.tails[pile] < valueAt values count :=
      below_slot values piles (valueAt values count) pile _ found (by omega)
    have back : (put values piles count).before[count]? = some (some piles.tails[pile]) := by
      simp [put, place, room, found]
    refine ⟨count :: run, .next count _ run back (chain_put values count piles _ run chain early), ?_, ?_, ?_⟩
    next => rw [List.length_cons, size]
    next =>
      refine List.pairwise_cons.mpr ⟨fun met inside => ⟨early met inside, ?_⟩, rising⟩
      obtain ⟨rest, rfl⟩ := chain_head _ _ run chain
      rcases List.mem_cons.mp inside with rfl | further
      next => exact below
      next => exact ((List.pairwise_cons.mp rising).1 met further).2.trans below
    next =>
      intro met inside
      rcases List.mem_cons.mp inside with rfl | further
      next => exact Nat.lt_succ_self _
      next => exact Nat.lt_succ_of_lt (early met further)

theorem put_best (run : List Value) (last : Value) (sub : (run ++ [last]).Sublist (values.take (count + 1)))
    (rising : (run ++ [last]).Pairwise (· < ·)) :
    ∃ tail, (put values piles count).tails[run.length]? = some tail ∧ valueAt values tail ≤ last := by
  have own : values.take (count + 1) = values.take count ++ [valueAt values count] := by
    rw [List.take_succ_eq_append_getElem more, valueAt, List.getD_eq_getElem?_getD, List.getElem?_eq_getElem more, Option.getD_some]
  rw [own] at sub
  -- A tail at most `last` on that pile stays or gives way to a lower one.
  have kept (tail : Nat) (found : piles.tails[run.length]? = some tail) (low : valueAt values tail ≤ last) :
      ∃ tail, (put values piles count).tails[run.length]? = some tail ∧ valueAt values tail ≤ last := by
    rw [getElem?_put values count piles]
    split
    next same =>
      exact ⟨count, rfl, (above_slot values count piles piled _ run.length tail found (Nat.le_of_eq same.symm)).trans low⟩
    next => exact ⟨tail, found, low⟩
  obtain ⟨front, back, split, early, late⟩ := List.sublist_append_iff.mp sub
  cases back with
  | nil =>
    rw [List.append_nil] at split
    obtain ⟨tail, found, low⟩ := piled.best run last (split ▸ early) rising
    exact kept tail found low
  | cons first rest =>
    -- The run ends with the value put down.
    have final : first = valueAt values count ∧ rest = [] := by
      have size := late.length_le
      have only : rest = [] := by
        apply List.eq_nil_of_length_eq_zero
        simp only [List.length_cons, List.length_nil] at size
        omega
      subst only
      exact ⟨by simpa using late.subset List.mem_cons_self, rfl⟩
    obtain ⟨rfl, rfl⟩ := final
    obtain ⟨rfl, same⟩ := List.append_inj' split rfl
    obtain rfl : last = valueAt values count := by simpa using same
    have reached : run.length ≤ slot values piles.tails (valueAt values count) := by
      rcases List.eq_nil_or_concat run with rfl | ⟨before, end', rfl⟩
      next => exact Nat.zero_le _
      next =>
        rw [List.concat_eq_append] at early rising ⊢
        obtain ⟨tail, found, low⟩ := piled.best before end' early (List.pairwise_append.mp rising).1
        have under : end' < valueAt values count := (List.pairwise_append.mp rising).2.2 end' (by simp) _ (by simp)
        rw [List.length_append, List.length_singleton]
        by_contra short
        have high := above_slot values count piles piled (valueAt values count) before.length tail found (by omega)
        exact absurd (low.trans_lt under) (not_lt.mpr high)
    rcases Nat.lt_or_eq_of_le reached with under | same
    next =>
      have within : run.length < piles.tails.length := Nat.lt_of_lt_of_le under List.findIdx_le_length
      have found : piles.tails[run.length]? = some piles.tails[run.length] := List.getElem?_eq_getElem within
      exact kept _ found (le_of_lt (below_slot values piles _ run.length _ found under))
    next => exact ⟨count, by rw [getElem?_put values count piles, if_pos same], le_refl _⟩

theorem piled_put : Piled values (count + 1) (put values piles count) where
  sized := by
    simp only [put]
    split
    next => rw [List.length_set, piled.sized]
    next => exact piled.sized
  fresh := by
    intro index later inside
    have distinct : count ≠ index := Nat.ne_of_lt later
    simp only [put]
    split
    next => rw [List.getElem?_set_ne distinct, piled.fresh index (Nat.le_of_succ_le later) inside]
    next => exact piled.fresh index (Nat.le_of_succ_le later) inside
  inside := by
    intro tail member
    obtain ⟨pile, found⟩ := List.getElem?_of_mem member
    rw [getElem?_put values count piles] at found
    split at found
    next =>
      cases found
      exact Nat.lt_succ_self _
    next => exact Nat.lt_succ_of_lt (piled.inside tail (List.mem_of_getElem? found))
  ordered := by
    rw [List.pairwise_iff_getElem]
    intro first second firstIn secondIn earlier
    have firstFound := List.getElem?_eq_getElem firstIn
    have secondFound := List.getElem?_eq_getElem secondIn
    rw [getElem?_put values count piles] at firstFound secondFound
    split at firstFound
    next firstNew =>
      rw [if_neg (by omega)] at secondFound
      rw [← Option.some.inj firstFound]
      exact past_slot values count piles piled _ second _ secondFound (by omega)
    next firstOld =>
      split at secondFound
      next secondNew =>
        rw [← Option.some.inj secondFound]
        exact below_slot values piles _ first _ firstFound (by omega)
      next =>
        obtain ⟨firstHeld, firstSame⟩ := List.getElem?_eq_some_iff.mp firstFound
        obtain ⟨secondHeld, secondSame⟩ := List.getElem?_eq_some_iff.mp secondFound
        rw [← firstSame, ← secondSame]
        exact List.pairwise_iff_getElem.mp piled.ordered _ _ firstHeld secondHeld earlier
  runs := by
    intro pile tail found
    rw [getElem?_put values count piles] at found
    split at found
    next same =>
      cases found
      rw [same]
      exact put_run values count piles piled more
    next =>
      obtain ⟨run, chain, size, rising, early⟩ := piled.runs pile tail found
      exact ⟨run, chain_put values count piles tail run chain early, size, rising,
        fun met inside => Nat.lt_succ_of_lt (early met inside)⟩
  best := put_best values count piles piled more

end

section

variable (values : List Value)

theorem piled_run (count : Nat) (within : count ≤ values.length) : Piled values count (piles values count) := by
  induction count with
  | zero => exact piled_empty values
  | succ count ih =>
    have next := piled_put values count _ (ih (Nat.le_of_succ_le within)) within
    rwa [piles, List.range_succ, List.foldl_append, List.foldl_cons, List.foldl_nil]

theorem longest_marks : ∃ positions : List Nat,
    longest values = positions.foldl mark (List.replicate values.length false) ∧
    positions.Pairwise (fun earlier later => earlier < later ∧ valueAt values earlier < valueAt values later) ∧
    (∀ position ∈ positions, position < values.length) ∧
    ∀ run : List Value, run.Sublist values -> run.Pairwise (· < ·) -> run.length ≤ positions.length := by
  have piled := piled_run values values.length (Nat.le_refl _)
  have bound (run : List Value) (sub : run.Sublist values) (rising : run.Pairwise (· < ·)) :
      run.length ≤ (piles values values.length).tails.length := by
    rcases List.eq_nil_or_concat run with rfl | ⟨before, last, rfl⟩
    next => exact Nat.zero_le _
    next =>
      rw [List.concat_eq_append] at sub rising ⊢
      obtain ⟨tail, found, -⟩ := piled.best before last (by rwa [List.take_length]) rising
      obtain ⟨within, -⟩ := List.getElem?_eq_some_iff.mp found
      rwa [List.length_append, List.length_singleton]
  cases top : (piles values values.length).tails.getLast? with
  | none =>
    have none_left : (piles values values.length).tails = [] := List.getLast?_eq_none_iff.mp top
    refine ⟨[], ?_, .nil, by simp, fun run sub rising => ?_⟩
    next =>
      unfold longest
      dsimp only
      rw [top, walk_none, List.foldl_nil]
    next => simpa [none_left] using bound run sub rising
  | some last =>
    have place : (piles values values.length).tails[(piles values values.length).tails.length - 1]? = some last := by
      rw [← List.getLast?_eq_getElem?, top]
    obtain ⟨run, chain, size, rising, early⟩ := piled.runs _ last place
    have filled : 0 < (piles values values.length).tails.length := by
      rw [List.length_pos_iff]
      rintro empty
      simp [empty] at top
    have enough : run.length ≤ values.length := by
      have distinct : run.Nodup := rising.imp (fun apart => Nat.ne_of_gt apart.1)
      have within : run ⊆ List.range values.length := fun met inside => List.mem_range.mpr (early met inside)
      simpa using (List.subperm_of_subset distinct within).length_le
    refine ⟨run.reverse, ?_, List.pairwise_reverse.mpr rising, ?_, fun other sub upward => ?_⟩
    next =>
      unfold longest
      dsimp only
      rw [top, walk_chain _ last run chain _ enough, marked_reverse]
    next => exact fun position inside => early position (List.mem_reverse.mp inside)
    next =>
      have most := bound other sub upward
      rw [List.length_reverse, size]
      omega

theorem longest_exact : (pick (longest values) values).Pairwise (· < ·) ∧
    ∀ run : List Value, run.Sublist values -> run.Pairwise (· < ·) -> run.length ≤ (pick (longest values) values).length := by
  obtain ⟨positions, marks, rising, inside, most⟩ := longest_marks values
  have picked : pick (longest values) values = positions.map (valueAt values) := by
    rw [marks, pick_marked positions values (rising.imp And.left) inside]
    have read : ∀ position ∈ positions, values[position]? = some (valueAt values position) := by
      intro position member
      rw [valueAt, List.getD_eq_getElem?_getD, List.getElem?_eq_getElem (inside position member), Option.getD_some]
    rw [List.filterMap_congr read, List.filterMap_eq_map']
  rw [picked, List.length_map]
  exact ⟨List.pairwise_map.mpr (rising.imp And.right), most⟩

end

end Postio.Patience

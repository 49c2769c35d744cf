import Mathlib.Algebra.GroupWithZero.Nat
import Postio.Lib.Patience
import Postio.Model.Ids

set_option autoImplicit false

namespace Postio

open Patience

/-! How a stretch of the list is turned into the rows it holds now. Positions are those of a list, whose total is a `u32`. -/

/-- One step, its position counted in the state the steps before it left. An insertion takes the new rows from `first` on. -/
inductive Splice where
  | remove (position count : Nat)
  | insert (position count first : Nat)
  deriving DecidableEq

variable (old : List (Option MessageId)) (new : List MessageId)

def heldAt (id : MessageId) : Option Nat := old.findIdx? (fun held => held = some id)

def sharedRows : List (Nat × Nat) :=
  new.zipIdx.filterMap (fun (id, position) => (heldAt old id).map (fun held => (held, position)))

def longestInOrder (pairs : List (Nat × Nat)) : List Bool := longest (pairs.map Prod.fst)

def gapStart (keep : List Bool) : Nat -> Nat
  | 0 => 0
  | last + 1 => if keep.getD last false then last + 1 else gapStart keep last

/-- From the end of the old rows down. -/
def removals (keep : List Bool) : Nat -> Nat -> List Splice
  | fuel + 1, last + 1 =>
    if keep.getD last false then removals keep fuel last
    else
      let start := gapStart keep (last + 1)
      .remove start (last + 1 - start) :: removals keep fuel start
  | _, _ => []

def gapEnd (keep : List Bool) : Nat -> Nat -> Nat
  | left + 1, position => if keep.getD position false then position else gapEnd keep left (position + 1)
  | 0, position => position

/-- From the start of the new rows up. -/
def insertions (keep : List Bool) : Nat -> Nat -> List Splice
  | fuel + 1, start =>
    if keep.length ≤ start then []
    else if keep.getD start false then insertions keep fuel (start + 1)
    else
      let last := gapEnd keep (keep.length - start) start
      .insert start (last - start) start :: insertions keep fuel last
  | 0, _ => []

section

variable (old : List (Option MessageId)) (new : List MessageId)

def keptRows : List (Nat × Nat) := pick (longestInOrder (sharedRows old new)) (sharedRows old new)

def keepOld : List Bool := ((keptRows old new).map Prod.fst).foldl mark (List.replicate old.length false)

def keepNew : List Bool := ((keptRows old new).map Prod.snd).foldl mark (List.replicate new.length false)

/-- The steps that turn `old` into `new`. A position `old` knew nothing about is replaced. -/
def splices : List Splice :=
  removals (keepOld old new) old.length old.length ++ insertions (keepNew old new) new.length 0

end

namespace Splice

variable {Row : Type}

/-- A step on a stretch, given the rows the new stretch has, or none where it is out of bounds. -/
def apply (source rows : List Row) : Splice -> Option (List Row)
  | .remove position count =>
    if position + count ≤ rows.length then some (rows.take position ++ rows.drop (position + count)) else none
  | .insert position count first =>
    if position ≤ rows.length ∧ first + count ≤ source.length then
      some (rows.take position ++ (source.drop first).take count ++ rows.drop position)
    else none

def applyAll (source : List Row) : List Row -> List Splice -> Option (List Row)
  | rows, [] => some rows
  | rows, step :: rest => (step.apply source rows).bind (fun rows => applyAll source rows rest)

def stays (source rows : List Row) (script : List Splice) : Option (List Row) :=
  (applyAll (source.map Sum.inr) (rows.map Sum.inl) script).map (fun rows : List (Row ⊕ Row) => rows.filterMap Sum.getLeft?)

def removed : Splice -> Nat
  | .remove _ count => count
  | .insert _ _ _ => 0

def inserted : Splice -> Nat
  | .remove _ _ => 0
  | .insert _ count _ => count

def moved (script : List Splice) : Nat × Nat := ((script.map removed).sum, (script.map inserted).sum)

end Splice

open Splice

/-- A script that turns `old` into `new` and leaves `stay` where they are, which could not be more. -/
structure SplicedExactly (old : List (Option MessageId)) (new : List MessageId) (script : List Splice) (stay : List MessageId) :
    Prop where
  turned : applyAll (new.map some) old script = some (new.map some)
  left : stays (new.map some) old script = some (stay.map some)
  common : (stay.map some).Sublist old ∧ stay.Sublist new
  most : ∀ other : List MessageId, (other.map some).Sublist old -> other.Sublist new -> other.length ≤ stay.length
  -- No script moves fewer rows either way.
  fewest : ∀ other, applyAll (new.map some) old other = some (new.map some) ->
    (moved script).1 ≤ (moved other).1 ∧ (moved script).2 ≤ (moved other).2

/-! ### Running a script -/

namespace Splice

section

variable {Row Other : Type}

variable (keep : List Bool) (source rows : List Row) (last : Nat) (stay : List Row)

theorem applyAll_append (first second : List Splice) :
    applyAll source rows (first ++ second) = (applyAll source rows first).bind (fun rows => applyAll source rows second) := by
  induction first generalizing rows with
  | nil => rfl
  | cons step first ih =>
    rw [List.cons_append, applyAll, applyAll, Option.bind_assoc]
    exact Option.bind_congr (fun rows _ => ih rows)

theorem apply_map (change : Row -> Other) (source rows : List Row) (step : Splice) :
    step.apply (source.map change) (rows.map change) = (step.apply source rows).map (List.map change) := by
  cases step with
  | remove position count =>
    simp only [apply, List.length_map]
    split
    next => simp [List.map_take, List.map_drop]
    next => rfl
  | insert position count first =>
    simp only [apply, List.length_map]
    split
    next => simp [List.map_take, List.map_drop]
    next => rfl

theorem applyAll_map (change : Row -> Other) (source rows : List Row) (script : List Splice) :
    applyAll (source.map change) (rows.map change) script = (applyAll source rows script).map (List.map change) := by
  induction script generalizing rows with
  | nil => rfl
  | cons step script ih =>
    rw [applyAll, applyAll, apply_map]
    cases step.apply source rows with
    | none => rfl
    | some next => exact ih next

theorem apply_left (rows next : List (Row ⊕ Row)) (step : Splice)
    (applied : step.apply (source.map Sum.inr) rows = some next) :
    (next.filterMap Sum.getLeft?).Sublist (rows.filterMap Sum.getLeft?) ∧
      (rows.filterMap Sum.getLeft?).length ≤ (next.filterMap Sum.getLeft?).length + step.removed ∧
      next.length + step.removed = rows.length + step.inserted := by
  cases step with
  | remove position count =>
    simp only [apply] at applied
    split at applied
    next within =>
      obtain rfl := Option.some.inj applied
      have split : rows = rows.take position ++ ((rows.drop position).take count ++ rows.drop (position + count)) := by
        rw [← List.drop_drop, List.take_append_drop, List.take_append_drop]
      have gone := ((rows.drop position).take count).length_filterMap_le Sum.getLeft?
      have few := List.length_take_le count (rows.drop position)
      refine ⟨?_, ?_, ?_⟩
      next =>
        conv => rhs; rw [split]
        simp only [List.filterMap_append]
        exact List.Sublist.append_left (List.sublist_append_right _ _) _
      next =>
        conv => lhs; rw [split]
        simp only [List.filterMap_append, List.length_append, removed]
        omega
      next =>
        simp only [List.length_append, List.length_take, List.length_drop, removed, inserted]
        omega
    next => cases applied
  | insert position count first =>
    simp only [apply] at applied
    split at applied
    next within =>
      obtain rfl := Option.some.inj applied
      have put : (((source.map Sum.inr).drop first).take count).filterMap (Sum.getLeft? : Row ⊕ Row -> Option Row) = [] := by
        rw [← List.map_drop, ← List.map_take, List.filterMap_map]
        exact List.filterMap_eq_nil_iff.mpr (fun _ _ => rfl)
      have same : (rows.take position ++ ((source.map Sum.inr).drop first).take count ++ rows.drop position).filterMap
          Sum.getLeft? = rows.filterMap Sum.getLeft? := by
        rw [List.filterMap_append, List.filterMap_append, put, List.append_nil, ← List.filterMap_append,
          List.take_append_drop]
      rw [same]
      refine ⟨List.Sublist.refl _, Nat.le_add_right _ _, ?_⟩
      simp only [List.length_append, List.length_take, List.length_drop, List.length_map, removed, inserted] at within ⊢
      omega
    next => cases applied

theorem applyAll_left (rows next : List (Row ⊕ Row)) (script : List Splice)
    (applied : applyAll (source.map Sum.inr) rows script = some next) :
    (next.filterMap Sum.getLeft?).Sublist (rows.filterMap Sum.getLeft?) ∧
      (rows.filterMap Sum.getLeft?).length ≤ (next.filterMap Sum.getLeft?).length + (moved script).1 ∧
      next.length + (moved script).1 = rows.length + (moved script).2 := by
  induction script generalizing rows with
  | nil =>
    obtain rfl := Option.some.inj applied
    exact ⟨List.Sublist.refl _, Nat.le_refl _, rfl⟩
  | cons step script ih =>
    rw [applyAll, Option.bind_eq_some_iff] at applied
    obtain ⟨middle, first, rest⟩ := applied
    have own := apply_left source rows middle step first
    have later := ih middle rest
    simp only [moved, List.map_cons, List.sum_cons] at later ⊢
    exact ⟨later.1.trans own.1, by omega, by omega⟩

/-! ### What the two scans do -/

theorem gapStart_le : gapStart keep last ≤ last := by
  induction last with
  | zero => exact Nat.le_refl _
  | succ last ih =>
    rw [gapStart]
    split
    next => exact Nat.le_refl _
    next => exact Nat.le_succ_of_le ih

theorem pick_take_succ (sized : keep.length = rows.length) (inside : last < rows.length) :
    pick keep (rows.take (last + 1)) =
      pick keep (rows.take last) ++ if keep.getD last false then [rows[last]] else [] := by
  induction keep generalizing rows last with
  | nil => simp [← sized] at inside
  | cons kept keep ih =>
    cases rows with
    | nil => simp at inside
    | cons row rows =>
      cases last with
      | zero => cases kept <;> simp [pick]
      | succ last =>
        have further := ih rows last (Nat.succ.inj sized) (Nat.lt_of_succ_lt_succ inside)
        rw [List.take_succ_cons, List.take_succ_cons, pick_cons, pick_cons, further, List.append_assoc]
        rfl

theorem pick_gap (sized : keep.length = rows.length)
    (inside : last ≤ rows.length) : pick keep (rows.take last) = pick keep (rows.take (gapStart keep last)) := by
  induction last with
  | zero => rfl
  | succ last ih =>
    rw [gapStart]
    split
    next => rfl
    next dropped => rw [pick_take_succ keep rows last sized inside, if_neg dropped, List.append_nil, ih (Nat.le_of_succ_le inside)]

theorem removals_run (keep : List Bool) (rows : List Row) (sized : keep.length = rows.length)
    (fuel last : Nat) (enough : last ≤ fuel) (inside : last ≤ rows.length) (done : List Row) :
    applyAll source (rows.take last ++ done) (removals keep fuel last) = some (pick keep (rows.take last) ++ done) := by
  induction fuel generalizing last done with
  | zero =>
    obtain rfl := Nat.le_zero.mp enough
    simp [removals, applyAll, pick]
  | succ fuel ih =>
    cases last with
    | zero => simp [removals, applyAll, pick]
    | succ last =>
      rw [removals]
      split
      next kept =>
        rw [pick_take_succ keep rows last sized inside, if_pos kept, List.take_succ_eq_append_getElem inside, List.append_assoc,
          List.append_assoc]
        exact ih last (Nat.le_of_succ_le_succ enough) (Nat.le_of_succ_le inside) ([rows[last]] ++ done)
      next dropped =>
        have start : gapStart keep (last + 1) ≤ last := by
          rw [gapStart, if_neg dropped]
          exact gapStart_le keep last
        dsimp only
        generalize found : gapStart keep (last + 1) = from_ at start ⊢
        have front : (rows.take (last + 1) ++ done).take from_ = rows.take from_ := by
          rw [List.take_append_of_le_length (by rw [List.length_take]; omega), List.take_take, Nat.min_eq_left (by omega)]
        have back : (rows.take (last + 1) ++ done).drop (from_ + (last + 1 - from_)) = done := by
          rw [Nat.add_sub_cancel' (by omega), List.drop_append_of_le_length (by rw [List.length_take]; omega),
            List.drop_of_length_le (by rw [List.length_take]; omega), List.nil_append]
        rw [applyAll, apply, if_pos (by rw [List.length_append, List.length_take]; omega), front, back, Option.bind_some,
          ih from_ (by omega) (by omega) done, pick_gap keep rows (last + 1) sized inside, found]

def weave : List Bool -> List Row -> List Row -> List Row
  | true :: keep, row :: stay, _ :: source => row :: weave keep stay source
  | false :: keep, stay, put :: source => put :: weave keep stay source
  | _, stay, _ => stay

theorem weave_pick (sized : keep.length = source.length) :
    weave keep (pick keep source) source = source := by
  induction keep generalizing source with
  | nil =>
    cases source with
    | nil => rfl
    | cons row source => cases sized
  | cons kept keep ih =>
    cases source with
    | nil => cases sized
    | cons row source =>
      rw [pick_cons]
      cases kept with
      | false => exact congrArg (row :: ·) (ih source (Nat.succ.inj sized))
      | true => exact congrArg (row :: ·) (ih source (Nat.succ.inj sized))

theorem weave_left (source : List Row) (sized : keep.length = source.length)
    (many : stay.length = keep.count true) :
    (weave keep (stay.map (Sum.inl : Row -> Row ⊕ Row)) (source.map Sum.inr)).filterMap Sum.getLeft? = stay := by
  induction keep generalizing stay source with
  | nil =>
    obtain rfl : stay = [] := List.eq_nil_of_length_eq_zero many
    rfl
  | cons kept keep ih =>
    cases source with
    | nil => cases sized
    | cons row source =>
      cases kept with
      | false => exact ih stay source (Nat.succ.inj sized) (by simpa using many)
      | true =>
        cases stay with
        | nil => simp at many
        | cons first stay => exact congrArg (first :: ·) (ih stay source (Nat.succ.inj sized) (by simpa using many))

theorem gapEnd_spec (left position : Nat) :
    position ≤ gapEnd keep left position ∧ gapEnd keep left position ≤ position + left ∧
      ∀ between, position ≤ between -> between < gapEnd keep left position -> keep.getD between false = false := by
  induction left generalizing position with
  | zero => exact ⟨Nat.le_refl _, Nat.le_refl _, fun between low high => absurd low (Nat.not_le_of_lt high)⟩
  | succ left ih =>
    rw [gapEnd]
    split
    next => exact ⟨Nat.le_refl _, by omega, fun between low high => absurd low (Nat.not_le_of_lt high)⟩
    next dropped =>
      obtain ⟨low, high, gap⟩ := ih (position + 1)
      refine ⟨by omega, by omega, fun between above below => ?_⟩
      rcases Nat.lt_or_eq_of_le above with later | rfl
      next => exact gap between later below
      next => exact Bool.eq_false_iff.mpr dropped

theorem weave_gap (source : List Row) (sized : keep.length = source.length) (first count : Nat)
    (inside : first + count ≤ keep.length)
    (gap : ∀ between, first ≤ between -> between < first + count -> keep.getD between false = false) :
    weave (keep.drop first) stay (source.drop first) =
      (source.drop first).take count ++ weave (keep.drop (first + count)) stay (source.drop (first + count)) := by
  induction count generalizing first with
  | zero => rw [List.take_zero, List.nil_append, Nat.add_zero]
  | succ count ih =>
    have here : first < keep.length := by omega
    have there : first < source.length := by omega
    have dropped : keep[first] = false := by
      have own := gap first (Nat.le_refl _) (by omega)
      rwa [List.getD_eq_getElem?_getD, List.getElem?_eq_getElem here] at own
    have further := ih (first + 1) (by omega) (fun between above below => gap between (by omega) (by omega))
    rw [List.drop_eq_getElem_cons here, List.drop_eq_getElem_cons there, dropped, List.take_succ_cons]
    show source[first] :: weave (keep.drop (first + 1)) stay (source.drop (first + 1)) = _
    rw [further, show first + 1 + count = first + (count + 1) by omega]
    rfl

theorem count_gap (first count : Nat) (inside : first + count ≤ keep.length)
    (gap : ∀ between, first ≤ between -> between < first + count -> keep.getD between false = false) :
    (keep.drop first).count true = (keep.drop (first + count)).count true := by
  induction count generalizing first with
  | zero => rfl
  | succ count ih =>
    have here : first < keep.length := by omega
    have dropped : keep[first] = false := by
      have own := gap first (Nat.le_refl _) (by omega)
      rwa [List.getD_eq_getElem?_getD, List.getElem?_eq_getElem here] at own
    have further := ih (first + 1) (by omega) (fun between above below => gap between (by omega) (by omega))
    rw [List.drop_eq_getElem_cons here, dropped, List.count_cons_of_ne (by decide), further,
      show first + 1 + count = first + (count + 1) by omega]

theorem weave_past (source : List Row) (start : Nat) (past : keep.length ≤ start)
    (sized : keep.length = source.length) : weave (keep.drop start) stay (source.drop start) = stay := by
  rw [List.drop_of_length_le past, List.drop_of_length_le (sized ▸ past)]
  rfl

theorem insertions_run (sized : keep.length = source.length) (fuel start : Nat)
    (enough : keep.length ≤ start + fuel) (inside : start ≤ keep.length) (front stay : List Row) (placed : front.length = start)
    (many : stay.length = (keep.drop start).count true) :
    applyAll source (front ++ stay) (insertions keep fuel start) =
      some (front ++ weave (keep.drop start) stay (source.drop start)) := by
  induction fuel generalizing start front stay with
  | zero =>
    rw [weave_past keep stay source start (by omega) sized]
    rfl
  | succ fuel ih =>
    rw [insertions]
    split
    next past =>
      rw [weave_past keep stay source start past sized]
      rfl
    next more =>
      have here : start < keep.length := Nat.lt_of_not_le more
      have there : start < source.length := by omega
      split
      next kept =>
        have own : keep[start] = true := by rwa [List.getD_eq_getElem?_getD, List.getElem?_eq_getElem here] at kept
        rw [List.drop_eq_getElem_cons here, own, List.count_cons_self] at many
        cases stay with
        | nil => simp at many
        | cons first stay =>
          have next := ih (start + 1) (by omega) here (front ++ [first]) stay (by simp [placed]) (Nat.succ.inj many)
          rw [List.append_assoc, List.singleton_append] at next
          rw [next, List.drop_eq_getElem_cons here, List.drop_eq_getElem_cons there, own, List.append_assoc]
          rfl
      next dropped =>
        obtain ⟨low, high, gap⟩ := gapEnd_spec keep (keep.length - start) start
        have beyond : start < gapEnd keep (keep.length - start) start := by
          obtain ⟨left, size⟩ : ∃ left, keep.length - start = left + 1 := ⟨keep.length - start - 1, by omega⟩
          rw [size, gapEnd, if_neg dropped]
          exact (gapEnd_spec keep left (start + 1)).1
        obtain ⟨count, size⟩ := Nat.exists_eq_add_of_le low
        rw [size] at high gap beyond
        dsimp only
        rw [size, Nat.add_sub_cancel_left]
        have stayed : (front ++ stay).drop start = stay := by rw [← placed, List.drop_left]
        have fronted : (front ++ stay).take start = front := by rw [← placed, List.take_left]
        have next := ih (start + count) (by omega) (by omega) (front ++ (source.drop start).take count) stay
          (by rw [List.length_append, List.length_take, List.length_drop, placed]; omega)
          (by rw [many, count_gap keep start count (by omega) gap])
        rw [applyAll, apply, if_pos ⟨by rw [List.length_append]; omega, by omega⟩, fronted, stayed, Option.bind_some, next,
          weave_gap keep stay source sized start count (by omega) gap, List.append_assoc]

theorem scans_run (keepOld keepNew : List Bool) (rows source : List Row) (sizedOld : keepOld.length = rows.length)
    (sizedNew : keepNew.length = source.length) (many : (pick keepOld rows).length = keepNew.count true) :
    applyAll source rows (removals keepOld rows.length rows.length ++ insertions keepNew source.length 0) =
      some (weave keepNew (pick keepOld rows) source) := by
  have taken := removals_run source keepOld rows sizedOld rows.length rows.length (Nat.le_refl _) (Nat.le_refl _) []
  rw [List.take_length, List.append_nil, List.append_nil] at taken
  rw [applyAll_append, taken, Option.bind_some]
  exact insertions_run keepNew source sizedNew source.length 0 (by omega) (Nat.zero_le _) [] _ rfl many

theorem removals_inserted (fuel last : Nat) : ((removals keep fuel last).map inserted).sum = 0 := by
  induction fuel generalizing last with
  | zero => rfl
  | succ fuel ih =>
    cases last with
    | zero => rfl
    | succ last =>
      rw [removals]
      split
      next => exact ih last
      next => simpa [inserted] using ih _

theorem insertions_removed (fuel start : Nat) : ((insertions keep fuel start).map removed).sum = 0 := by
  induction fuel generalizing start with
  | zero => rfl
  | succ fuel ih =>
    rw [insertions]
    split
    next => rfl
    next =>
      split
      next => exact ih (start + 1)
      next => simpa [removed] using ih _

theorem applyAll_tagged (next : List Row) (script : List Splice) (applied : applyAll source rows script = some next) :
    ∃ tagged, applyAll (source.map Sum.inr) (rows.map Sum.inl) script = some tagged ∧ tagged.map (Sum.elim id id) = next := by
  have plain := applyAll_map (Sum.elim id id : Row ⊕ Row -> Row) (source.map Sum.inr) (rows.map Sum.inl) script
  simp only [List.map_map, Sum.elim_comp_inr, Sum.elim_comp_inl, List.map_id, applied] at plain
  obtain ⟨tagged, found, same⟩ := Option.map_eq_some_iff.mp plain.symm
  exact ⟨tagged, found, same⟩

theorem applyAll_length (next : List Row) (script : List Splice) (applied : applyAll source rows script = some next) :
    next.length + (moved script).1 = rows.length + (moved script).2 := by
  obtain ⟨tagged, found, rfl⟩ := applyAll_tagged source rows next script applied
  have counted := (applyAll_left source _ tagged script found).2.2
  rwa [List.length_map] at counted ⊢

theorem left_sublist (tagged : List (Row ⊕ Row)) :
    (tagged.filterMap Sum.getLeft?).Sublist (tagged.map (Sum.elim id id)) := by
  induction tagged with
  | nil => exact .slnil
  | cons first tagged ih =>
    cases first with
    | inl row => exact ih.cons_cons row
    | inr row => exact ih.cons row

end

end Splice

/-! ### What is shared -/

theorem mem_sharedRows (pair : Nat × Nat)
    (member : pair ∈ sharedRows old new) : ∃ id, old[pair.1]? = some (some id) ∧ new[pair.2]? = some id := by
  obtain ⟨⟨id, position⟩, among, found⟩ := List.mem_filterMap.mp member
  obtain ⟨held, here, rfl⟩ := Option.map_eq_some_iff.mp found
  obtain ⟨inside, same, -⟩ := List.findIdx?_eq_some_iff_getElem.mp here
  refine ⟨id, ?_, List.mem_zipIdx_iff_getElem?.mp among⟩
  rw [List.getElem?_eq_getElem inside, of_decide_eq_true same]

theorem sharedRows_held : (sharedRows old new).map Prod.fst = new.filterMap (heldAt old):= by
  rw [sharedRows, List.map_filterMap]
  conv => rhs; rw [← List.zipIdx_map_fst 0 new, List.filterMap_map]
  apply List.filterMap_congr
  intro pair _
  cases held : heldAt old pair.1 <;> simp [held]

theorem sharedRows_rise : (sharedRows old new).Pairwise (fun first second => first.2 < second.2):= by
  have upward : new.zipIdx.Pairwise (fun first second => first.2 < second.2) := by
    have range : (new.zipIdx.map Prod.snd).Pairwise (· < ·) := by
      rw [List.zipIdx_map_snd]
      exact List.pairwise_lt_range'
    exact List.pairwise_map.mp range
  refine List.Pairwise.filterMap _ ?_ upward
  intro first second later firstPair firstFound secondPair secondFound
  obtain ⟨_, -, rfl⟩ := Option.map_eq_some_iff.mp firstFound
  obtain ⟨_, -, rfl⟩ := Option.map_eq_some_iff.mp secondFound
  exact later

theorem heldAt_known (known : (old.filterMap id).Nodup) (index : Nat) (inside : index < old.length)
    (message : MessageId) (here : old[index] = some message) : heldAt old message = some index := by
  have apart := List.pairwise_iff_getElem.mp (List.pairwise_filterMap.mp known)
  refine List.findIdx?_eq_some_iff_getElem.mpr ⟨inside, decide_eq_true here, fun earlier before => ?_⟩
  rw [decide_eq_true_iff]
  intro same
  exact apart earlier index (before.trans inside) inside before message same message here rfl

theorem common_rises (known : (old.filterMap id).Nodup) (common : List MessageId)
    (held : (common.map some).Sublist old) :
    (common.filterMap (heldAt old)).Pairwise (· < ·) ∧ (common.filterMap (heldAt old)).length = common.length := by
  obtain ⟨positions, spelled, rising⟩ := List.sublist_eq_map_getElem held
  have found : common.filterMap (heldAt old) = positions.map Fin.val := by
    have lifted : common.filterMap (heldAt old) = (common.map some).filterMap (fun row => row.bind (heldAt old)) := by
      rw [List.filterMap_map]
      rfl
    rw [lifted, spelled, List.filterMap_map, ← List.filterMap_eq_map']
    apply List.filterMap_congr
    intro position member
    have among : old[position] ∈ common.map some := by
      rw [spelled]
      exact List.mem_map_of_mem member
    obtain ⟨message, -, same⟩ := List.mem_map.mp among
    rw [Function.comp_apply, ← same, Option.bind_some]
    exact heldAt_known old known position position.isLt message same.symm
  rw [found]
  have sizes := congrArg List.length spelled
  rw [List.length_map, List.length_map] at sizes
  exact ⟨List.pairwise_map.mpr rising, by rw [List.length_map, sizes]⟩

/-! ### The script -/

section

variable (old : List (Option MessageId)) (new : List MessageId)

def stayIn : List MessageId := (keptRows old new).filterMap (fun pair => new[pair.2]?)

theorem mem_keptRows (pair : Nat × Nat) (member : pair ∈ keptRows old new) :
    ∃ id, old[pair.1]? = some (some id) ∧ new[pair.2]? = some id :=
  mem_sharedRows old new pair ((pick_sublist _ _).subset member)

theorem keptRows_longest : ((keptRows old new).map Prod.fst).Pairwise (· < ·) ∧ ∀ run : List Nat,
    run.Sublist (new.filterMap (heldAt old)) -> run.Pairwise (· < ·) -> run.length ≤ (keptRows old new).length := by
  have exact := longest_exact ((sharedRows old new).map Prod.fst)
  rw [pick_map, sharedRows_held, List.length_map] at exact
  rw [keptRows, longestInOrder, sharedRows_held]
  exact exact

theorem length_stayIn : (stayIn old new).length = (keptRows old new).length := by
  have read : ∀ pair ∈ keptRows old new, new[pair.2]? = some (new.getD pair.2 ⟨0⟩) := by
    intro pair member
    obtain ⟨message, -, here⟩ := mem_keptRows old new pair member
    rw [List.getD_eq_getElem?_getD, here, Option.getD_some]
  rw [stayIn, List.filterMap_congr read, List.filterMap_eq_map', List.length_map]

theorem length_keepOld : (keepOld old new).length = old.length := by rw [keepOld, length_marked, List.length_replicate]

theorem length_keepNew : (keepNew old new).length = new.length := by rw [keepNew, length_marked, List.length_replicate]

theorem pick_keepOld : pick (keepOld old new) old = (stayIn old new).map some := by
  have inside : ∀ position ∈ (keptRows old new).map Prod.fst, position < old.length := by
    intro position member
    obtain ⟨pair, there, rfl⟩ := List.mem_map.mp member
    obtain ⟨message, here, -⟩ := mem_keptRows old new pair there
    exact (List.getElem?_eq_some_iff.mp here).1
  rw [keepOld, pick_marked _ old (keptRows_longest old new).1 inside, stayIn, List.filterMap_map, List.map_filterMap]
  apply List.filterMap_congr
  intro pair member
  obtain ⟨message, here, there⟩ := mem_keptRows old new pair member
  rw [Function.comp_apply, here, there, Option.map_some]

theorem pick_keepNew : pick (keepNew old new) new = stayIn old new := by
  have inside : ∀ position ∈ (keptRows old new).map Prod.snd, position < new.length := by
    intro position member
    obtain ⟨pair, there, rfl⟩ := List.mem_map.mp member
    obtain ⟨message, -, here⟩ := mem_keptRows old new pair there
    exact (List.getElem?_eq_some_iff.mp here).1
  have upward : ((keptRows old new).map Prod.snd).Pairwise (· < ·) :=
    List.pairwise_map.mpr ((sharedRows_rise old new).sublist (pick_sublist _ _))
  rw [keepNew, pick_marked _ new upward inside, List.filterMap_map]
  rfl

theorem count_keepNew : (keepNew old new).count true = (stayIn old new).length := by
  rw [← pick_keepNew, length_pick _ new (length_keepNew old new)]

theorem stayIn_common : ((stayIn old new).map some).Sublist old ∧ (stayIn old new).Sublist new := by
  constructor
  next =>
    rw [← pick_keepOld]
    exact pick_sublist _ _
  next =>
    rw [← pick_keepNew]
    exact pick_sublist _ _

theorem stayIn_most (known : (old.filterMap id).Nodup) (other : List MessageId) (held : (other.map some).Sublist old)
    (there : other.Sublist new) : other.length ≤ (stayIn old new).length := by
  obtain ⟨upward, size⟩ := common_rises old known other held
  have bound := (keptRows_longest old new).2 _ (there.filterMap _) upward
  rwa [size, ← length_stayIn] at bound

theorem splices_turned : applyAll (new.map some) old (splices old new) = some (new.map some) := by
  have run := scans_run (keepOld old new) (keepNew old new) old (new.map some) (length_keepOld old new)
    (by rw [List.length_map, length_keepNew]) (by rw [pick_keepOld, List.length_map, count_keepNew])
  have woven : weave (keepNew old new) ((stayIn old new).map some) (new.map some) = new.map some := by
    rw [← pick_keepNew, ← pick_map]
    exact weave_pick (keepNew old new) _ (by rw [List.length_map, length_keepNew])
  rwa [List.length_map, pick_keepOld, woven] at run

theorem splices_left : stays (new.map some) old (splices old new) = some ((stayIn old new).map some) := by
  have run := scans_run (keepOld old new) (keepNew old new) (old.map (Sum.inl : _ -> Option MessageId ⊕ Option MessageId))
    ((new.map some).map Sum.inr) (by rw [List.length_map, length_keepOld])
    (by rw [List.length_map, List.length_map, length_keepNew])
    (by rw [pick_map, List.length_map, pick_keepOld, List.length_map, count_keepNew])
  rw [List.length_map, List.length_map, List.length_map, pick_map, pick_keepOld] at run
  rw [stays, splices, run, Option.map_some,
    weave_left (keepNew old new) _ _ (by rw [List.length_map, length_keepNew]) (by rw [List.length_map, count_keepNew])]

theorem splices_moved : (moved (splices old new)).1 + (stayIn old new).length = old.length ∧
    (moved (splices old new)).2 + (stayIn old new).length = new.length := by
  have taken : applyAll (new.map some) old (removals (keepOld old new) old.length old.length) =
      some ((stayIn old new).map some) := by
    have run := removals_run (new.map some) (keepOld old new) old (length_keepOld old new) old.length old.length
      (Nat.le_refl _) (Nat.le_refl _) []
    rwa [List.take_length, List.append_nil, List.append_nil, pick_keepOld] at run
  have first := applyAll_length _ _ _ _ taken
  have whole := applyAll_length _ _ _ _ (splices_turned old new)
  have only : (moved (splices old new)).1 = (moved (removals (keepOld old new) old.length old.length)).1 := by
    simp only [moved, splices, List.map_append, List.sum_append]
    rw [insertions_removed]
    rfl
  have put : (moved (removals (keepOld old new) old.length old.length)).2 = 0 := removals_inserted _ _ _
  rw [List.length_map] at first whole
  exact ⟨by omega, by omega⟩

theorem moved_least (known : (old.filterMap id).Nodup) (script : List Splice)
    (turned : applyAll (new.map some) old script = some (new.map some)) :
    old.length ≤ (moved script).1 + (stayIn old new).length ∧ new.length ≤ (moved script).2 + (stayIn old new).length := by
  obtain ⟨tagged, run, spelled⟩ := applyAll_tagged _ _ _ script turned
  obtain ⟨within, lost, -⟩ := applyAll_left _ _ _ script run
  have start : (old.map (Sum.inl : _ -> Option MessageId ⊕ Option MessageId)).filterMap Sum.getLeft? = old := by
    rw [List.filterMap_map]
    exact List.filterMap_some
  have there := left_sublist tagged
  rw [spelled] at there
  obtain ⟨messages, below, same⟩ := List.sublist_map_iff.mp there
  rw [start, same] at within lost
  rw [List.length_map] at lost
  have bound := stayIn_most old new known messages within below
  have sizes := applyAll_length _ _ _ script turned
  rw [List.length_map] at sizes
  exact ⟨by omega, by omega⟩

/-- The script turns the old stretch into the new one, moving no row that need not be. -/
theorem splices_exact (known : (old.filterMap id).Nodup) : ∃ stay, SplicedExactly old new (splices old new) stay := by
  refine ⟨stayIn old new, splices_turned old new, splices_left old new, stayIn_common old new, stayIn_most old new known, ?_⟩
  intro other turned
  have least := moved_least old new known other turned
  have own := splices_moved old new
  exact ⟨by omega, by omega⟩

end

theorem splices_exact_moved :
    ∃ stay, SplicedExactly [some ⟨1⟩, none, some ⟨2⟩] [⟨2⟩, ⟨1⟩] (splices [some ⟨1⟩, none, some ⟨2⟩] [⟨2⟩, ⟨1⟩]) stay :=
  splices_exact _ _ (by decide)

end Postio

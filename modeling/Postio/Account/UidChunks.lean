import Mathlib.Data.List.Pairwise
import Postio.Account.UidSet
import Postio.Lib.Lines
import Postio.Lib.Separated

set_option autoImplicit false

namespace Postio.UidSet

/-! A set split into chunks, and told to a server. -/

def isOpenEnded (set : UidSet) : Bool :=
  match set.ranges.getLast? with
  | some last => last.2 = U32.max
  | none => false

/-- `as u32`. -/
def wrap (value : Nat) : U32 := @Fin.ofNat 4294967296 U32.size_ne_zero value

/-- `u32::try_from(..).unwrap_or(u32::MAX)`. -/
def clamp (value : Nat) : U32 := if fits : value < 4294967296 then ⟨value, fits⟩ else U32.max

/-- The chunks filled so far, the one being filled, and how many UIDs it still takes. -/
structure Cutting where
  chunks : List UidSet
  current : List (U32 × U32)
  room : Nat

/-- One turn of the inner loop, which takes as much of a range as there is room for. -/
def Cutting.take (max cursor high : Nat) (state : Cutting) : Nat × Cutting :=
  let take := min state.room (high - cursor + 1)
  let last := cursor + take - 1
  let current := state.current ++ [(wrap cursor, clamp last)]
  (last + 1,
    if state.room - take = 0 then { chunks := state.chunks ++ [{ ranges := current }], current := [], room := max }
    else { state with current, room := state.room - take })

/-- The inner loop, for as many turns as it is given; none where it would take more. -/
def Cutting.range (max high : Nat) : Nat -> Nat -> Cutting -> Option Cutting
  | 0, _, _ => none
  | turns + 1, cursor, state =>
    if cursor ≤ high then
      let (cursor, state) := state.take max cursor high
      Cutting.range max high turns cursor state
    else some state

def Cutting.ranges (max : Nat) : List (U32 × U32) -> Cutting -> Option Cutting
  | [], state => some state
  | (low, high) :: rest, state =>
    (Cutting.range max high.val (high.val + 2 - low.val) low.val state).bind (Cutting.ranges max rest)

/-- Pieces of at most so many UIDs each, in order. A set that is open at its end stays whole. -/
def chunks (set : UidSet) (max : Nat) : Option (List UidSet) :=
  if set.ranges.isEmpty then some []
  else if set.isOpenEnded then some [set]
  else
    let max := min (Nat.max max 1) 4294967295
    (Cutting.ranges max set.ranges { chunks := [], current := [], room := max }).map (fun state =>
      if state.current.isEmpty then state.chunks else state.chunks ++ [{ ranges := state.current }])

def rangeText (range : U32 × U32) : List Char :=
  if range.1 = range.2 then Nat.toDigits 10 range.1.val
  else if range.2 = U32.max then Nat.toDigits 10 range.1.val ++ [':', '*']
  else Nat.toDigits 10 range.1.val ++ ':' :: Nat.toDigits 10 range.2.val

/-- The set as an IMAP sequence set: `1:3,7,10:*`. -/
def toSequenceSet (set : UidSet) : List Char := Separated.join ',' (set.ranges.map rangeText)

/-! ### What a set's numbers are, and what a sequence set says -/

def span (range : U32 × U32) : List Nat := List.range' range.1.val (range.2.val + 1 - range.1.val)

def numbers (ranges : List (U32 × U32)) : List Nat := ranges.flatMap span

def bound (star : Nat) (text : List Char) : Option Nat :=
  if text = ['*'] then some star else Lines.parseDecimal 4294967296 text

def saysPart (star : Nat) (text : List Char) (uid : Nat) : Prop :=
  match Lines.splitOnce ':' text with
  | none => bound star text = some uid
  | some (first, last) => ∃ low ∈ bound star first, ∃ high ∈ bound star last, min low high ≤ uid ∧ uid ≤ max low high

def saysSet (star : Nat) (text : List Char) (uid : Nat) : Prop := ∃ part ∈ text.splitOn ',', saysPart star part uid

/-! ### The loop -/

theorem wrap_small (value : Nat) (small : value < 4294967296) : (wrap value).val = value := Nat.mod_eq_of_lt small

theorem clamp_small (value : Nat) (small : value < 4294967296) : (clamp value).val = value := by
  unfold clamp
  rw [dif_pos small]

/-- What the loop keeps: chunks that are full, one that is not, and every UID passed in one of them, in order. -/
structure Cutting.Keeps (max cursor : Nat) (passed : List Nat) (state : Cutting) : Prop where
  positive : 0 < state.room
  room : state.room + (numbers state.current).length = max
  shape : Canonical { ranges := state.current }
  behind : ∀ range ∈ state.current, range.2.val + 1 < cursor
  full : ∀ chunk ∈ state.chunks, Canonical chunk ∧ chunk.ranges ≠ [] ∧ (numbers chunk.ranges).length ≤ max
  exact : (state.chunks.flatMap (fun chunk => numbers chunk.ranges)) ++ numbers state.current = passed

theorem canonical_push (ranges : List (U32 × U32)) (range : U32 × U32) (shape : Canonical { ranges := ranges })
    (filled : range.1 ≤ range.2) (zeroFree : range.1 ≠ 0) (behind : ∀ other ∈ ranges, other.2.val + 1 < range.1.val) :
    Canonical { ranges := ranges ++ [range] } := by
  constructor
  next =>
    intro other inside
    rcases List.mem_append.mp inside with inside | inside
    next => exact shape.filled other inside
    next =>
      obtain rfl := List.mem_singleton.mp inside
      exact filled
  next =>
    intro other inside
    rcases List.mem_append.mp inside with inside | inside
    next => exact shape.zeroFree other inside
    next =>
      obtain rfl := List.mem_singleton.mp inside
      exact zeroFree
  next =>
    refine List.pairwise_append.mpr ⟨shape.apart, List.pairwise_singleton _ _, ?_⟩
    intro other inside second last
    obtain rfl := List.mem_singleton.mp last
    exact behind other inside

theorem Cutting.take_keeps (max cursor high : Nat) (passed : List Nat) (state : Cutting) (small : high < 4294967295)
    (from_one : 0 < cursor) (left : cursor ≤ high) (keeps : state.Keeps max cursor passed) :
    ∃ taken, 0 < taken ∧ taken ≤ high + 1 - cursor ∧ (state.take max cursor high).1 = cursor + taken ∧
      (cursor + taken ≤ high → (state.take max cursor high).2.current = []) ∧
      (state.take max cursor high).2.Keeps max (cursor + taken + 1) (passed ++ List.range' cursor taken) := by
  have positive := keeps.positive
  obtain ⟨taken, amount⟩ : ∃ taken, taken = min state.room (high - cursor + 1) := ⟨_, rfl⟩
  have some_taken : 0 < taken ∧ taken ≤ high + 1 - cursor ∧ taken ≤ state.room := by omega
  have first : (wrap cursor).val = cursor := wrap_small cursor (by omega)
  have last : (clamp (cursor + taken - 1)).val = cursor + taken - 1 := clamp_small _ (by omega)
  have piece : span (wrap cursor, clamp (cursor + taken - 1)) = List.range' cursor taken := by
    unfold span
    rw [first, last]
    congr 1
    omega
  have pushed : Canonical { ranges := state.current ++ [(wrap cursor, clamp (cursor + taken - 1))] } := by
    refine canonical_push _ _ keeps.shape ?_ ?_ ?_
    next => rw [Fin.le_def, first, last]; omega
    next =>
      intro zero
      have value := congrArg Fin.val zero
      rw [first] at value
      change cursor = 0 at value
      omega
    next =>
      intro other inside
      rw [first]
      exact keeps.behind other inside
  have listed : numbers (state.current ++ [(wrap cursor, clamp (cursor + taken - 1))]) =
      numbers state.current ++ List.range' cursor taken := by
    unfold numbers
    rw [List.flatMap_append, List.flatMap_singleton, piece]
  have counted := congrArg List.length listed
  rw [List.length_append, List.length_range'] at counted
  have room := keeps.room
  refine ⟨taken, some_taken.1, some_taken.2.1, ?_, ?_, ?_⟩
  next =>
    unfold Cutting.take
    simp only [← amount]
    omega
  next =>
    intro more
    unfold Cutting.take
    simp only [← amount]
    rw [if_pos (by omega)]
  next =>
    unfold Cutting.take
    simp only [← amount]
    split
    next filled =>
      refine ⟨by simp only; omega, by simp [numbers], ⟨by simp, by simp, .nil⟩, by simp, ?_, ?_⟩
      next =>
        intro chunk inside
        rcases List.mem_append.mp inside with inside | inside
        next => exact keeps.full chunk inside
        next =>
          obtain rfl := List.mem_singleton.mp inside
          exact ⟨pushed, by simp, by simp only; omega⟩
      next =>
        rw [← keeps.exact, List.flatMap_append, List.flatMap_singleton, listed]
        simp [numbers]
    next open_still =>
      refine ⟨by simp only; omega, by simp only; rw [counted]; omega, pushed, ?_, keeps.full, ?_⟩
      next =>
        intro range inside
        rcases List.mem_append.mp inside with inside | inside
        next => exact Nat.lt_of_lt_of_le (keeps.behind range inside) (by omega)
        next =>
          obtain rfl := List.mem_singleton.mp inside
          simp only [last]
          omega
      next =>
        simp only
        rw [← keeps.exact, listed, List.append_assoc]

theorem Cutting.Keeps.later (max cursor later : Nat) (passed : List Nat) (state : Cutting) (keeps : state.Keeps max cursor passed)
    (more : ∀ range ∈ state.current, range.2.val + 1 < later) : state.Keeps max later passed :=
  { keeps with behind := more }

theorem Cutting.range_keeps (max high turns cursor : Nat) (passed : List Nat) (state : Cutting) (small : high < 4294967295)
    (from_one : 0 < cursor) (left : cursor ≤ high) (enough : high + 2 - cursor ≤ turns) (keeps : state.Keeps max cursor passed) :
    ∃ after, Cutting.range max high turns cursor state = some after ∧
      after.Keeps max (high + 2) (passed ++ List.range' cursor (high + 1 - cursor)) := by
  induction turns generalizing cursor passed state with
  | zero => omega
  | succ turns ih =>
    obtain ⟨taken, some_taken, within, moved, emptied, further⟩ := Cutting.take_keeps max cursor high passed state small from_one left keeps
    simp only [Cutting.range, if_pos left]
    rw [moved]
    by_cases more : cursor + taken ≤ high
    case pos =>
      have again := Cutting.Keeps.later max _ (cursor + taken) _ _ further (by rw [emptied more]; simp)
      obtain ⟨after, done, kept⟩ := ih (cursor + taken) _ _ (by omega) more (by omega) again
      refine ⟨after, done, ?_⟩
      rw [List.append_assoc, List.range'_append_1] at kept
      rwa [show high + 1 - cursor = taken + (high + 1 - (cursor + taken)) by omega]
    case neg =>
      have whole : cursor + taken = high + 1 := by omega
      obtain ⟨rest, rfl⟩ : ∃ rest, turns = rest + 1 := ⟨turns - 1, by omega⟩
      refine ⟨(state.take max cursor high).2, ?_, ?_⟩
      next =>
        simp only [Cutting.range]
        rw [if_neg more]
      next =>
        rw [show high + 1 - cursor = taken by omega]
        rwa [whole] at further

theorem Cutting.ranges_keeps (max cursor : Nat) (passed : List Nat) (ranges : List (U32 × U32)) (state : Cutting)
    (shape : Canonical { ranges := ranges }) (bounded : ∀ range ∈ ranges, range.2.val < 4294967295)
    (ahead : ∀ range ∈ ranges, cursor ≤ range.1.val) (keeps : state.Keeps max cursor passed) :
    ∃ after later, Cutting.ranges max ranges state = some after ∧ after.Keeps max later (passed ++ numbers ranges) := by
  induction ranges generalizing cursor passed state with
  | nil => exact ⟨state, cursor, rfl, by simpa [numbers] using keeps⟩
  | cons range rest ih =>
    have filled := Fin.le_def.mp (shape.filled range List.mem_cons_self)
    have zero_free : range.1.val ≠ 0 := fun zero => shape.zeroFree range List.mem_cons_self (Fin.ext zero)
    have small := bounded range List.mem_cons_self
    have reached := ahead range List.mem_cons_self
    have entering := Cutting.Keeps.later max cursor range.1.val passed state keeps
      (fun other inside => Nat.lt_of_lt_of_le (keeps.behind other inside) reached)
    obtain ⟨middle, done, kept⟩ := Cutting.range_keeps max range.2.val (range.2.val + 2 - range.1.val) range.1.val passed state
      small (Nat.pos_of_ne_zero zero_free) filled (Nat.le_refl _) entering
    obtain ⟨apart, rest_apart⟩ := List.pairwise_cons.mp shape.apart
    have rest_shape : Canonical { ranges := rest } :=
      ⟨fun other inside => shape.filled other (List.mem_cons_of_mem _ inside),
        fun other inside => shape.zeroFree other (List.mem_cons_of_mem _ inside), rest_apart⟩
    obtain ⟨after, later, ended, last⟩ := ih (range.2.val + 2) _ middle rest_shape
      (fun other inside => bounded other (List.mem_cons_of_mem _ inside)) (fun other inside => apart other inside) kept
    refine ⟨after, later, ?_, ?_⟩
    next =>
      unfold Cutting.ranges
      rw [done]
      exact ended
    next =>
      rw [List.append_assoc] at last
      exact last

/-! ### The text -/

theorem mem_span (range : U32 × U32) (uid : Nat) : uid ∈ span range <-> range.1.val ≤ uid ∧ uid ≤ range.2.val := by
  unfold span
  rw [List.mem_range'_1]
  omega

theorem mem_numbers (ranges : List (U32 × U32)) (uid : Nat) :
    uid ∈ numbers ranges <-> ∃ range ∈ ranges, range.1.val ≤ uid ∧ uid ≤ range.2.val := by
  unfold numbers
  simp only [List.mem_flatMap, mem_span]

theorem bound_toDigits (star : Nat) (value : U32) : bound star (Nat.toDigits 10 value.val) = some value.val := by
  unfold bound
  rw [if_neg, Lines.parseDecimal_toDigits _ _ value.isLt]
  intro same
  exact Lines.notMem_toDigits '*' (by decide) value.val (by rw [same]; exact List.mem_singleton_self _)

theorem saysPart_rangeText (star : Nat) (range : U32 × U32) (uid : Nat) (filled : range.1 ≤ range.2) (below : range.2 ≠ U32.max) :
    saysPart star (rangeText range) uid <-> uid ∈ span range := by
  have ordered := Fin.le_def.mp filled
  rw [mem_span]
  unfold rangeText
  split
  next same =>
    unfold saysPart
    rw [Lines.splitOnce_none ':' _ (Lines.notMem_toDigits ':' (by decide) _)]
    simp only [bound_toDigits, Option.some.injEq]
    have equal := congrArg Fin.val same
    omega
  next other =>
    unfold saysPart
    rw [Lines.splitOnce_append ':' _ _ (Lines.notMem_toDigits ':' (by decide) _)]
    simp only [bound_toDigits, Option.mem_def, Option.some.injEq, exists_eq_left', min_eq_left ordered, max_eq_right ordered]

theorem comma_apart (range : U32 × U32) : ',' ∉ rangeText range := by
  have first := Lines.notMem_toDigits ',' (by decide) range.1.val
  have last := Lines.notMem_toDigits ',' (by decide) range.2.val
  unfold rangeText
  split
  next => exact first
  next =>
    split
    next => simp [first]
    next => simp [first, last]

theorem saysSet_toSequenceSet (star : Nat) (set : UidSet) (uid : Nat) (shape : Canonical set) (some_range : set.ranges ≠ [])
    (below : ∀ range ∈ set.ranges, range.2 ≠ U32.max) :
    saysSet star set.toSequenceSet uid <-> uid ∈ numbers set.ranges := by
  unfold saysSet toSequenceSet numbers
  rw [Separated.split_join ',' _ (by simpa using some_range)]
  next =>
    rw [List.mem_flatMap]
    constructor
    next =>
      rintro ⟨part, inside, told⟩
      obtain ⟨range, among, rfl⟩ := List.mem_map.mp inside
      exact ⟨range, among, (saysPart_rangeText star range uid (shape.filled range among) (below range among)).mp told⟩
    next =>
      rintro ⟨range, among, inside⟩
      refine ⟨rangeText range, List.mem_map_of_mem among, ?_⟩
      exact (saysPart_rangeText star range uid (shape.filled range among) (below range among)).mpr inside
  next =>
    intro part inside
    obtain ⟨range, _, rfl⟩ := List.mem_map.mp inside
    exact comma_apart range

/-! ### The chunks -/

theorem bounded_below (set : UidSet) (shape : Canonical set) (bounded : set.isOpenEnded = false) :
    ∀ range ∈ set.ranges, range.2.val < 4294967295 := by
  intro range inside
  have top : U32.max.val = 4294967295 := rfl
  unfold isOpenEnded at bounded
  rcases List.eq_nil_or_concat set.ranges with empty | ⟨earlier, last, split⟩
  next => rw [empty] at inside; cases inside
  next =>
    rw [List.concat_eq_append] at split
    have apart := shape.apart
    rw [split] at inside apart
    rw [split, List.getLast?_append] at bounded
    have other : last.2 ≠ U32.max := by simpa using bounded
    have last_small : last.2.val ≠ 4294967295 := fun same => other (Fin.ext same)
    have in_range := last.2.isLt
    rcases List.mem_append.mp inside with inside | inside
    next =>
      have before := (List.pairwise_append.mp apart).2.2 range inside last (List.mem_singleton_self _)
      have below := last.1.isLt
      omega
    next =>
      obtain rfl := List.mem_singleton.mp inside
      omega

theorem numbers_ascending (ranges : List (U32 × U32))
    (apart : ranges.Pairwise (fun first second => first.2.val + 1 < second.1.val)) : (numbers ranges).Pairwise (· < ·) := by
  induction ranges with
  | nil => exact .nil
  | cons range rest ih =>
    obtain ⟨ahead, further⟩ := List.pairwise_cons.mp apart
    have split : numbers (range :: rest) = span range ++ numbers rest := rfl
    rw [split]
    refine List.pairwise_append.mpr ⟨List.pairwise_lt_range', ih further, ?_⟩
    intro first here second later
    have low := (mem_span range first).mp here
    obtain ⟨other, among, high⟩ := (mem_numbers rest second).mp later
    have gap := ahead other among
    omega

theorem contains_numbers (set : UidSet) (shape : Canonical set) (uid : U32) :
    set.contains uid = true <-> uid.val ∈ numbers set.ranges := by
  unfold contains
  rw [mem_numbers]
  simp only [Bool.and_eq_true, decide_eq_true_eq, List.any_eq_true, Fin.le_def]
  constructor
  next => exact fun inside => inside.2
  next =>
    rintro ⟨range, among, low, high⟩
    refine ⟨?_, range, among, low, high⟩
    have positive : range.1.val ≠ 0 := fun zero => shape.zeroFree range among (Fin.ext zero)
    have one : (1 : U32).val = 1 := rfl
    omega

/-- A bounded set comes apart into full pieces, in order, and each is told as it is. -/
theorem chunks_partition (set : UidSet) (max star : Nat) (shape : Canonical set) (bounded : set.isOpenEnded = false)
    (some_room : 0 < max) :
    ∃ pieces, chunks set max = some pieces ∧
      (∀ piece ∈ pieces, Canonical piece ∧ (numbers piece.ranges).length ≤ max ∧
        ∀ uid, saysSet star piece.toSequenceSet uid <-> uid ∈ numbers piece.ranges) ∧
      pieces.flatMap (fun piece => numbers piece.ranges) = numbers set.ranges ∧
      (numbers set.ranges).Pairwise (· < ·) ∧
      ∀ uid : U32, set.contains uid = true <-> uid.val ∈ numbers set.ranges := by
  have small := bounded_below set shape bounded
  have members := numbers_ascending set.ranges shape.apart
  have contained := contains_numbers set shape
  unfold chunks
  split
  next empty =>
    have none_left : set.ranges = [] := List.isEmpty_iff.mp empty
    refine ⟨[], rfl, by simp, ?_, members, contained⟩
    rw [none_left]
    rfl
  next filled =>
    rw [if_neg (by simp [bounded])]
    obtain ⟨limit, capped⟩ : ∃ limit, limit = min (Nat.max max 1) 4294967295 := ⟨_, rfl⟩
    have limited : 0 < limit ∧ limit ≤ max := by
      have raised : Nat.max max 1 = max := Nat.max_eq_left some_room
      rw [capped, raised]
      omega
    have fresh : Cutting.Keeps limit 0 [] { chunks := [], current := [], room := limit } :=
      ⟨limited.1, by simp [numbers], ⟨by simp, by simp, .nil⟩, by simp, by simp, by simp [numbers]⟩
    obtain ⟨after, later, done, kept⟩ := Cutting.ranges_keeps limit 0 [] set.ranges _ shape small (by simp) fresh
    obtain ⟨pieces, gathered⟩ : ∃ pieces, pieces =
        if after.current.isEmpty then after.chunks else after.chunks ++ [{ ranges := after.current }] := ⟨_, rfl⟩
    have exact_numbers : pieces.flatMap (fun piece => numbers piece.ranges) = numbers set.ranges := by
      have exact_state := kept.exact
      rw [List.nil_append] at exact_state
      rw [← exact_state, gathered]
      split
      next empty => rw [List.isEmpty_iff.mp empty]; simp [numbers]
      next => rw [List.flatMap_append, List.flatMap_singleton]
    have full : ∀ piece ∈ pieces, Canonical piece ∧ piece.ranges ≠ [] ∧ (numbers piece.ranges).length ≤ limit := by
      intro piece inside
      rw [gathered] at inside
      split at inside
      next => exact kept.full piece inside
      next some_current =>
        rcases List.mem_append.mp inside with inside | inside
        next => exact kept.full piece inside
        next =>
          obtain rfl := List.mem_singleton.mp inside
          have room := kept.room
          exact ⟨kept.shape, by simpa using some_current, by simp only; omega⟩
    simp only [← capped, done, Option.map_some, ← gathered]
    refine ⟨pieces, rfl, ?_, exact_numbers, members, contained⟩
    intro piece inside
    obtain ⟨piece_shape, some_range, length⟩ := full piece inside
    refine ⟨piece_shape, Nat.le_trans length limited.2, ?_⟩
    intro uid
    apply saysSet_toSequenceSet star piece uid piece_shape some_range
    intro range among reaches
    -- The range's last UID is one of the set's, and those are below the star.
    have last_inside : range.2.val ∈ numbers set.ranges := by
      rw [← exact_numbers]
      refine List.mem_flatMap_of_mem inside ((mem_numbers piece.ranges _).mpr ⟨range, among, ?_, Nat.le_refl _⟩)
      exact Fin.le_def.mp (piece_shape.filled range among)
    obtain ⟨other, _, _, high⟩ := (mem_numbers set.ranges _).mp last_inside
    have below := small other (by assumption)
    rw [reaches] at high
    have top : U32.max.val = 4294967295 := rfl
    omega

theorem chunks_partition_five : ∃ pieces, chunks { ranges := [(1, 3), (7, 8)] } 2 = some pieces ∧
    pieces.flatMap (fun piece => numbers piece.ranges) = [1, 2, 3, 7, 8] := by
  obtain ⟨pieces, read, _, joined, _⟩ := chunks_partition { ranges := [(1, 3), (7, 8)] } 2 8
    ⟨Lines.forall_of_all _ (by decide), Lines.forall_of_all _ (by decide), by decide⟩ rfl (by decide)
  exact ⟨pieces, read, joined⟩

/-! ### How many there are, and each of them -/

def len (set : UidSet) : Option Nat :=
  if set.isOpenEnded then none else some (set.ranges.map (fun range => range.2.val - range.1.val + 1)).sum

/-- Every UID of a set, up to where its `*` begins. -/
def uids (set : UidSet) : List U32 :=
  (set.ranges.filter (fun range => range.2 ≠ U32.max)).flatMap (fun range => (span range).map wrap)

theorem uids_val (set : UidSet) :
    (uids set).map Fin.val = numbers (set.ranges.filter (fun range => range.2 ≠ U32.max)) := by
  unfold uids numbers
  rw [List.map_flatMap]
  congr 1
  funext range
  rw [List.map_map]
  refine (List.map_congr_left fun uid among => ?_).trans (List.map_id _)
  have high := ((mem_span range uid).mp among).2
  exact wrap_small uid (by have := range.2.isLt; omega)

theorem mem_uids (set : UidSet) (shape : Canonical set) (uid : U32) :
    uid ∈ uids set <-> set.contains uid = true ∧ ∀ range ∈ set.ranges, range.2 = U32.max -> uid < range.1 := by
  have value : uid ∈ uids set <-> uid.val ∈ (uids set).map Fin.val := (List.mem_map_of_injective Fin.val_injective).symm
  rw [value, uids_val, contains_numbers set shape, mem_numbers, mem_numbers]
  simp only [List.mem_filter, ne_eq, decide_not, Bool.not_eq_true', decide_eq_false_iff_not]
  constructor
  next =>
    rintro ⟨range, ⟨among, bounded⟩, low, high⟩
    refine ⟨⟨range, among, low, high⟩, fun other also unbounded => ?_⟩
    have different : range ≠ other := fun same => bounded (same ▸ unbounded)
    have either : range.2.val + 1 < other.1.val ∨ other.2.val + 1 < range.1.val := by
      let parted := fun first second : U32 × U32 => first.2.val + 1 < second.1.val ∨ second.2.val + 1 < first.1.val
      have symmetric : Std.Symm parted := ⟨fun _ _ => Or.symm⟩
      have pairs : set.ranges.Pairwise parted := shape.apart.imp Or.inl
      exact pairs.forall among also different
    have top : other.2.val = 4294967295 := by rw [unbounded]; rfl
    have within := range.1.isLt
    rw [Fin.lt_def]
    omega
  next =>
    rintro ⟨⟨range, among, low, high⟩, below⟩
    refine ⟨range, ⟨among, fun unbounded => ?_⟩, low, high⟩
    have under := below range among unbounded
    rw [Fin.lt_def] at under
    omega

theorem isOpenEnded_iff (set : UidSet) (shape : Canonical set) : set.isOpenEnded = true <-> set.contains U32.max = true := by
  constructor
  next =>
    intro unbounded
    unfold isOpenEnded at unbounded
    cases last : set.ranges.getLast? with
    | none => rw [last] at unbounded; cases unbounded
    | some range =>
      rw [last] at unbounded
      have among := List.mem_of_getLast? last
      have top : range.2 = U32.max := by simpa using unbounded
      rw [contains_numbers set shape, mem_numbers]
      exact ⟨range, among, by rw [← top]; exact shape.filled range among, by rw [top]⟩
  next =>
    intro inside
    by_contra bounded
    obtain ⟨range, among, -, high⟩ := (mem_numbers _ _).mp ((contains_numbers set shape U32.max).mp inside)
    have below := bounded_below set shape (by simpa using bounded) range among
    have top : U32.max.val = 4294967295 := rfl
    omega

/-- After any calls a set's UIDs are listed once each and ascending, up to where an open range begins. A set that was not given
the last number has a size, which is how many are listed, and collecting them makes the same set again. -/
theorem uids_enumerate (edits : List Edit) :
    (uids (run edits)).Pairwise (· < ·) ∧
    (∀ uid, uid ∈ uids (run edits) <->
      uid ∈ given edits ∧ ∀ range ∈ (run edits).ranges, range.2 = U32.max -> uid < range.1) ∧
    (len (run edits) = none <-> U32.max ∈ given edits) ∧
    (U32.max ∉ given edits -> len (run edits) = some (uids (run edits)).length ∧ fromIter (uids (run edits)) = run edits) := by
  have holds := run_holds edits
  have shape := holds.shape
  have enumerated (uid : U32) := (mem_uids (run edits) shape uid).trans (and_congr_left' (Holds.contains _ _ holds uid))
  have unknown : (run edits).isOpenEnded = true <-> U32.max ∈ given edits :=
    (isOpenEnded_iff _ shape).trans (Holds.contains _ _ holds _)
  refine ⟨?_, enumerated, ?_, fun bounded => ?_⟩
  next =>
    have ascending : ((uids (run edits)).map Fin.val).Pairwise (· < ·) := by
      rw [uids_val]
      exact numbers_ascending _ (shape.apart.sublist List.filter_sublist)
    rw [List.pairwise_map] at ascending
    exact ascending.imp Fin.lt_def.mpr
  next =>
    rw [← unknown]
    unfold len
    split <;> simp_all
  have known : (run edits).isOpenEnded = false := by rw [← Bool.not_eq_true, unknown]; exact bounded
  have topless : ∀ range ∈ (run edits).ranges, range.2 ≠ U32.max := fun range among top =>
    absurd (congrArg Fin.val top) (Nat.ne_of_lt (bounded_below _ shape known range among))
  constructor
  next =>
    have whole : (run edits).ranges.filter (fun range => range.2 ≠ U32.max) = (run edits).ranges :=
      List.filter_eq_self.mpr fun range among => decide_eq_true (topless range among)
    have sizes : (uids (run edits)).length = (numbers (run edits).ranges).length := by
      rw [← List.length_map, uids_val, whole]
    rw [len, known, if_neg Bool.false_ne_true, sizes, numbers, List.length_flatMap]
    congr 2
    refine List.map_congr_left fun range among => ?_
    have filled := Fin.le_def.mp (shape.filled range among)
    rw [span, List.length_range']
    omega
  next =>
    -- What is collected are the UIDs that were given, and the set is told by them.
    have same := (run_canonical [.fromIter (uids (run edits))] edits).2.2.1
    refine same.mpr fun uid => ?_
    rw [Bool.eq_iff_iff, holds.contains, (run_holds [.fromIter (uids (run edits))]).contains]
    change uid ∈ uids (run edits) ∧ uid ≠ 0 <-> uid ∈ given edits
    rw [enumerated]
    constructor
    next => exact fun inside => inside.1.1
    next =>
      intro inside
      have positive : uid ≠ 0 := fun zero => holds.zeroFree (zero ▸ inside)
      exact ⟨⟨inside, fun range among top => absurd top (topless range among)⟩, positive⟩

end Postio.UidSet

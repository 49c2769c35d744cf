import Postio.Search.Occurrences

set_option autoImplicit false

namespace Postio.Search

open Slices (reach slice Boundary)

/-! The words around a match that a result row shows. -/

structure Passage where
  text : Text
  ranges : List (Range Nat)
  elidedStart : Bool
  elidedEnd : Bool
  deriving DecidableEq

/-- What a passage does with its text's first line. -/
inductive FirstLine where
  | any
  | shown
  | avoided
  deriving DecidableEq

def afterLine : Text -> Text -> Text
  | _, [] => []
  | line, char :: rest =>
    if char = '\n' then
      if Lines.trim line = [] then afterLine [] rest else rest
    else afterLine (line ++ [char]) rest

def afterFirstLine (text : Text) : Text := afterLine [] text

def region (unicode : Unicode) (text : Text) (terms : List Text) : FirstLine -> Text
  | .any => text
  | .shown => afterFirstLine text
  | .avoided => if (find unicode (afterFirstLine text) terms).isEmpty then text else afterFirstLine text

def offsetsFrom : Nat -> Text -> List Nat
  | _, [] => []
  | offset, char :: rest => offset :: offsetsFrom (offset + char.utf8Size) rest

@[simp]
theorem offsetsFrom_nil (offset : Nat) : offsetsFrom offset [] = [] := rfl

@[simp]
theorem offsetsFrom_cons (offset : Nat) (char : Char) (rest : Text) :
    offsetsFrom offset (char :: rest) = offset :: offsetsFrom (offset + char.utf8Size) rest := rfl

def charAt (flat : Text) (byte : Nat) : Nat := ((offsetsFrom 0 flat).takeWhile (fun offset => offset < byte)).length

def byteAt (flat : Text) (index : Nat) : Nat := ((offsetsFrom 0 flat)[index]?).getD (reach Char.utf8Size flat)

def space (flat : Text) (index : Nat) : Bool := ((flat[index]?).map Lines.isWhitespace).getD false

def wordStart (flat : Text) : Nat -> Nat
  | 0 => 0
  | start + 1 => if space flat start then start + 1 else wordStart flat start

def trimEnd (flat : Text) (start : Nat) : Nat -> Nat
  | 0 => 0
  | stop + 1 => if start < stop + 1 && space flat stop then trimEnd flat start stop else stop + 1

/-- A third of the room before the match, then onto a word's start: forward when that does not pass the match, else back. -/
def cutStart (limit : Nat) (flat : Text) (hitStart hitEnd : Nat) : Nat :=
  let room := limit - (hitEnd - hitStart)
  let start := hitStart - room / 3
  let start := if flat.length < start + limit then min (flat.length - limit) hitStart else start
  let start :=
    if 0 < start && !space flat (start - 1) then
      ((List.range' start (hitStart - start)).find? (space flat)).getD (wordStart flat start)
    else start
  start + ((flat.drop start).takeWhile Lines.isWhitespace).length

/-- A window on, then onto a word's end: back when that does not cut into the match, else forward. -/
def cutEnd (limit : Nat) (flat : Text) (start hitEnd : Nat) : Nat :=
  let stop := min (max (start + limit) hitEnd) flat.length
  let stop :=
    if stop < flat.length && !space flat stop then
      ((List.range' (max hitEnd start) (stop - max hitEnd start)).reverse.find? (space flat)).getD
        (stop + ((flat.drop stop).takeWhile (fun char => !Lines.isWhitespace char)).length)
    else stop
  trimEnd flat start stop

/-- The passage of a text around the first place where terms match, of about so many characters. -/
def cutWithin (unicode : Unicode) (limit : Nat) (text : Text) (terms : List Text) (firstLine : FirstLine) : Option Passage :=
  if (find unicode text terms).isEmpty then none
  else
    let flat := collapseWhitespace (region unicode text terms firstLine)
    if flat.isEmpty then none
    else
      let (hitStart, hitEnd) := match (find unicode flat terms).head? with
        | some range => (charAt flat range.start, charAt flat range.stop)
        | none => (0, 0)
      let start := cutStart limit flat hitStart hitEnd
      let stop := cutEnd limit flat start hitEnd
      let passage := slice Char.utf8Size (byteAt flat start) (byteAt flat stop) flat
      some
        { text := passage
          ranges := find unicode passage terms
          elidedStart := 0 < start
          elidedEnd := stop < flat.length }

/-! ### Characters and bytes -/

theorem offsetsFrom_append (offset : Nat) (front back : Text) :
    offsetsFrom offset (front ++ back) = offsetsFrom offset front ++ offsetsFrom (offset + reach Char.utf8Size front) back := by
  induction front generalizing offset with
  | nil => simp
  | cons char front ih =>
    rw [List.cons_append, offsetsFrom_cons, ih, offsetsFrom_cons, Slices.reach_cons, Nat.add_assoc, List.cons_append]

theorem length_offsetsFrom (offset : Nat) (text : Text) : (offsetsFrom offset text).length = text.length := by
  induction text generalizing offset with
  | nil => rfl
  | cons char text ih => rw [offsetsFrom_cons, List.length_cons, ih, List.length_cons]

theorem offsetsFrom_below (offset : Nat) (text : Text) :
    ∀ place ∈ offsetsFrom offset text, place < offset + reach Char.utf8Size text := by
  induction text generalizing offset with
  | nil => simp
  | cons char text ih =>
    intro place inside
    have further := utf8Size_pos char
    rw [Slices.reach_cons]
    rcases List.mem_cons.mp inside with rfl | inside
    next => omega
    next =>
      have less := ih _ place inside
      omega

theorem charAt_reach (front back : Text) : charAt (front ++ back) (reach Char.utf8Size front) = front.length := by
  have below := offsetsFrom_below 0 front
  rw [Nat.zero_add] at below
  unfold charAt
  rw [offsetsFrom_append, List.takeWhile_append_of_pos (fun place inside => decide_eq_true (below place inside)), Nat.zero_add]
  cases back with
  | nil => simp [length_offsetsFrom]
  | cons char back => simp [length_offsetsFrom]

theorem byteAt_length (front back : Text) : byteAt (front ++ back) front.length = reach Char.utf8Size front := by
  unfold byteAt
  rw [offsetsFrom_append, List.getElem?_append_right (by rw [length_offsetsFrom]), length_offsetsFrom, Nat.sub_self, Nat.zero_add]
  cases back with
  | nil => simp
  | cons char back => simp

/-! ### Where the window starts and ends -/

theorem takeWhile_space (flat : Text) (keeps : Char -> Bool) (start index : Nat) (low : start ≤ index)
    (high : index < start + ((flat.drop start).takeWhile keeps).length) : (flat[index]?).map keeps = some true := by
  have inside : index - start < ((flat.drop start).takeWhile keeps).length := by omega
  have stands := List.getElem_mem inside
  have kept := List.mem_takeWhile_imp stands
  have same : (flat.drop start)[index - start]? = some (((flat.drop start).takeWhile keeps)[index - start]) := by
    have front := List.takeWhile_append_dropWhile (p := keeps) (l := flat.drop start)
    rw [← List.getElem?_eq_getElem inside]
    conv_lhs => rw [← front]
    exact List.getElem?_append_left inside
  rw [List.getElem?_drop, Nat.add_sub_cancel' low] at same
  rw [same, Option.map_some, kept]

theorem takeWhile_stops (flat : Text) (keeps : Char -> Bool) (start : Nat) (within : start ≤ flat.length) :
    start + ((flat.drop start).takeWhile keeps).length = flat.length ∨
      (flat[start + ((flat.drop start).takeWhile keeps).length]?).map keeps = some false := by
  have whole := List.takeWhile_append_dropWhile (p := keeps) (l := flat.drop start)
  cases rest : (flat.drop start).dropWhile keeps with
  | nil =>
    rw [rest, List.append_nil] at whole
    rw [whole, List.length_drop]
    omega
  | cons char others =>
    right
    have failed := List.head?_dropWhile_not keeps (flat.drop start)
    rw [rest] at failed whole
    have here := congrArg (fun items => items[((flat.drop start).takeWhile keeps).length]?) whole
    simp only [List.getElem?_append_right (Nat.le_refl _), Nat.sub_self, List.getElem?_cons_zero, List.getElem?_drop] at here
    rw [← here]
    simpa using failed

theorem wordStart_edge (flat : Text) (start : Nat) :
    wordStart flat start ≤ start ∧ (wordStart flat start = 0 ∨ space flat (wordStart flat start - 1) = true) := by
  induction start with
  | zero => exact ⟨Nat.le_refl _, .inl rfl⟩
  | succ start ih =>
    unfold wordStart
    split
    next blank => exact ⟨Nat.le_refl _, .inr blank⟩
    next => exact ⟨Nat.le_succ_of_le ih.1, ih.2⟩

theorem cutStart_edge (limit : Nat) (flat : Text) (hitStart hitEnd : Nat) (within : hitStart < flat.length)
    (solid : space flat hitStart = false) :
    cutStart limit flat hitStart hitEnd ≤ hitStart ∧
      (cutStart limit flat hitStart hitEnd = 0 ∨ space flat (cutStart limit flat hitStart hitEnd - 1) = true) := by
  unfold cutStart
  simp only
  generalize begun : (if flat.length < hitStart - (limit - (hitEnd - hitStart)) / 3 + limit then
    min (flat.length - limit) hitStart else hitStart - (limit - (hitEnd - hitStart)) / 3) = start
  have low : start ≤ hitStart := by
    rw [← begun]
    split <;> omega
  -- Skipping spaces does not pass the match, which starts with none.
  have skips : ∀ from_here, from_here ≤ hitStart →
      from_here + ((flat.drop from_here).takeWhile Lines.isWhitespace).length ≤ hitStart ∧
        (from_here = 0 ∨ space flat (from_here - 1) = true ∨ space flat from_here = true →
          from_here + ((flat.drop from_here).takeWhile Lines.isWhitespace).length = 0 ∨
            space flat (from_here + ((flat.drop from_here).takeWhile Lines.isWhitespace).length - 1) = true) := by
    intro from_here before
    have passed := takeWhile_space flat Lines.isWhitespace from_here
    generalize skipped : ((flat.drop from_here).takeWhile Lines.isWhitespace).length = count at passed ⊢
    refine ⟨?_, ?_⟩
    next =>
      by_contra beyond
      have blank := passed hitStart before (by omega)
      simp [space, blank] at solid
    next =>
      rcases Nat.eq_zero_or_pos count with none | more
      next =>
        subst none
        rintro (zero | edge | blank)
        next => exact .inl zero
        next => exact .inr edge
        next =>
          have stops := takeWhile_stops flat Lines.isWhitespace from_here (by omega)
          rw [skipped] at stops
          rcases stops with whole | failed
          next => omega
          next =>
            rw [Nat.add_zero] at failed
            simp [space, failed] at blank
      next =>
        intro _
        right
        have blank := passed (from_here + count - 1) (by omega) (by omega)
        simp [space, blank]
  split
  next inner =>
    rw [Bool.and_eq_true, decide_eq_true_eq, Bool.not_eq_true'] at inner
    cases forward : (List.range' start (hitStart - start)).find? (space flat) with
    | none =>
      obtain ⟨back, edge⟩ := wordStart_edge flat start
      rw [Option.getD_none]
      exact ⟨(skips _ (by omega)).1, (skips _ (by omega)).2 (edge.imp_right .inl)⟩
    | some gap =>
      have blank := List.find?_some forward
      have between := List.mem_range'_1.mp (List.mem_of_find?_eq_some forward)
      rw [Option.getD_some]
      exact ⟨(skips gap (by omega)).1, (skips gap (by omega)).2 (.inr (.inr blank))⟩
  next outer =>
    refine ⟨(skips start low).1, (skips start low).2 ?_⟩
    by_cases zero : start = 0
    case pos => exact .inl zero
    case neg =>
      right
      left
      by_contra inside
      exact outer (by simp [Nat.pos_of_ne_zero zero, Bool.eq_false_iff.mpr inside])

theorem trimEnd_edge (flat : Text) (start stop : Nat) (ordered : start ≤ stop) :
    start ≤ trimEnd flat start stop ∧ trimEnd flat start stop ≤ stop ∧
      (trimEnd flat start stop = stop ∨ space flat (trimEnd flat start stop) = true) ∧
      ∀ hitEnd, hitEnd ≤ stop → (hitEnd = 0 ∨ space flat (hitEnd - 1) = false) → hitEnd ≤ trimEnd flat start stop := by
  induction stop with
  | zero => exact ⟨ordered, Nat.le_refl _, .inl rfl, fun _ low _ => low⟩
  | succ stop ih =>
    unfold trimEnd
    split
    next blank =>
      rw [Bool.and_eq_true, decide_eq_true_eq] at blank
      obtain ⟨low, high, edge, kept⟩ := ih (by omega)
      refine ⟨low, by omega, ?_, ?_⟩
      next =>
        right
        rcases edge with same | edge
        next => rw [same]; exact blank.2
        next => exact edge
      next =>
        intro hitEnd before solid
        rcases Nat.eq_or_lt_of_le before with rfl | less
        next =>
          rcases solid with zero | solid
          next => omega
          next =>
            rw [Nat.add_sub_cancel, blank.2] at solid
            cases solid
        next => exact kept hitEnd (by omega) solid
    next => exact ⟨ordered, Nat.le_refl _, .inl rfl, fun _ low _ => low⟩

theorem cutEnd_edge (limit : Nat) (flat : Text) (start hitEnd : Nat) (begins : start ≤ flat.length) (ends : hitEnd ≤ flat.length)
    (solid : hitEnd = 0 ∨ space flat (hitEnd - 1) = false) :
    start ≤ cutEnd limit flat start hitEnd ∧ hitEnd ≤ cutEnd limit flat start hitEnd ∧
      cutEnd limit flat start hitEnd ≤ flat.length ∧
      (cutEnd limit flat start hitEnd = flat.length ∨ space flat (cutEnd limit flat start hitEnd) = true) := by
  unfold cutEnd
  simp only
  generalize window : min (max (start + limit) hitEnd) flat.length = far
  have far_bounds : start ≤ far ∧ hitEnd ≤ far ∧ far ≤ flat.length := by omega
  -- Where the window is moved to is a word's end.
  have trimmed : ∀ stop, start ≤ stop → hitEnd ≤ stop → stop ≤ flat.length →
      (stop = flat.length ∨ space flat stop = true) →
      start ≤ trimEnd flat start stop ∧ hitEnd ≤ trimEnd flat start stop ∧ trimEnd flat start stop ≤ flat.length ∧
        (trimEnd flat start stop = flat.length ∨ space flat (trimEnd flat start stop) = true) := by
    intro stop low over_hit high edge
    obtain ⟨first, second, third, fourth⟩ := trimEnd_edge flat start stop low
    refine ⟨first, fourth hitEnd over_hit solid, by omega, ?_⟩
    rcases third with same | blank
    next => rwa [same]
    next => exact .inr blank
  split
  next inner =>
    rw [Bool.and_eq_true, decide_eq_true_eq, Bool.not_eq_true'] at inner
    cases back : (List.range' (max hitEnd start) (far - max hitEnd start)).reverse.find? (space flat) with
    | none =>
      rw [Option.getD_none]
      have stops := takeWhile_stops flat (fun char => !Lines.isWhitespace char) far far_bounds.2.2
      have short : ((flat.drop far).takeWhile (fun char => !Lines.isWhitespace char)).length ≤ flat.length - far := by
        have sublist := (List.takeWhile_sublist (l := flat.drop far) (fun char => !Lines.isWhitespace char)).length_le
        rwa [List.length_drop] at sublist
      refine trimmed _ (by omega) (by omega) (by omega) (stops.imp_right ?_)
      intro failed
      cases here : flat[far + ((flat.drop far).takeWhile (fun char => !Lines.isWhitespace char)).length]? with
      | none => simp [here] at failed
      | some char => simpa [here, space] using failed
    | some gap =>
      have blank := List.find?_some back
      have between := List.mem_range'_1.mp (List.mem_reverse.mp (List.mem_of_find?_eq_some back))
      rw [Option.getD_some]
      exact trimmed gap (by omega) (by omega) (by omega) (.inr blank)
  next outer =>
    refine trimmed far far_bounds.1 far_bounds.2.1 far_bounds.2.2 ?_
    by_contra neither
    rw [not_or] at neither
    exact outer (by simp [Nat.lt_of_le_of_ne far_bounds.2.2 neither.1, Bool.eq_false_iff.mpr neither.2])

/-! ### What the window holds -/

theorem find_solid (unicode : Unicode) (text : Text) (terms : List Text) (range : Range Nat)
    (inside : range ∈ find unicode text terms) :
    ∃ front middle back, text = front ++ (middle ++ back) ∧ reach Char.utf8Size front = range.start ∧
      range.start + reach Char.utf8Size middle = range.stop ∧ middle ≠ [] ∧
      (∀ char ∈ middle.head?, unicode.alphanumeric char = true) ∧ ∀ char ∈ middle.getLast?, unicode.alphanumeric char = true := by
  obtain ⟨begins, ends, ordered⟩ := find_ordered unicode text terms range inside
  obtain ⟨front, middle, back, whole, reached, wide, -⟩ :=
    Slices.slice_between Char.utf8Size utf8Size_pos text range.start range.stop begins ends (Nat.le_of_lt ordered)
  have filled : middle ≠ [] := by
    rintro rfl
    rw [Slices.reach_nil] at wide
    omega
  have merges := find_merges unicode text terms
  refine ⟨front, middle, back, whole, reached, wide, filled, ?_, ?_⟩
  next =>
    obtain ⟨one, among, starts, -⟩ := merges.begins range inside
    obtain ⟨term, -, -, before, here, after, occurs⟩ := (mem_found unicode _ terms one).mp among
    obtain ⟨first, member, -, -, begun, -, -⟩ := occurs.tokens
    obtain ⟨outer, word, rest, placed⟩ := tokenize_placed unicode text first member
    obtain ⟨-, same⟩ := Slices.front_unique Char.utf8Size utf8Size_pos front _ outer _ (whole.symm.trans placed.whole)
      (by rw [reached, placed.starts, begun, starts])
    intro char head
    obtain ⟨others, rfl⟩ := List.head?_eq_some_iff.mp head
    obtain ⟨letter, letters, rfl⟩ := List.exists_cons_of_ne_nil placed.filled
    rw [List.cons_append, List.cons_append, List.cons.injEq] at same
    exact placed.alphanumeric char (by simp [same.1])
  next =>
    obtain ⟨one, among, stops, -⟩ := merges.ends range inside
    obtain ⟨term, -, -, before, here, after, occurs⟩ := (mem_found unicode _ terms one).mp among
    obtain ⟨-, -, last, member, -, ended, -⟩ := occurs.tokens
    obtain ⟨outer, word, rest, placed⟩ := tokenize_placed unicode text last member
    obtain ⟨same, -⟩ := Slices.front_unique Char.utf8Size utf8Size_pos (front ++ middle) back (outer ++ word) rest
      (by rw [List.append_assoc, ← whole, List.append_assoc]; exact placed.whole)
      (by rw [Slices.reach_append, Slices.reach_append, reached, wide, placed.starts, placed.stops, ended, stops])
    intro char final
    have one := congrArg List.getLast? same
    rw [List.getLast?_append_of_ne_nil _ filled, List.getLast?_append_of_ne_nil _ placed.filled, final] at one
    exact placed.alphanumeric char (List.mem_of_getLast? one.symm)

/-- A text of words with single spaces between them. -/
structure Flat (flat : Text) (pieces : List Text) : Prop where
  joined : flat = Separated.join ' ' pieces
  filled : ∀ piece ∈ pieces, piece ≠ []
  solid : ∀ piece ∈ pieces, ∀ char ∈ piece, Lines.isWhitespace char = false

theorem flat_collapse (text : Text) : Flat (collapseWhitespace text) (Lines.splitWhitespace text) :=
  ⟨collapseWhitespace_eq text, fun piece inside => (Lines.splitWhitespace_words text piece inside).1,
    fun piece inside => (Lines.splitWhitespace_words text piece inside).2⟩

theorem Flat.blank (flat : Text) (pieces : List Text) (shape : Flat flat pieces) (char : Char) (inside : char ∈ flat)
    (blank : Lines.isWhitespace char = true) : char = ' ' := by
  rw [shape.joined] at inside
  rcases Separated.mem_join ' ' pieces char inside with same | ⟨piece, among, within⟩
  next => exact same
  next =>
    rw [shape.solid piece among char within] at blank
    cases blank

theorem Flat.space (flat : Text) (pieces : List Text) (shape : Flat flat pieces) (index : Nat)
    (blank : space flat index = true) : flat[index]? = some ' ' := by
  unfold Search.space at blank
  cases here : flat[index]? with
  | none => simp [here] at blank
  | some char =>
    rw [here, Option.map_some, Option.getD_some] at blank
    rw [shape.blank flat pieces char (List.mem_of_getElem? here) blank]

theorem Flat.head (flat : Text) (pieces : List Text) (shape : Flat flat pieces) : Search.space flat 0 = false := by
  rw [shape.joined]
  cases pieces with
  | nil => rfl
  | cons piece pieces =>
    obtain ⟨char, word, rfl⟩ := List.exists_cons_of_ne_nil (shape.filled piece List.mem_cons_self)
    have solid := shape.solid (char :: word) List.mem_cons_self char List.mem_cons_self
    cases pieces with
    | nil => simp [Search.space, solid]
    | cons other pieces =>
      rw [Separated.join_cons _ _ _ (by simp)]
      simp [Search.space, solid]

theorem Flat.split (flat : Text) (pieces : List Text) (shape : Flat flat pieces) (some_text : flat ≠ []) :
    flat.splitOn ' ' = pieces := by
  have some_piece : pieces ≠ [] := by
    rintro rfl
    exact some_text shape.joined
  rw [shape.joined]
  refine Separated.split_join ' ' pieces some_piece fun piece among inside => ?_
  have solid := shape.solid piece among ' ' inside
  cases solid

theorem space_solid (unicode : Unicode) (apart : unicode.WordsApart) (flat : Text) (index : Nat) (char : Char)
    (here : flat[index]? = some char) (word : unicode.alphanumeric char = true) : space flat index = false := by
  cases blank : space flat index with
  | false => rfl
  | true =>
    rw [space, here, Option.map_some, Option.getD_some] at blank
    rw [apart char blank] at word
    cases word

/-- A stretch of a collapsed text around its first match, from one word's start to another's end. -/
structure Windowed (flat : Text) (first : Option (Range Nat)) (start stop : Nat) : Prop where
  ordered : start ≤ stop
  within : stop ≤ flat.length
  opens : start = 0 ∨ flat[start - 1]? = some ' '
  closes : stop = flat.length ∨ flat[stop]? = some ' '
  holds : ∀ range ∈ first, reach Char.utf8Size (flat.take start) ≤ range.start ∧
    range.stop ≤ reach Char.utf8Size (flat.take stop)

theorem reach_take_mono (text : Text) (first second : Nat) (less : first ≤ second) :
    reach Char.utf8Size (text.take first) ≤ reach Char.utf8Size (text.take second) := by
  obtain ⟨more, rfl⟩ := Nat.exists_eq_add_of_le less
  rw [List.take_add, Slices.reach_append]
  exact Nat.le_add_right _ _

theorem cut_windowed (unicode : Unicode) (apart : unicode.WordsApart) (limit : Nat) (flat : Text) (pieces : List Text)
    (shape : Flat flat pieces) (some_text : flat ≠ []) (terms : List Text) :
    let hit := match (find unicode flat terms).head? with
      | some range => (charAt flat range.start, charAt flat range.stop)
      | none => (0, 0)
    Windowed flat (find unicode flat terms).head? (cutStart limit flat hit.1 hit.2)
      (cutEnd limit flat (cutStart limit flat hit.1 hit.2) hit.2) := by
  simp only
  have length := List.length_pos_of_ne_nil some_text
  -- Where the match stands, in characters.
  have hit : ∃ hitStart hitEnd, (match (find unicode flat terms).head? with
      | some range => (charAt flat range.start, charAt flat range.stop)
      | none => (0, 0)) = (hitStart, hitEnd) ∧ hitStart < flat.length ∧ space flat hitStart = false ∧ hitEnd ≤ flat.length ∧
        (hitEnd = 0 ∨ space flat (hitEnd - 1) = false) ∧ ∀ range ∈ (find unicode flat terms).head?,
          range.start = reach Char.utf8Size (flat.take hitStart) ∧ range.stop = reach Char.utf8Size (flat.take hitEnd) := by
    cases first : (find unicode flat terms).head? with
    | none => exact ⟨0, 0, rfl, length, shape.head, Nat.zero_le _, .inl rfl, by simp⟩
    | some range =>
      obtain ⟨front, middle, back, whole, starts, stops, filled, heads, lasts⟩ :=
        find_solid unicode flat terms range (List.mem_of_head? first)
      have one : charAt flat range.start = front.length := by rw [← starts, whole, charAt_reach]
      have two : charAt flat range.stop = (front ++ middle).length := by
        rw [← stops, ← starts, ← Slices.reach_append, whole, ← List.append_assoc, charAt_reach]
      have more := List.length_pos_of_ne_nil filled
      refine ⟨front.length, (front ++ middle).length, by simp only [one, two], ?_, ?_, ?_, .inr ?_, ?_⟩
      next => simp only [whole, List.length_append]; omega
      next =>
        obtain ⟨char, others, rfl⟩ := List.exists_cons_of_ne_nil filled
        exact space_solid unicode apart flat front.length char (by simp [whole]) (heads char (by simp))
      next => simp only [whole, List.length_append]; omega
      next =>
        obtain ⟨others, char, rfl⟩ : ∃ others char, middle = others ++ [char] := by
          rcases List.eq_nil_or_concat middle with empty | ⟨others, char, same⟩
          next => exact absurd empty filled
          next => exact ⟨others, char, by rw [same, List.concat_eq_append]⟩
        refine space_solid unicode apart flat _ char ?_ (lasts char (by simp))
        rw [whole, ← List.append_assoc, ← List.append_assoc]
        rw [List.getElem?_append_left (by simp)]
        simp
      next =>
        rintro other same
        obtain rfl : range = other := by simpa using same
        refine ⟨by rw [whole, List.take_left, starts], ?_⟩
        rw [whole, ← List.append_assoc, List.take_left, Slices.reach_append, starts, stops]
  obtain ⟨hitStart, hitEnd, shown, inside, solid, ends, also, spot⟩ := hit
  rw [shown]
  obtain ⟨before, opens⟩ := cutStart_edge limit flat hitStart hitEnd inside solid
  obtain ⟨ordered, after, within, closes⟩ := cutEnd_edge limit flat (cutStart limit flat hitStart hitEnd) hitEnd
    (by omega) ends also
  refine ⟨ordered, within, opens.imp_right (shape.space flat pieces _), closes.imp_right (shape.space flat pieces _), ?_⟩
  intro range first
  obtain ⟨starts, stops⟩ := spot range first
  rw [starts, stops]
  exact ⟨reach_take_mono flat _ _ before, reach_take_mono flat _ _ after⟩

theorem afterLine_rest (line text : Text) : afterLine line text = [] ∨ ∃ front, text = front ++ '\n' :: afterLine line text := by
  induction text generalizing line with
  | nil => exact .inl rfl
  | cons char rest ih =>
    unfold afterLine
    split
    next feed =>
      subst feed
      split
      next => exact (ih []).imp_right fun ⟨front, whole⟩ => ⟨'\n' :: front, by rw [List.cons_append, ← whole]⟩
      next => exact .inr ⟨[], rfl⟩
    next => exact (ih _).imp_right fun ⟨front, whole⟩ => ⟨char :: front, by rw [List.cons_append, ← whole]⟩

theorem find_region (unicode : Unicode) (apart : unicode.WordsApart) (text : Text) (terms : List Text) (firstLine : FirstLine)
    (found : find unicode (region unicode text terms firstLine) terms ≠ []) : find unicode text terms ≠ [] := by
  have behind : find unicode (afterFirstLine text) terms ≠ [] → find unicode text terms ≠ [] := by
    intro found
    rw [find_ne_nil] at found ⊢
    obtain ⟨term, among, filled, infix_⟩ := found
    refine ⟨term, among, filled, infix_.trans ?_⟩
    rcases afterLine_rest [] text with empty | ⟨front, whole⟩
    next =>
      rw [afterFirstLine, empty, words_nil]
      exact List.nil_infix
    next =>
      have cut := words_cut unicode front (afterFirstLine text) '\n' (apart '\n' (by decide))
      rw [afterFirstLine, ← whole] at cut
      rw [cut]
      exact (List.suffix_append _ _).isInfix
  cases firstLine with
  | any => exact found
  | shown => exact behind found
  | avoided =>
    simp only [region] at found
    split at found
    next => exact found
    next => exact behind found

/-- A passage is a run of whole words of its region with the first match in it; what it elides, and what it marks. -/
structure Exact (unicode : Unicode) (area : Text) (terms : List Text) (passage : Passage) : Prop where
  run : ∃ front middle back before after, Lines.splitWhitespace area = front ++ (middle ++ back) ∧ middle ≠ [] ∧
    passage.text = Separated.join ' ' middle ∧ (passage.elidedStart = true <-> front ≠ []) ∧
    (passage.elidedEnd = true <-> back ≠ []) ∧ collapseWhitespace area = before ++ (passage.text ++ after) ∧
    ∀ first ∈ (find unicode (collapseWhitespace area) terms).head?, reach Char.utf8Size before ≤ first.start ∧
      first.stop ≤ reach Char.utf8Size before + reach Char.utf8Size passage.text
  bounded : ∀ range ∈ passage.ranges, Boundary Char.utf8Size passage.text range.start ∧
    Boundary Char.utf8Size passage.text range.stop ∧ range.start < range.stop
  selects : ∀ range ∈ passage.ranges, ∀ place, range.start ≤ place → place < range.stop →
    ∃ one : Range Nat, range.start ≤ one.start ∧ one.start ≤ place ∧ place < one.stop ∧ one.stop ≤ range.stop ∧
      ∃ term ∈ terms, words unicode term ≠ [] ∧
        words unicode (slice Char.utf8Size one.start one.stop passage.text) = words unicode term
  marks : find unicode area terms ≠ [] → passage.ranges ≠ []

theorem find_selects (unicode : Unicode) (text : Text) (terms : List Text) (range : Range Nat)
    (inside : range ∈ find unicode text terms) (place : Nat) (low : range.start ≤ place) (high : place < range.stop) :
    ∃ one : Range Nat, range.start ≤ one.start ∧ one.start ≤ place ∧ place < one.stop ∧ one.stop ≤ range.stop ∧
      ∃ term ∈ terms, words unicode term ≠ [] ∧ words unicode (slice Char.utf8Size one.start one.stop text) = words unicode term := by
  obtain ⟨one, among, starts, after, before, stops⟩ := (find_merges unicode text terms).inside _ _ range inside place low high
  obtain ⟨term, member, filled, earlier, here, later, occurs⟩ := (mem_found unicode _ terms one).mp among
  exact ⟨one, starts, after, before, stops, term, member, filled, occurs.words⟩

theorem find_part (unicode : Unicode) (front part back : Text) (terms : List Text) (range : Range Nat)
    (opens : ∀ char ∈ front.getLast?, unicode.alphanumeric char = false)
    (closes : ∀ char ∈ back.head?, unicode.alphanumeric char = false)
    (inside : range ∈ find unicode (front ++ (part ++ back)) terms) (low : reach Char.utf8Size front ≤ range.start)
    (high : range.stop ≤ reach Char.utf8Size front + reach Char.utf8Size part) : find unicode part terms ≠ [] := by
  obtain ⟨one, among, starts, stops⟩ := (find_merges unicode _ terms).begins range inside
  obtain ⟨term, member, filled, before, here, after, occurs⟩ := (mem_found unicode _ terms one).mp among
  have between := (occurs.between _ _ one before here after (tokenize_apart unicode _)
    (fun token inside => (tokenize_within unicode _ token inside).1)).2.1
  have parted := tokenize_part unicode front part back opens closes
  rw [occurs.whole, List.filter_append, List.filter_append] at parted
  have kept : here.filter (fun token =>
      Between (reach Char.utf8Size front) (reach Char.utf8Size front + reach Char.utf8Size part) token) = here := by
    rw [List.filter_eq_self]
    intro token within
    obtain ⟨first, second⟩ := between token within
    rw [decide_eq_true_eq]
    exact ⟨by omega, by omega⟩
  rw [kept] at parted
  have read := congrArg (List.map Prod.snd) parted
  rw [List.map_append, List.map_append, occurs.same, List.map_map] at read
  rw [find_ne_nil]
  exact ⟨term, member, filled, _, _, (List.append_assoc _ _ _).trans read⟩

theorem asciiTables_apart : asciiTables.WordsApart := by
  intro char blank
  by_contra word
  have between : 48 ≤ char.toNat ∧ char.toNat < 123 := by
    simp only [asciiTables, Char.isAlphanum, Bool.not_eq_false, Bool.or_eq_true] at word
    rcases word with letter | digit
    next =>
      have bounds := Lines.letter_bounds char letter
      omega
    next =>
      have bounds : 48 ≤ char.toNat ∧ char.toNat ≤ 57 := Char.isDigit_iff_toNat.mp digit
      omega
  simp only [Lines.isWhitespace, List.contains_cons, List.contains_nil, Bool.or_eq_true, Bool.and_eq_true, decide_eq_true_eq,
    beq_iff_eq, Bool.false_eq_true, or_false] at blank
  omega

end Postio.Search

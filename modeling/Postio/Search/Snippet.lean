import Postio.Search.Highlight

set_option autoImplicit false

namespace Postio.Search

open Slices (reach slice Boundary)

/-! The excerpt a result row shows, with its matches marked in the text itself. -/

/-- What has been read of a snippet, and where a match has begun. -/
structure Reading where
  text : Text
  spots : List (Range Nat)
  opened : Option Nat

variable (unicode : Unicode) (flat text : Text) (terms : List Text) (reading : Reading)

def Reading.read (char : Char) : Reading :=
  if char = matchStart then { reading with opened := some (reach Char.utf8Size reading.text) }
  else if char = matchEnd then
    match reading.opened with
    | none => reading
    | some start =>
      let stop := reach Char.utf8Size reading.text
      { reading with opened := none, spots := if start < stop then reading.spots ++ [{ start, stop }] else reading.spots }
  else { reading with text := reading.text ++ [char] }

def fromSnippet (snippet : Text) : Highlighted :=
  let reading := snippet.foldl Reading.read { text := [], spots := [], opened := none }
  { text := reading.text, spots := reading.spots }

structure Collapsing where
  out : Text
  inSpace : Bool

def Collapsing.push (state : Collapsing) (char : Char) : Collapsing :=
  if Lines.isWhitespace char then { state with inSpace := !state.out.isEmpty }
  else { out := (if state.inSpace then state.out ++ [' '] else state.out) ++ [char], inSpace := false }

def collapseWhitespace : Text := (text.foldl Collapsing.push { out := [], inSpace := false }).out

def snippetTokens : Nat := 12

/-- The part of a text an excerpt shows, and whether it is cut on either side. -/
structure Window where
  leading : Bool
  start : Nat
  stop : Nat
  trailing : Bool

def windowTokens (tokens : List (Range Nat × Text)) (found : List (Range Nat)) : Nat × Nat :=
  match found.head?.bind (fun range => tokens.findIdx? (fun token => range.start ≤ token.1.start)) with
  | some index => (index - snippetTokens / 2, min (index + snippetTokens / 2 + 1) tokens.length)
  | none => (0, min snippetTokens tokens.length)

def window : Window :=
  let tokens := tokenize unicode flat
  let (fromToken, toToken) := windowTokens tokens (find unicode flat terms)
  -- The ends of the text itself are not cut at a token.
  { leading := 0 < fromToken
    start := if fromToken = 0 then 0 else ((tokens[fromToken]?).map (fun token => token.1.start)).getD 0
    stop := if toToken = tokens.length then reach Char.utf8Size flat
      else ((tokens[toToken - 1]?).map (fun token => token.1.stop)).getD 0
    trailing := toToken < tokens.length }

/-- The text up to the window's end with the ranges in it marked. -/
def marked (window : Window) (flat : Text) : Nat -> List (Range Nat) -> Text
  | cursor, [] => slice Char.utf8Size cursor window.stop flat
  | cursor, range :: rest =>
    if range.stop ≤ window.start then marked window flat cursor rest
    else if window.stop ≤ range.start then slice Char.utf8Size cursor window.stop flat
    else
      let start := max range.start window.start
      let stop := min range.stop window.stop
      slice Char.utf8Size cursor start flat ++ [matchStart] ++ slice Char.utf8Size start stop flat ++ [matchEnd] ++
        marked window flat stop rest

def snippet : Text :=
  let flat := collapseWhitespace text
  if (tokenize unicode flat).isEmpty then []
  else
    let window := window unicode flat terms
    (if window.leading then ellipsis else []) ++ marked window flat window.start (find unicode flat terms) ++
      (if window.trailing then ellipsis else [])

/-- What a window shows: its text between the ellipses, and the matches in it. -/
def Window.shows (window : Window) (flat : Text) (found : List (Range Nat)) : Highlighted :=
  let lead := if window.leading then ellipsis else []
  let place := fun offset => reach Char.utf8Size lead + (offset - window.start)
  { text := lead ++ slice Char.utf8Size window.start window.stop flat ++ (if window.trailing then ellipsis else [])
    spots := (found.filter (fun range => window.start < range.stop && range.start < window.stop)).map (fun range =>
      { start := place (max range.start window.start), stop := place (min range.stop window.stop) }) }

def shown : Highlighted :=
  let flat := collapseWhitespace text
  if (tokenize unicode flat).isEmpty then { text := [], spots := [] }
  else (window unicode flat terms).shows flat (find unicode flat terms)

def excerpt : Text :=
  let flat := collapseWhitespace text
  if (tokenize unicode flat).isEmpty then []
  else slice Char.utf8Size (window unicode flat terms).start (window unicode flat terms).stop flat

def Plain (char : Char) : Prop := char ≠ matchStart ∧ char ≠ matchEnd

instance (char : Char) : Decidable (Plain char) := inferInstanceAs (Decidable (_ ∧ _))

theorem read_plain (piece : Text) (plain : ∀ char ∈ piece, Plain char) :
    piece.foldl Reading.read reading = { reading with text := reading.text ++ piece } := by
  induction piece generalizing reading with
  | nil => simp
  | cons char piece ih =>
    obtain ⟨first, rest⟩ := List.forall_mem_cons.mp plain
    rw [List.foldl_cons, ih _ rest]
    unfold Reading.read
    rw [if_neg first.1, if_neg first.2]
    simp

theorem read_marked (piece : Text) (plain : ∀ char ∈ piece, Plain char) (filled : piece ≠ []) :
    ([matchStart] ++ piece ++ [matchEnd]).foldl Reading.read reading =
      { text := reading.text ++ piece
        opened := none
        spots := reading.spots ++
          [{ start := reach Char.utf8Size reading.text, stop := reach Char.utf8Size reading.text + reach Char.utf8Size piece }] } := by
  have begun : [matchStart].foldl Reading.read reading = { reading with opened := some (reach Char.utf8Size reading.text) } := by
    simp [Reading.read]
  have further := reach_pos piece filled
  rw [List.foldl_append, List.foldl_append, begun, read_plain _ piece plain]
  have other : matchEnd ≠ matchStart := by decide
  simp only [List.foldl_cons, List.foldl_nil, Reading.read, if_neg other, if_true]
  rw [Slices.reach_append, if_pos (by omega)]

theorem read_text (snippet : Text) :
    (snippet.foldl Reading.read reading).text = reading.text ++ snippet.filter (fun char => Plain char) := by
  induction snippet generalizing reading with
  | nil => simp
  | cons char snippet ih =>
    rw [List.foldl_cons, ih]
    unfold Reading.read
    by_cases first : char = matchStart
    case pos => simp [first, Plain]
    by_cases second : char = matchEnd
    case pos =>
      rw [if_neg first, if_pos second, List.filter_cons_of_neg (by simp [Plain, second])]
      cases reading.opened <;> rfl
    case neg => simp [first, second, Plain]

theorem fromSnippet_plain (snippet : Text) : ∀ char ∈ (fromSnippet snippet).text, Plain char := by
  intro char inside
  unfold fromSnippet at inside
  simp only [read_text, List.nil_append] at inside
  simpa using (List.mem_filter.mp inside).2

/-- Ranges that stand apart, each between two boundaries. -/
structure Laid (flat : Text) (ranges : List (Range Nat)) : Prop where
  bounded : ∀ range ∈ ranges,
    Boundary Char.utf8Size flat range.start ∧ Boundary Char.utf8Size flat range.stop ∧ range.start < range.stop
  apart : ranges.Pairwise (fun first second => first.stop < second.start)

theorem Laid.tail (range : Range Nat) (ranges : List (Range Nat)) (laid : Laid flat (range :: ranges)) :
    Laid flat ranges :=
  ⟨fun other inside => laid.bounded other (List.mem_cons_of_mem _ inside), laid.apart.of_cons⟩

theorem boundary_max (one other : Nat) (first : Boundary Char.utf8Size flat one)
    (second : Boundary Char.utf8Size flat other) : Boundary Char.utf8Size flat (max one other) := by
  rcases Nat.le_total one other with less | more
  next => rwa [Nat.max_eq_right less]
  next => rwa [Nat.max_eq_left more]

theorem boundary_min (one other : Nat) (first : Boundary Char.utf8Size flat one)
    (second : Boundary Char.utf8Size flat other) : Boundary Char.utf8Size flat (min one other) := by
  rcases Nat.le_total one other with less | more
  next => rwa [Nat.min_eq_left less]
  next => rwa [Nat.min_eq_right more]

theorem marked_read (window : Window) (flat : Text) (lead : Nat) (starts : Boundary Char.utf8Size flat window.start)
    (stops : Boundary Char.utf8Size flat window.stop) (wide : window.start < window.stop) (ranges : List (Range Nat))
    (laid : Laid flat ranges) (cursor : Nat) (at_cursor : Boundary Char.utf8Size flat cursor) (low : window.start ≤ cursor)
    (high : cursor ≤ window.stop) (ahead : ∀ range ∈ ranges, cursor ≤ max range.start window.start)
    (plain : ∀ char ∈ slice Char.utf8Size cursor window.stop flat, Plain char) (reading : Reading)
    (closed : reading.opened = none) (reached : reach Char.utf8Size reading.text = lead + (cursor - window.start)) :
    (marked window flat cursor ranges).foldl Reading.read reading =
      { text := reading.text ++ slice Char.utf8Size cursor window.stop flat
        opened := none
        spots := reading.spots ++ (ranges.filter (fun range => window.start < range.stop && range.start < window.stop)).map
          (fun range => { start := lead + (max range.start window.start - window.start)
                          stop := lead + (min range.stop window.stop - window.start) }) } := by
  induction ranges generalizing cursor reading with
  | nil =>
    rw [marked, read_plain reading _ plain, closed]
    simp
  | cons range ranges ih =>
    obtain ⟨begins, ends, filled⟩ := laid.bounded range List.mem_cons_self
    have later := fun other inside => @List.rel_of_pairwise_cons _ _ _ _ laid.apart other inside
    obtain ⟨here, behind⟩ := List.forall_mem_cons.mp ahead
    rw [marked]
    split
    next before =>
      rw [ih laid.tail cursor at_cursor low high behind plain reading closed reached,
        List.filter_cons_of_neg (by simp; omega)]
    next reaches =>
      split
      next past =>
        have nothing : (range :: ranges).filter (fun range => window.start < range.stop && range.start < window.stop) = [] := by
          rw [List.filter_eq_nil_iff]
          intro other inside
          rcases List.mem_cons.mp inside with rfl | inside
          next => simp; omega
          next =>
            have further := later other inside
            simp
            omega
        rw [nothing, read_plain reading _ plain, closed]
        simp
      next within =>
        simp only
        generalize first : max range.start window.start = start
        generalize last : min range.stop window.stop = stop
        have one : Boundary Char.utf8Size flat start := first ▸ boundary_max flat _ _ begins starts
        have two : Boundary Char.utf8Size flat stop := last ▸ boundary_min flat _ _ ends stops
        have order : cursor ≤ start ∧ start < stop ∧ stop ≤ window.stop ∧ window.start ≤ start := by omega
        obtain ⟨reachable, wider, inner, over_start⟩ := order
        have cut := Slices.slice_append Char.utf8Size utf8Size_pos flat cursor start window.stop at_cursor one stops
          reachable (by omega)
        have further_cut := Slices.slice_append Char.utf8Size utf8Size_pos flat start stop window.stop one two stops
          (by omega) inner
        rw [← cut, ← further_cut] at plain ⊢
        have gap := Slices.reach_slice Char.utf8Size utf8Size_pos flat cursor start at_cursor one reachable
        have size := Slices.reach_slice Char.utf8Size utf8Size_pos flat start stop one two (by omega)
        have word : slice Char.utf8Size start stop flat ≠ [] := by
          intro empty
          rw [empty, Slices.reach_nil] at size
          omega
        rw [List.append_assoc, List.append_assoc, List.append_assoc, List.foldl_append,
          read_plain reading _ (fun char inside => plain char (by simp [inside])), ← List.append_assoc,
          ← List.append_assoc, List.foldl_append, read_marked _ _ (fun char inside => plain char (by simp [inside])) word]
        rw [ih laid.tail stop two (by omega) inner
          (fun other inside => by have := later other inside; omega)
          (fun char inside => plain char (by simp [inside])) _ rfl
          (by simp only [Slices.reach_append]; omega), List.filter_cons_of_pos (by simp; omega)]
        simp only [Slices.reach_append, List.map_cons, first, last, List.append_assoc, List.singleton_append,
          Reading.mk.injEq, true_and, and_true, List.append_cancel_left_eq, List.cons.injEq, Range.mk.injEq]
        omega

theorem tokens_span (first last : Nat) (ordered : first ≤ last) (within : last < (tokenize unicode text).length) :
    ∃ one two, (tokenize unicode text)[first]? = some one ∧ (tokenize unicode text)[last]? = some two ∧
      Boundary Char.utf8Size text one.1.start ∧ Boundary Char.utf8Size text two.1.stop ∧ one.1.start < two.1.stop ∧
      two.1.stop ≤ reach Char.utf8Size text := by
  refine ⟨_, _, List.getElem?_eq_getElem (by omega), List.getElem?_eq_getElem within, ?_⟩
  obtain ⟨front, word, back, begins⟩ := tokenize_placed unicode text _ (List.getElem_mem (by omega : first < (tokenize unicode text).length))
  obtain ⟨front', word', back', ends⟩ := tokenize_placed unicode text _ (List.getElem_mem within)
  refine ⟨begins.boundaries.1, ends.boundaries.2, ?_, ?_⟩
  next =>
    rcases Nat.eq_or_lt_of_le ordered with rfl | less
    next => exact begins.ordered
    next =>
      have apart := List.pairwise_iff_getElem.mp (tokenize_apart unicode text) first last (by omega) within less
      have wide := begins.ordered
      have also := ends.ordered
      omega
  next =>
    have starts := ends.starts
    have stops := ends.stops
    have reached := congrArg (reach Char.utf8Size) ends.whole
    rw [Slices.reach_append, Slices.reach_append] at reached
    omega

theorem windowTokens_ordered (tokens : List (Range Nat × Text)) (ranges : List (Range Nat)) (some_token : tokens ≠ []) :
    (windowTokens tokens ranges).1 < (windowTokens tokens ranges).2 ∧ (windowTokens tokens ranges).2 ≤ tokens.length := by
  have length := List.length_pos_of_ne_nil some_token
  unfold windowTokens
  split
  next index found =>
    obtain ⟨range, -, position⟩ := Option.bind_eq_some_iff.mp found
    have within := (List.findIdx?_eq_some_iff_findIdx_eq.mp position).1
    simp only [snippetTokens]
    omega
  next =>
    simp only [snippetTokens]
    omega

theorem window_ordered (some_token : tokenize unicode flat ≠ []) :
    Boundary Char.utf8Size flat (window unicode flat terms).start ∧ Boundary Char.utf8Size flat (window unicode flat terms).stop ∧
      (window unicode flat terms).start < (window unicode flat terms).stop := by
  obtain ⟨less, within⟩ := windowTokens_ordered (tokenize unicode flat) (find unicode flat terms) some_token
  unfold window
  simp only
  generalize windowTokens (tokenize unicode flat) (find unicode flat terms) = tokens at less within ⊢
  obtain ⟨fromToken, toToken⟩ := tokens
  simp only at less within ⊢
  obtain ⟨one, two, first, last, begins, ends, ordered, fits⟩ := tokens_span unicode flat fromToken (toToken - 1) (by omega) (by omega)
  rw [first, last, Option.map_some, Option.map_some, Option.getD_some, Option.getD_some]
  refine ⟨?_, ?_, ?_⟩
  next =>
    split
    next => exact Slices.boundary_zero _ _
    next => exact begins
  next =>
    split
    next => exact Slices.boundary_reach _ _
    next => exact ends
  next => split <;> split <;> omega

theorem plain_ellipsis : ∀ char ∈ ellipsis, Plain char := by
  have alone : ellipsis = ['…'] := rfl
  rw [alone]
  intro char inside
  obtain rfl := List.mem_singleton.mp inside
  exact ⟨by decide, by decide⟩

theorem fromSnippet_snippet (plain : ∀ char ∈ (shown unicode text terms).text, Plain char) :
    fromSnippet (snippet unicode text terms) = shown unicode text terms := by
  unfold snippet shown at *
  simp only at plain ⊢
  generalize collapseWhitespace text = flat at plain ⊢
  split
  next => rfl
  next some_token =>
    rw [if_neg some_token] at plain
    have filled : tokenize unicode flat ≠ [] := by simpa using some_token
    obtain ⟨starts, stops, wide⟩ := window_ordered unicode flat terms filled
    have laid : Laid flat (find unicode flat terms) := ⟨find_ordered unicode flat terms, (find_merges unicode flat terms).apart⟩
    have lead_plain : ∀ char ∈ (if (window unicode flat terms).leading then ellipsis else []), Plain char := by
      split
      next => exact plain_ellipsis
      next => simp
    have trail_plain : ∀ char ∈ (if (window unicode flat terms).trailing then ellipsis else []), Plain char := by
      split
      next => exact plain_ellipsis
      next => simp
    unfold Window.shows at plain ⊢
    simp only at plain ⊢
    generalize (if (window unicode flat terms).leading then ellipsis else []) = lead at *
    generalize (if (window unicode flat terms).trailing then ellipsis else []) = trail at *
    have read := marked_read (window unicode flat terms) flat (reach Char.utf8Size lead) starts stops wide _ laid
      (window unicode flat terms).start starts (Nat.le_refl _) (Nat.le_of_lt wide) (fun range _ => Nat.le_max_right _ _)
      (fun char inside => plain char (by simp [inside])) { text := lead, spots := [], opened := none } rfl (by simp)
    unfold fromSnippet
    rw [List.foldl_append, List.foldl_append, read_plain _ lead lead_plain, List.nil_append, read,
      read_plain _ trail trail_plain, List.nil_append]

theorem shown_plain :
    (∀ char ∈ (shown unicode text terms).text, Plain char) <-> ∀ char ∈ excerpt unicode text terms, Plain char := by
  have edges : ∀ cut : Bool, ∀ char ∈ (if cut then ellipsis else []), Plain char := by
    intro cut
    cases cut
    next => simp
    next => exact plain_ellipsis
  unfold shown excerpt
  simp only
  split
  next => exact Iff.rfl
  next =>
    simp only [Window.shows, List.mem_append]
    constructor
    next => exact fun plain char inside => plain char (.inl (.inr inside))
    next =>
      rintro plain char ((inside | inside) | inside)
      next => exact edges _ char inside
      next => exact plain char inside
      next => exact edges _ char inside

/-- A snippet is read back as its window with the matches in it just when no marker stands in that part of the text. -/
theorem fromSnippet_exact :
    fromSnippet (snippet unicode text terms) = shown unicode text terms <->
      ∀ char ∈ excerpt unicode text terms, char ≠ matchStart ∧ char ≠ matchEnd := by
  refine Iff.trans ?_ (shown_plain unicode text terms)
  constructor
  next =>
    intro same
    rw [← same]
    exact fromSnippet_plain _
  next => exact fromSnippet_snippet unicode text terms

/-- A message that marks one of its own words is believed. -/
theorem forged_mark :
    fromSnippet (snippet asciiTables "pay \x01now\x02 please".toList ["please".toList]) =
      { text := "pay now please".toList, spots := [{ start := 4, stop := 7 }, { start := 8, stop := 14 }] } ∧
    shown asciiTables "pay \x01now\x02 please".toList ["please".toList] =
      { text := "pay \x01now\x02 please".toList, spots := [{ start := 10, stop := 16 }] } ∧
    ¬ ∀ (unicode : Unicode) (text : Text) (terms : List Text),
      fromSnippet (snippet unicode text terms) = shown unicode text terms := by
  have read : fromSnippet (snippet asciiTables "pay \x01now\x02 please".toList ["please".toList]) =
      { text := "pay now please".toList, spots := [{ start := 4, stop := 7 }, { start := 8, stop := 14 }] } := by
    decide +kernel
  have stands : shown asciiTables "pay \x01now\x02 please".toList ["please".toList] =
      { text := "pay \x01now\x02 please".toList, spots := [{ start := 10, stop := 16 }] } := by
    decide +kernel
  refine ⟨read, stands, fun always => ?_⟩
  have same := read.symm.trans ((always asciiTables _ _).trans stands)
  have lengths := congrArg (fun highlighted => highlighted.spots.length) same
  exact absurd lengths (by simp)

end Postio.Search

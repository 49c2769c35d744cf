import Postio.Lib.Lines
import Postio.Lib.Separated

set_option autoImplicit false

namespace Postio.Flowed

/-! `format=flowed` text: one line of prose on several lines, and back. -/

abbrev Text := List Char

structure Filling where
  lines : List Text
  current : Text

/-- One turn of the loop over the words. -/
def Filling.add (budget : Nat) (filling : Filling) (word : Text) : Filling :=
  let candidate := if filling.current.isEmpty then word.length else filling.current.length + 1 + word.length
  let filling := if !filling.current.isEmpty && decide (budget < candidate) then
      { lines := filling.lines ++ [filling.current], current := [] }
    else filling
  { filling with current := (if filling.current.isEmpty then filling.current else filling.current ++ [' ']) ++ word }

def startsWith (front text : Text) : Bool := front.isPrefixOf text

def stuff (line : Text) : Text :=
  if startsWith [' '] line || startsWith ['>'] line || startsWith "From ".toList line then ' ' :: line else line

def rendered (marks : Text) : List Text -> Text
  | [] => []
  | [line] => marks ++ stuff line
  | line :: rest => marks ++ (stuff line ++ ' ' :: '\n' :: rendered marks rest)

def budgetOf (marks : Text) (width : Nat) : Nat := max (width - marks.length - 1) 1

def filled (budget : Nat) (text : Text) : List Text :=
  let filling := (text.splitOn ' ').foldl (Filling.add budget) { lines := [], current := [] }
  filling.lines ++ [filling.current]

def wrap (text marks : Text) (width : Nat) : Text := rendered marks (filled (budgetOf marks width) text)

def unwrapLine (marks line : Text) : Text :=
  let content := (Lines.stripFront marks line).getD line
  (Lines.stripFront [' '] content).getD content

def unwrap (flowed marks : Text) : Text := ((flowed.splitOn '\n').map (unwrapLine marks)).flatten

def quotePrefix (depth : Nat) : Text := if depth = 0 then [] else List.replicate depth '>' ++ [' ']

/-! ### What wrapping is for -/

def Prose (text : Text) : Prop := '\n' ∉ text ∧ ∀ before after, text ≠ before ++ ' ' :: ' ' :: after

def depthOf (line : Text) : Nat := (line.takeWhile (fun char => char = '>')).length

def words (content : Text) : List Text := (content.splitOn ' ').filter (fun word => word ≠ [])

def Exact (text : Text) (depth width : Nat) : Prop :=
  unwrap (wrap text (quotePrefix depth) width) (quotePrefix depth) = text ∧
    ∀ line ∈ (wrap text (quotePrefix depth) width).splitOn '\n', depthOf line = depth ∧
      (1 < (words (line.drop (quotePrefix depth).length)).length -> line.length ≤ width)

/-- The words of a text on lines, each as full as it may be. -/
def layoutFrom (budget : Nat) : List Text -> List Text -> List (List Text)
  | line, [] => [line]
  | line, word :: rest =>
    if (Separated.join ' ' (line ++ [word])).length ≤ budget then layoutFrom budget (line ++ [word]) rest
    else line :: layoutFrom budget [word] rest

def layout (budget : Nat) : List Text -> List (List Text)
  | [] => []
  | word :: rest => layoutFrom budget [word] rest

def crowded (budget : Nat) (line : List Text) : Bool :=
  decide (1 < line.length) && (Separated.join ' ' line).length = budget &&
    (startsWith ['>'] (Separated.join ' ' line) || startsWith "From ".toList (Separated.join ' ' line))

def roomy (text : Text) (depth width : Nat) : Bool :=
  !startsWith [' '] text &&
    (layout (budgetOf (quotePrefix depth) width) (text.splitOn ' ')).dropLast.all
      (fun line => !crowded (budgetOf (quotePrefix depth) width) line)

/-! ### The lines -/

variable (budget : Nat)

theorem join_ne_nil (first : Text) (rest : List Text) (some_first : first ≠ []) : Separated.join ' ' (first :: rest) ≠ [] := by
  cases rest with
  | nil => simpa using some_first
  | cons second rest =>
    rw [Separated.join_cons ' ' first _ (by simp)]
    simp

variable (text : Text) (depth : Nat) (line : List Text) (width : Nat)

theorem join_last (word : Text) (some_line : line ≠ []) :
    Separated.join ' ' (line ++ [word]) = Separated.join ' ' line ++ ' ' :: word := by
  rw [Separated.join_append ' ' line [word] some_line (by simp), Separated.join_singleton]

theorem add_layout (lines : List Text) (line rest : List Text) (some_line : line ≠ [])
    (open_line : Separated.join ' ' line ≠ [] ∨ rest = []) (inner : ∀ word ∈ rest.dropLast, word ≠ []) :
    (rest.foldl (Filling.add budget) { lines := lines, current := Separated.join ' ' line }).lines ++
      [(rest.foldl (Filling.add budget) { lines := lines, current := Separated.join ' ' line }).current] =
      lines ++ (layoutFrom budget line rest).map (Separated.join ' ') := by
  induction rest generalizing lines line with
  | nil => simp [layoutFrom]
  | cons word rest ih =>
    have filled : Separated.join ' ' line ≠ [] := open_line.resolve_right (by simp)
    have length : (Separated.join ' ' (line ++ [word])).length = (Separated.join ' ' line).length + 1 + word.length := by
      rw [join_last line word some_line]
      simp
      omega
    have later : ∀ other ∈ rest.dropLast, other ≠ [] := by
      intro other inside
      apply inner other
      cases rest with
      | nil => cases inside
      | cons second others => exact List.mem_cons_of_mem _ inside
    rw [List.foldl_cons, layoutFrom, length]
    by_cases room : (Separated.join ' ' line).length + 1 + word.length ≤ budget
    case pos =>
      have kept : Filling.add budget { lines := lines, current := Separated.join ' ' line } word =
          { lines := lines, current := Separated.join ' ' (line ++ [word]) } := by
        unfold Filling.add
        simp [filled, Nat.not_lt.mpr room, join_last line word some_line]
      rw [if_pos room, kept]
      apply ih _ _ (by simp) _ later
      left
      rw [join_last line word some_line]
      simp
    case neg =>
      have pushed : Filling.add budget { lines := lines, current := Separated.join ' ' line } word =
          { lines := lines ++ [Separated.join ' ' line], current := Separated.join ' ' [word] } := by
        unfold Filling.add
        simp [filled, Nat.lt_of_not_le room]
      have fresh : Separated.join ' ' [word] ≠ [] ∨ rest = [] := by
        cases rest with
        | nil => exact .inr rfl
        | cons second others =>
          left
          simpa using inner word (by simp)
      rw [if_neg room, pushed, ih _ _ (by simp) fresh later]
      simp

theorem layoutFrom_flatten (rest : List Text) : (layoutFrom budget line rest).flatten = line ++ rest := by
  induction rest generalizing line with
  | nil => simp [layoutFrom]
  | cons word rest ih =>
    rw [layoutFrom]
    split
    next => rw [ih]; simp
    next => rw [List.flatten_cons, ih]; simp

theorem layoutFrom_fits (rest : List Text) (some_line : line ≠ [])
    (room : 1 < line.length -> (Separated.join ' ' line).length ≤ budget) :
    ∀ laid ∈ layoutFrom budget line rest, laid ≠ [] ∧ (1 < laid.length -> (Separated.join ' ' laid).length ≤ budget) := by
  induction rest generalizing line with
  | nil =>
    intro laid inside
    obtain rfl := List.mem_singleton.mp inside
    exact ⟨some_line, room⟩
  | cons word rest ih =>
    rw [layoutFrom]
    split
    next fits => exact ih (line ++ [word]) (by simp) (fun _ => fits)
    next =>
      intro laid inside
      rcases List.mem_cons.mp inside with rfl | later
      next => exact ⟨some_line, room⟩
      next => exact ih [word] (by simp) (fun several => by simp at several) laid later

theorem layout_fits (list : List Text) :
    ∀ laid ∈ layout budget list, laid ≠ [] ∧ (1 < laid.length -> (Separated.join ' ' laid).length ≤ budget) := by
  cases list with
  | nil => simp [layout]
  | cons word rest => exact layoutFrom_fits budget [word] rest (by simp) (fun several => by simp at several)

theorem layout_flatten (list : List Text) : (layout budget list).flatten = list := by
  cases list with
  | nil => rfl
  | cons word rest => exact layoutFrom_flatten budget [word] rest

/-! ### The words of a text -/

theorem words_filled (prose : Prose text) (solid : startsWith [' '] text = false) :
    ∀ word ∈ (text.splitOn ' ').dropLast, word ≠ [] := by
  intro word inside empty
  subst empty
  have split := Separated.join_split ' ' text
  obtain ⟨front, last, parts⟩ : ∃ front last, text.splitOn ' ' = front ++ [last] := by
    rcases List.eq_nil_or_concat (text.splitOn ' ') with none | ⟨front, last, parts⟩
    next => exact absurd none (List.splitOn_ne_nil ' ' text)
    next => exact ⟨front, last, by rw [parts, List.concat_eq_append]⟩
  rw [parts, List.dropLast_concat] at inside
  obtain ⟨before, after, rfl⟩ := List.append_of_mem inside
  have more : after ++ [last] ≠ [] := by simp
  have ahead : Separated.join ' ' ([] :: (after ++ [last])) = ' ' :: Separated.join ' ' (after ++ [last]) :=
    Separated.join_cons ' ' [] _ more
  rw [parts, List.append_assoc, List.cons_append] at split
  cases before with
  | nil =>
    rw [List.nil_append, ahead] at split
    rw [← split] at solid
    simp [startsWith] at solid
  | cons first before =>
    rw [Separated.join_append ' ' (first :: before) _ (by simp) (by simp), ahead] at split
    exact prose.2 _ _ split.symm

theorem filled_layout (prose : Prose text) (solid : startsWith [' '] text = false) :
    filled budget text = (layout budget (text.splitOn ' ')).map (Separated.join ' ') := by
  have inner := words_filled text prose solid
  unfold filled
  cases parts : text.splitOn ' ' with
  | nil => exact absurd parts (List.splitOn_ne_nil ' ' text)
  | cons word rest =>
    rw [parts] at inner
    have first : Filling.add budget { lines := [], current := [] } word = { lines := [], current := Separated.join ' ' [word] } := by
      simp [Filling.add]
    have open_line : Separated.join ' ' [word] ≠ [] ∨ rest = [] := by
      cases rest with
      | nil => exact .inr rfl
      | cons second others =>
        left
        simpa using inner word (by simp)
    have later : ∀ other ∈ rest.dropLast, other ≠ [] := by
      intro other inside
      apply inner other
      cases rest with
      | nil => cases inside
      | cons second others => exact List.mem_cons_of_mem _ inside
    simp only [List.foldl_cons, first]
    rw [add_layout budget [] [word] rest (by simp) open_line later, List.nil_append]
    rfl

theorem filled_space : filled budget (' ' :: text) = filled budget text := by
  have parts : (' ' :: text).splitOn ' ' = [] :: text.splitOn ' ' := by
    rw [List.splitOn_cons_eq_if_modifyHead, if_pos (by simp)]
  have kept : Filling.add budget { lines := [], current := [] } [] = { lines := [], current := [] } := by simp [Filling.add]
  unfold filled
  rw [parts, List.foldl_cons, kept]

/-! ### The lines that are written -/

theorem split_flat (line rest : Text) (flat : '\n' ∉ line) : (line ++ '\n' :: rest).splitOn '\n' = line :: rest.splitOn '\n' := by
  have alone : line.splitOn '\n' = [line] := by
    have read := Separated.split_join '\n' [line] (by simp) (by simpa using flat)
    simpa using read
  rw [List.splitOn_append_cons_self, alone, List.singleton_append]

theorem stuff_flat (line : Text) (flat : '\n' ∉ line) : '\n' ∉ stuff line := by
  unfold stuff
  split
  next => simpa using flat
  next => exact flat

theorem rendered_lines (marks : Text) (front : List Text) (last : Text) (plain : '\n' ∉ marks) (flat : ∀ line ∈ front, '\n' ∉ line)
    (also : '\n' ∉ last) : (rendered marks (front ++ [last])).splitOn '\n' =
      front.map (fun line => marks ++ (stuff line ++ [' '])) ++ [marks ++ stuff last] := by
  induction front with
  | nil =>
    have read := Separated.split_join '\n' [marks ++ stuff last] (by simp) (by simpa using ⟨plain, stuff_flat last also⟩)
    simpa [rendered] using read
  | cons line front ih =>
    have here := flat line List.mem_cons_self
    have further := ih (fun other inside => flat other (List.mem_cons_of_mem _ inside))
    have text : rendered marks ((line :: front) ++ [last]) =
        (marks ++ (stuff line ++ [' '])) ++ '\n' :: rendered marks (front ++ [last]) := by
      cases front with
      | nil => simp [rendered]
      | cons second front => simp [rendered]
    rw [text, split_flat _ _ (by simpa using ⟨plain, stuff_flat line here⟩), further]
    rfl

theorem strip_stuff (line tail : Text) (filled : line ≠ [] ∨ tail = []) :
    (Lines.stripFront [' '] (stuff line ++ tail)).getD (stuff line ++ tail) = line ++ tail := by
  unfold stuff
  split
  next =>
    rw [List.cons_append, show ' ' :: (line ++ tail) = [' '] ++ (line ++ tail) by rfl, Lines.stripFront_append]
    rfl
  next plain =>
    have none : Lines.stripFront [' '] (line ++ tail) = none := by
      unfold Lines.stripFront
      rw [if_neg]
      intro opens
      cases line with
      | nil =>
        rw [filled.resolve_left (by simp)] at opens
        simp at opens
      | cons char line =>
        apply plain
        have space : ' ' = char := by simpa [List.isPrefixOf] using opens
        simp only [startsWith, List.isPrefixOf, space, beq_self_eq_true, Bool.true_and, Bool.true_or]
    rw [none]
    rfl

theorem unwrap_rendered (marks : Text) (front : List Text) (last : Text) (plain : '\n' ∉ marks) (flat : ∀ line ∈ front, '\n' ∉ line)
    (also : '\n' ∉ last) (filled : ∀ line ∈ front, line ≠ []) :
    unwrap (rendered marks (front ++ [last])) marks = Separated.join ' ' (front ++ [last]) := by
  have read : ∀ line tail, line ≠ [] ∨ tail = [] -> unwrapLine marks (marks ++ (stuff line ++ tail)) = line ++ tail := by
    intro line tail open_line
    unfold unwrapLine
    rw [Lines.stripFront_append]
    exact strip_stuff line tail open_line
  unfold unwrap
  rw [rendered_lines marks front last plain flat also, List.map_append, List.map_map, List.flatten_append]
  have ending := read last [] (.inr rfl)
  rw [List.append_nil, List.append_nil] at ending
  simp only [List.map_cons, List.map_nil, ending]
  have each : front.map (unwrapLine marks ∘ fun line => marks ++ (stuff line ++ [' '])) = front.map (· ++ [' ']) := by
    apply List.map_congr_left
    intro line inside
    exact read line [' '] (.inl (filled line inside))
  rw [each]
  clear each ending flat filled
  induction front with
  | nil => simp
  | cons line front ih =>
    rw [List.map_cons, List.flatten_cons, List.append_assoc, ih, List.cons_append, Separated.join_cons ' ' line _ (by simp)]
    simp

/-! ### What a line shows -/

theorem stuff_head (line tail : Text) (marked : ∀ char ∈ tail.head?, char ≠ '>') :
    ∀ char ∈ (stuff line ++ tail).head?, char ≠ '>' := by
  unfold stuff
  split
  next => simp
  next plain =>
    cases line with
    | nil => simpa using marked
    | cons first line =>
      intro char head
      obtain rfl : first = char := by simpa using head
      rintro rfl
      simp [startsWith, List.isPrefixOf] at plain

theorem depthOf_written (content : Text) (plain : ∀ char ∈ content.head?, char ≠ '>') :
    depthOf (quotePrefix depth ++ content) = depth := by
  unfold depthOf quotePrefix
  split
  next unquoted =>
    cases content with
    | nil => simp [unquoted]
    | cons char content =>
      have other : char ≠ '>' := plain char rfl
      simp [unquoted, other]
  next =>
    rw [List.append_assoc, List.takeWhile_append_of_pos (by simp)]
    simp

theorem words_space (content : Text) : words (' ' :: content) = words content := by
  unfold words
  rw [List.splitOn_cons_eq_if_modifyHead, if_pos (by simp)]
  simp

theorem words_trailing (content : Text) : words (content ++ [' ']) = words content := by
  unfold words
  rw [List.splitOn_append_cons_self]
  simp

theorem words_join (apart : ∀ word ∈ line, ' ' ∉ word) :
    words (Separated.join ' ' line) = line.filter (fun word => word ≠ []) := by
  cases line with
  | nil => simp [words]
  | cons word rest =>
    unfold words
    rw [Separated.split_join ' ' (word :: rest) (by simp) apart]

theorem words_stuff (line : Text) : words (stuff line) = words line := by
  unfold stuff
  split
  next => exact words_space line
  next => rfl

theorem several_length (several : 1 < (line.filter (fun word => word ≠ [])).length) :
    1 < line.length ∧ 2 ≤ (Separated.join ' ' line).length := by
  have within : (line.filter (fun word => word ≠ [])).length ≤ line.length := List.length_filter_le _ _
  refine ⟨by omega, ?_⟩
  cases line with
  | nil => simp at several
  | cons first rest =>
    cases rest with
    | nil =>
      rw [List.length_singleton] at within
      omega
    | cons second rest =>
      -- Two words and one character between them are more than one character.
      by_contra short
      rw [Separated.join_cons ' ' first _ (by simp)] at short
      simp only [List.length_append, List.length_cons] at short
      have empty : first = [] := List.eq_nil_of_length_eq_zero (by omega)
      have none : Separated.join ' ' (second :: rest) = [] := List.eq_nil_of_length_eq_zero (by omega)
      cases rest with
      | nil =>
        rw [Separated.join_singleton] at none
        simp [empty, none] at several
      | cons third rest =>
        rw [Separated.join_cons ' ' second _ (by simp)] at none
        simp at none

/-! ### The law -/

theorem quotePrefix_flat : '\n' ∉ quotePrefix depth := by
  unfold quotePrefix
  split
  next => simp
  next => simp

theorem budget_width (large : 2 ≤ budgetOf (quotePrefix depth) width) :
    width = (quotePrefix depth).length + 1 + budgetOf (quotePrefix depth) width := by
  unfold budgetOf at large ⊢
  omega

theorem stuff_length (line : Text) (solid : startsWith [' '] line = false) : (stuff line).length =
    line.length + if startsWith ['>'] line || startsWith "From ".toList line then 1 else 0 := by
  unfold stuff
  rw [solid, Bool.false_or]
  split <;> rfl

/-- Prose on its lines: what each of them holds, and that it is all there. -/
structure Laid (budget : Nat) (text : Text) (front : List (List Text)) (last : List Text) : Prop where
  laid : layout budget (text.splitOn ' ') = front ++ [last]
  lines : filled budget text = front.map (Separated.join ' ') ++ [Separated.join ' ' last]
  whole : Separated.join ' ' (front.map (Separated.join ' ') ++ [Separated.join ' ' last]) = text
  full : ∀ line ∈ front, line ≠ [] ∧ ∀ word ∈ line, word ≠ []
  apart : ∀ line ∈ front ++ [last], ∀ word ∈ line, ' ' ∉ word ∧ '\n' ∉ word
  fits : ∀ line ∈ front ++ [last], 1 < line.length -> (Separated.join ' ' line).length ≤ budget

theorem join_flatten (lines : List (List Text)) (some_word : ∀ line ∈ lines, line ≠ []) :
    Separated.join ' ' (lines.map (Separated.join ' ')) = Separated.join ' ' lines.flatten := by
  induction lines with
  | nil => rfl
  | cons line rest ih =>
    have further := ih (fun other inside => some_word other (List.mem_cons_of_mem _ inside))
    cases rest with
    | nil => simp
    | cons second others =>
      have here := some_word line List.mem_cons_self
      have more : (second :: others).flatten ≠ [] := by
        have next := some_word second (by simp)
        rw [List.flatten_cons]
        exact fun none => next (List.append_eq_nil_iff.mp none).1
      have split : (line :: second :: others).flatten = line ++ (second :: others).flatten := List.flatten_cons
      rw [List.map_cons, Separated.join_cons ' ' _ _ (by simp), further, split, Separated.join_append ' ' line _ here more]

theorem laid_out (prose : Prose text) (solid : startsWith [' '] text = false) : ∃ front last, Laid budget text front last := by
  have parts := layout_fits budget (text.splitOn ' ')
  have all_words := layout_flatten budget (text.splitOn ' ')
  have lines := filled_layout budget text prose solid
  obtain ⟨front, last, laid⟩ : ∃ front last, layout budget (text.splitOn ' ') = front ++ [last] := by
    rcases List.eq_nil_or_concat (layout budget (text.splitOn ' ')) with none | ⟨front, last, laid⟩
    next =>
      rw [none] at all_words
      exact absurd all_words.symm (List.splitOn_ne_nil ' ' text)
    next => exact ⟨front, last, by rw [laid, List.concat_eq_append]⟩
  rw [laid] at parts all_words lines
  rw [List.map_append, List.map_singleton] at lines
  have text_words := Separated.join_split ' ' text
  refine ⟨front, last, laid, lines, ?_, ?_, ?_, fun line inside => (parts line inside).2⟩
  next =>
    rw [← List.map_singleton, ← List.map_append, join_flatten _ (fun line inside => (parts line inside).1), all_words, text_words]
  next =>
    intro line inside
    refine ⟨(parts line (List.mem_append_left _ inside)).1, ?_⟩
    intro word among
    apply words_filled text prose solid
    -- The last line holds the last word, so the words of the others come before it.
    have some_last := (parts last (by simp)).1
    rw [← all_words, List.flatten_append, List.flatten_singleton, List.dropLast_append_of_ne_nil some_last]
    exact List.mem_append_left _ (List.mem_flatten.mpr ⟨line, inside, among⟩)
  next =>
    intro line inside word among
    have in_text : word ∈ text.splitOn ' ' := by
      rw [← all_words]
      exact List.mem_flatten.mpr ⟨line, inside, among⟩
    refine ⟨Separated.split_apart ' ' text word in_text, ?_⟩
    intro feed
    apply prose.1
    rw [← text_words]
    exact Separated.mem_join_of_mem ' ' _ word '\n' in_text feed

theorem join_flat (apart : ∀ word ∈ line, ' ' ∉ word ∧ '\n' ∉ word) : '\n' ∉ Separated.join ' ' line := by
  intro inside
  rcases Separated.mem_join ' ' line '\n' inside with space | ⟨word, among, deeper⟩
  next => exact absurd space (by decide)
  next => exact (apart word among).2 deeper

theorem unwrap_laid (front : List (List Text)) (last : List Text)
    (laid : Laid (budgetOf (quotePrefix depth) width) text front last) :
    unwrap (wrap text (quotePrefix depth) width) (quotePrefix depth) = text := by
  unfold wrap
  rw [laid.lines, unwrap_rendered _ _ _ (quotePrefix_flat depth)]
  next => exact laid.whole
  next =>
    intro line inside
    obtain ⟨parts, among, rfl⟩ := List.mem_map.mp inside
    exact join_flat parts (laid.apart parts (List.mem_append_left _ among))
  next => exact join_flat last (laid.apart last (by simp))
  next =>
    intro line inside
    obtain ⟨parts, among, rfl⟩ := List.mem_map.mp inside
    obtain ⟨some_word, words_there⟩ := laid.full parts among
    obtain ⟨first, rest, rfl⟩ := List.exists_cons_of_ne_nil some_word
    exact join_ne_nil first rest (words_there first List.mem_cons_self)

theorem lines_laid (front : List (List Text)) (last : List Text)
    (laid : Laid (budgetOf (quotePrefix depth) width) text front last) :
    (wrap text (quotePrefix depth) width).splitOn '\n' =
      (front.map (Separated.join ' ')).map (fun line => quotePrefix depth ++ (stuff line ++ [' '])) ++
        [quotePrefix depth ++ stuff (Separated.join ' ' last)] := by
  unfold wrap
  rw [laid.lines, rendered_lines _ _ _ (quotePrefix_flat depth)]
  next =>
    intro line inside
    obtain ⟨parts, among, rfl⟩ := List.mem_map.mp inside
    exact join_flat parts (laid.apart parts (List.mem_append_left _ among))
  next => exact join_flat last (laid.apart last (by simp))

theorem written_line (tail : Text) (ending : tail = [] ∨ tail = [' '])
    (apart : ∀ word ∈ line, ' ' ∉ word) :
    depthOf (quotePrefix depth ++ (stuff (Separated.join ' ' line) ++ tail)) = depth ∧
      words ((quotePrefix depth ++ (stuff (Separated.join ' ' line) ++ tail)).drop (quotePrefix depth).length) =
        line.filter (fun word => word ≠ []) := by
  refine ⟨?_, ?_⟩
  next =>
    apply depthOf_written
    apply stuff_head
    rcases ending with rfl | rfl <;> simp
  next =>
    rw [List.drop_left]
    rcases ending with rfl | rfl
    next => rw [List.append_nil, words_stuff, words_join line apart]
    next => rw [words_trailing, words_stuff, words_join line apart]

theorem fits_iff (line : List Text) (full : ∀ word ∈ line, word ≠ []) (apart : ∀ word ∈ line, ' ' ∉ word)
    (fits : 1 < line.length -> (Separated.join ' ' line).length ≤ budgetOf (quotePrefix depth) width) :
    (1 < (line.filter (fun word => word ≠ [])).length ->
      (quotePrefix depth ++ (stuff (Separated.join ' ' line) ++ [' '])).length ≤ width) <->
      crowded (budgetOf (quotePrefix depth) width) line = false := by
  have kept : line.filter (fun word => word ≠ []) = line := by simpa using full
  rw [kept]
  by_cases several : 1 < line.length
  case neg =>
    constructor
    next =>
      intro _
      simp [crowded, several]
    next => exact fun _ more => absurd more several
  case pos =>
    have long := (several_length line (by rwa [kept])).2
    have within := fits several
    have total := budget_width depth width (by omega)
    have solid : startsWith [' '] (Separated.join ' ' line) = false := by
      obtain ⟨first, rest, rfl⟩ := List.exists_cons_of_ne_nil (List.ne_nil_of_length_pos (by omega : 0 < line.length))
      obtain ⟨char, more, rfl⟩ := List.exists_cons_of_ne_nil (full first List.mem_cons_self)
      have other : ' ' ≠ char := fun same => apart _ List.mem_cons_self (same ▸ List.mem_cons_self)
      cases rest with
      | nil => simp at several
      | cons second rest =>
        rw [Separated.join_cons ' ' _ _ (by simp)]
        simp [startsWith, List.isPrefixOf, other]
    have length := stuff_length (Separated.join ' ' line) solid
    simp only [List.length_append, List.length_singleton, length]
    unfold crowded
    by_cases marks : (startsWith ['>'] (Separated.join ' ' line) || startsWith "From ".toList (Separated.join ' ' line)) = true
    case pos =>
      rw [marks]
      simp only [several, if_true, decide_true, Bool.true_and, Bool.and_true, decide_eq_false_iff_not, forall_const]
      omega
    case neg =>
      rw [Bool.not_eq_true] at marks
      rw [marks]
      simp only [several, Bool.and_false, Bool.false_eq_true, if_false, forall_const]
      constructor
      next => exact fun _ => trivial
      next => exact fun _ => by omega

/-- Wrapping is exact where no space opens the text and no line but the last is crowded. -/
theorem exact_iff (prose : Prose text) : Exact text depth width <-> roomy text depth width = true := by
  by_cases solid : startsWith [' '] text = true
  case pos =>
    -- The space is lost, and what is left comes back without it.
    obtain ⟨rest, rfl⟩ : ∃ rest, text = ' ' :: rest := by
      cases text with
      | nil => simp [startsWith] at solid
      | cons char rest =>
        obtain rfl : ' ' = char := by simpa [startsWith, List.isPrefixOf] using solid
        exact ⟨rest, rfl⟩
    constructor
    next =>
      intro exact_text
      exfalso
      have rest_prose : Prose rest := by
        refine ⟨fun inside => prose.1 (List.mem_cons_of_mem _ inside), ?_⟩
        intro before after whole
        exact prose.2 (' ' :: before) after (by rw [whole]; rfl)
      have rest_solid : startsWith [' '] rest = false := by
        rw [Bool.eq_false_iff]
        intro opens
        cases rest with
        | nil => simp [startsWith] at opens
        | cons char rest =>
          obtain rfl : ' ' = char := by simpa [startsWith, List.isPrefixOf] using opens
          exact prose.2 [] rest rfl
      obtain ⟨front, last, laid⟩ := laid_out (budgetOf (quotePrefix depth) width) rest rest_prose rest_solid
      have back := exact_text.1
      have same : wrap (' ' :: rest) (quotePrefix depth) width = wrap rest (quotePrefix depth) width := by
        unfold wrap
        rw [filled_space]
      rw [same, unwrap_laid rest depth width front last laid] at back
      exact absurd (congrArg List.length back) (by simp)
    next =>
      intro fits
      simp [roomy, solid] at fits
  case neg =>
    rw [Bool.not_eq_true] at solid
    obtain ⟨front, last, laid⟩ := laid_out (budgetOf (quotePrefix depth) width) text prose solid
    have lines := lines_laid text depth width front last laid
    unfold Exact roomy
    rw [lines, solid, laid.laid, List.dropLast_concat, Bool.not_false, Bool.true_and, List.all_eq_true]
    have apart : ∀ line ∈ front ++ [last], ∀ word ∈ line, ' ' ∉ word := fun line inside word among => (laid.apart line inside word among).1
    constructor
    next =>
      rintro ⟨_, each⟩ line inside
      have shown := written_line depth line [' '] (.inr rfl) (apart line (List.mem_append_left _ inside))
      have fits := (each _ (List.mem_append_left _ (List.mem_map_of_mem (List.mem_map_of_mem inside)))).2
      rw [shown.2] at fits
      rw [Bool.not_eq_true']
      exact (fits_iff depth width line (laid.full line inside).2 (apart line (List.mem_append_left _ inside))
        (laid.fits line (List.mem_append_left _ inside))).mp fits
    next =>
      intro room
      refine ⟨unwrap_laid text depth width front last laid, ?_⟩
      intro written inside
      rcases List.mem_append.mp inside with inside | inside
      next =>
        obtain ⟨joined, among, rfl⟩ := List.mem_map.mp inside
        obtain ⟨line, deeper, rfl⟩ := List.mem_map.mp among
        have shown := written_line depth line [' '] (.inr rfl) (apart line (List.mem_append_left _ deeper))
        refine ⟨shown.1, ?_⟩
        rw [shown.2]
        refine (fits_iff depth width line (laid.full line deeper).2 (apart line (List.mem_append_left _ deeper))
          (laid.fits line (List.mem_append_left _ deeper))).mpr ?_
        simpa using room line deeper
      next =>
        obtain rfl := List.mem_singleton.mp inside
        have shown := written_line depth last [] (.inl rfl) (apart last (by simp))
        rw [List.append_nil] at shown
        refine ⟨shown.1, ?_⟩
        rw [shown.2]
        intro several
        obtain ⟨more, long⟩ := several_length last several
        have within := laid.fits last (by simp) more
        have total := budget_width depth width (by omega)
        have stuffed : (stuff (Separated.join ' ' last)).length ≤ (Separated.join ' ' last).length + 1 := by
          unfold stuff
          split <;> simp
        rw [List.length_append]
        omega

theorem prose_iff : Prose text <-> '\n' ∉ text ∧ ¬ [' ', ' '].IsInfix text := by
  constructor
  next =>
    rintro ⟨flat, single⟩
    refine ⟨flat, ?_⟩
    rintro ⟨before, after, rfl⟩
    exact single before after (by simp)
  next =>
    rintro ⟨flat, single⟩
    refine ⟨flat, ?_⟩
    rintro before after rfl
    exact single ⟨before, after, by simp⟩

theorem exact_iff_quoted : Exact "> a reply".toList 2 72 :=
  (exact_iff "> a reply".toList 2 72 ((prose_iff _).mpr (by decide +kernel))).mpr (by decide +kernel)

/-- A space that opens a line is lost. -/
theorem opening_space_lost : Prose " hello".toList ∧ ¬ Exact " hello".toList 0 72 :=
  ⟨(prose_iff _).mpr (by decide +kernel), fun exact_text => absurd exact_text.1 (by decide +kernel)⟩

end Postio.Flowed

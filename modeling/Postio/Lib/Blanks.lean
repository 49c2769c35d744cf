import Mathlib.Data.List.Chain
import Postio.Lib.Lines

set_option autoImplicit false

namespace Postio.Blanks

/-! Text with its white space collapsed. -/

open Lines

variable (char : Char) (text : List Char)

/-- `split_whitespace().collect::<Vec<_>>().join(" ")`. -/
def collapse : List Char := List.intercalate [' '] (splitWhitespace text)

@[simp]
theorem collapse_nil : collapse [] = [] := by decide

theorem collapse_blank (blank : isWhitespace char = true) :
    collapse (char :: text) = collapse text := by
  unfold collapse splitWhitespace
  rw [List.splitOnP_cons_eq_if_modifyHead, if_pos blank]
  rfl

theorem collapse_last (solid : isWhitespace char = false) : collapse [char] = [char] := by
  unfold collapse splitWhitespace
  rw [List.splitOnP_cons_eq_if_modifyHead, if_neg (by simp [solid]), List.splitOnP_nil]
  rfl

theorem intercalate_nil_iff (words : List (List Char)) (filled : ∀ word ∈ words, word ≠ []) :
    List.intercalate [' '] words = [] <-> words = [] := by
  cases words with
  | nil => simp
  | cons word words =>
    have here := filled word List.mem_cons_self
    cases words with
    | nil => simpa using here
    | cons second words => simp [List.intercalate_cons_cons]

theorem splitWhitespace_filled : ∀ word ∈ splitWhitespace text, word ≠ [] :=
  fun word inside => (splitWhitespace_words text word inside).1

theorem collapse_word (next : Char) (text : List Char) (solid : isWhitespace char = false) (blank : isWhitespace next = true) :
    collapse (char :: next :: text) = char :: if collapse (next :: text) = [] then [] else ' ' :: collapse (next :: text) := by
  rw [collapse_blank next text blank]
  have split : splitWhitespace (char :: next :: text) = [char] :: splitWhitespace text := by
    unfold splitWhitespace
    rw [List.splitOnP_cons_eq_if_modifyHead, if_neg (by simp [solid]), List.splitOnP_cons_eq_if_modifyHead, if_pos blank]
    simp
  unfold collapse
  rw [split]
  simp only [intercalate_nil_iff _ (splitWhitespace_filled text)]
  cases words : splitWhitespace text with
  | nil => simp
  | cons word rest => simp [List.intercalate_cons_cons]

theorem collapse_within (next : Char) (text : List Char) (solid : isWhitespace char = false)
    (also : isWhitespace next = false) : collapse (char :: next :: text) = char :: collapse (next :: text) := by
  unfold collapse splitWhitespace
  rw [List.splitOnP_cons_eq_if_modifyHead, if_neg (by simp [solid]), List.splitOnP_cons_eq_if_modifyHead, if_neg (by simp [also])]
  cases parts : text.splitOnP isWhitespace with
  | nil => exact absurd parts (List.splitOnP_ne_nil _ _)
  | cons first rest =>
    rw [List.modifyHead_cons, List.modifyHead_cons]
    simp only [ne_eq, reduceCtorEq, not_false_eq_true, decide_true, List.filter_cons_of_pos]
    cases (rest.filter fun word => decide ¬ word = []) with
    | nil => simp
    | cons second others => simp [List.intercalate_cons_cons]

theorem collapse_blanks (blanks rest : List Char) (blank : ∀ char ∈ blanks, isWhitespace char = true) :
    collapse (blanks ++ rest) = collapse rest := by
  induction blanks with
  | nil => rfl
  | cons char blanks ih =>
    rw [List.cons_append, collapse_blank char _ (blank char List.mem_cons_self)]
    exact ih (fun other inside => blank other (List.mem_cons_of_mem _ inside))

theorem collapse_solid (front : List Char) (char : Char) (rest : List Char) (solid : ∀ other ∈ front, isWhitespace other = false)
    (also : isWhitespace char = false) : collapse (front ++ char :: rest) = front ++ collapse (char :: rest) := by
  induction front with
  | nil => rfl
  | cons first front ih =>
    have here := solid first List.mem_cons_self
    have further := ih (fun other inside => solid other (List.mem_cons_of_mem _ inside))
    cases front with
    | nil => exact collapse_within first char rest here also
    | cons second front =>
      have beside := solid second (List.mem_cons_of_mem _ List.mem_cons_self)
      rw [List.cons_append, List.cons_append, collapse_within first second _ here beside, ← List.cons_append, further]
      rfl

theorem collapse_append (rest : List Char) : ∃ gap, (∀ char ∈ gap, isWhitespace char = true) ∧
    collapse (text ++ rest) = collapse text ++ (gap ++ collapse rest) := by
  induction text with
  | nil => exact ⟨[], by simp, by simp⟩
  | cons char text ih =>
    obtain ⟨gap, blank, joined⟩ := ih
    by_cases solid : isWhitespace char = true
    case pos => exact ⟨gap, blank, by rw [List.cons_append, collapse_blank char _ solid, collapse_blank char _ solid, joined]⟩
    case neg =>
      rw [Bool.not_eq_true] at solid
      have space : ∀ char ∈ [' '], isWhitespace char = true := forall_of_all _ (by decide)
      cases text with
      | nil =>
        rw [List.singleton_append, collapse_last char solid]
        cases rest with
        | nil => exact ⟨[], by simp, by simp [collapse_last char solid]⟩
        | cons next rest =>
          by_cases between : isWhitespace next = true
          case pos =>
            rw [collapse_word char next rest solid between]
            split
            next none_left => exact ⟨[], by simp, by simp [none_left]⟩
            next => exact ⟨[' '], space, by simp⟩
          case neg =>
            rw [Bool.not_eq_true] at between
            exact ⟨[], by simp, by simp [collapse_within char next rest solid between]⟩
      | cons next text =>
        rw [List.cons_append] at joined
        by_cases between : isWhitespace next = true
        case pos =>
          rw [List.cons_append, List.cons_append, collapse_word char next _ solid between, collapse_word char next _ solid between, joined]
          by_cases empty : collapse (next :: text) = []
          case pos =>
            rw [empty, List.nil_append, if_pos rfl]
            split
            next none_left => exact ⟨[], by simp, by simp [(List.append_eq_nil_iff.mp none_left).2]⟩
            next =>
              refine ⟨' ' :: gap, ?_, by simp⟩
              intro other inside
              rcases List.mem_cons.mp inside with rfl | later
              next => decide
              next => exact blank other later
          case neg => exact ⟨gap, blank, by simp [empty]⟩
        case neg =>
          rw [Bool.not_eq_true] at between
          rw [List.cons_append, List.cons_append, collapse_within char next _ solid between,
            collapse_within char next _ solid between, joined]
          exact ⟨gap, blank, rfl⟩

theorem collapse_cons (rest : List Char) (solid : isWhitespace char = false) :
    ∃ gap, (∀ other ∈ gap, isWhitespace other = true) ∧ collapse (char :: rest) = char :: (gap ++ collapse rest) := by
  obtain ⟨gap, blank, joined⟩ := collapse_append [char] rest
  rw [collapse_last char solid] at joined
  exact ⟨gap, blank, joined⟩

theorem mem_collapse (char : Char) (inside : char ∈ collapse text) : char ∈ text ∨ char = ' ' := by
  induction text with
  | nil => cases inside
  | cons first text ih =>
    have later : char ∈ collapse text -> char ∈ first :: text ∨ char = ' ' :=
      fun deeper => (ih deeper).imp (List.mem_cons_of_mem _) id
    by_cases solid : isWhitespace first = true
    case pos =>
      rw [collapse_blank first text solid] at inside
      exact later inside
    case neg =>
      rw [Bool.not_eq_true] at solid
      cases text with
      | nil =>
        rw [collapse_last first solid] at inside
        exact .inl inside
      | cons next text =>
        by_cases between : isWhitespace next = true
        case pos =>
          rw [collapse_word first next text solid between] at inside
          rcases List.mem_cons.mp inside with rfl | deeper
          next => exact .inl List.mem_cons_self
          next =>
            split at deeper
            next => cases deeper
            next =>
              rcases List.mem_cons.mp deeper with space | deeper
              next => exact .inr space
              next => exact later deeper
        case neg =>
          rw [Bool.not_eq_true] at between
          rw [collapse_within first next text solid between] at inside
          rcases List.mem_cons.mp inside with rfl | deeper
          next => exact .inl List.mem_cons_self
          next => exact later deeper

/-- A text whose blanks are single spaces between words. -/
structure Tidy (text : List Char) : Prop where
  spaces : ∀ char ∈ text, isWhitespace char = true -> char = ' '
  single : text.IsChain (fun first second => ¬ (isWhitespace first = true ∧ isWhitespace second = true))
  opens : ∀ char ∈ text.head?, isWhitespace char = false
  closes : ∀ char ∈ text.getLast?, isWhitespace char = false

theorem Tidy.nil : Tidy [] := ⟨by simp, .nil, by simp, by simp⟩

theorem Tidy.opened (solid : isWhitespace char = false) (tidy : Tidy text)
    (gap : List Char) (between : gap = [] ∨ gap = [' '] ∧ text ≠ []) : Tidy (char :: (gap ++ text)) := by
  have spaced : ∀ other ∈ gap ++ text, isWhitespace other = true -> other = ' ' := by
    intro other inside blank
    rcases List.mem_append.mp inside with inside | inside
    next =>
      rcases between with rfl | ⟨rfl, -⟩
      next => cases inside
      next => exact List.mem_singleton.mp inside
    next => exact tidy.spaces other inside blank
  constructor
  next =>
    intro other inside blank
    rcases List.mem_cons.mp inside with rfl | later
    next => rw [solid] at blank; cases blank
    next => exact spaced other later blank
  next =>
    rcases between with rfl | ⟨rfl, some_text⟩
    next =>
      rw [List.nil_append]
      refine List.isChain_cons.mpr ⟨?_, tidy.single⟩
      rintro next - ⟨blank, -⟩
      rw [solid] at blank
      cases blank
    next =>
      refine List.isChain_cons.mpr ⟨?_, List.isChain_cons.mpr ⟨?_, tidy.single⟩⟩
      next =>
        rintro next - ⟨blank, -⟩
        rw [solid] at blank
        cases blank
      next =>
        rintro next first ⟨-, blank⟩
        rw [tidy.opens next first] at blank
        cases blank
  next => simpa using solid
  next =>
    rcases between with rfl | ⟨rfl, some_text⟩
    next =>
      cases text with
      | nil => simpa using solid
      | cons next text =>
        intro last inside
        rw [List.nil_append, List.getLast?_cons_cons] at inside
        exact tidy.closes last inside
    next =>
      intro last inside
      obtain ⟨final, ends⟩ := Option.ne_none_iff_exists'.mp (mt List.getLast?_eq_none_iff.mp some_text)
      simp only [List.singleton_append, List.getLast?_cons, ends, Option.getD_some, Option.mem_def, Option.some.injEq] at inside
      exact tidy.closes last (by rw [ends, inside]; rfl)

theorem collapse_tidy : Tidy (collapse text) := by
  induction text with
  | nil => exact Tidy.nil
  | cons char text ih =>
    by_cases solid : isWhitespace char = true
    case pos => rwa [collapse_blank char _ solid]
    case neg =>
      rw [Bool.not_eq_true] at solid
      cases text with
      | nil =>
        rw [collapse_last char solid]
        exact Tidy.opened char [] solid .nil [] (.inl rfl)
      | cons next text =>
        by_cases between : isWhitespace next = true
        case pos =>
          rw [collapse_word char next text solid between]
          split
          next => exact Tidy.opened char [] solid .nil [] (.inl rfl)
          next more => exact Tidy.opened char _ solid ih [' '] (.inr ⟨rfl, more⟩)
        case neg =>
          rw [Bool.not_eq_true] at between
          rw [collapse_within char next text solid between]
          exact Tidy.opened char _ solid ih [] (.inl rfl)

theorem collapse_trailing (spaces : ∀ char ∈ text, isWhitespace char = true -> char = ' ')
    (single : text.IsChain (fun first second => ¬ (isWhitespace first = true ∧ isWhitespace second = true)))
    (closes : ∀ char ∈ text.getLast?, isWhitespace char = false) : collapse text = trimStart text := by
  induction text with
  | nil => rfl
  | cons char text ih =>
    have later_spaces : ∀ other ∈ text, isWhitespace other = true -> other = ' ' :=
      fun other inside => spaces other (List.mem_cons_of_mem _ inside)
    obtain ⟨beside, chained⟩ := List.isChain_cons.mp single
    have later_closes : ∀ other ∈ text.getLast?, isWhitespace other = false := by
      intro other inside
      apply closes other
      rw [List.getLast?_cons, Option.mem_def.mp inside]
      rfl
    have further := ih later_spaces chained later_closes
    by_cases solid : isWhitespace char = true
    case pos =>
      rw [collapse_blank char text solid, further]
      unfold trimStart
      rw [List.dropWhile_cons_of_pos solid]
    case neg =>
      have kept : trimStart (char :: text) = char :: text := List.dropWhile_cons_of_neg solid
      rw [Bool.not_eq_true] at solid
      rw [kept]
      cases text with
      | nil => exact collapse_last char solid
      | cons next text =>
        by_cases between : isWhitespace next = true
        case pos =>
          have space := spaces next (by simp) between
          have rest_solid : trimStart (next :: text) = text := by
            unfold trimStart
            rw [List.dropWhile_cons_of_pos between]
            cases text with
            | nil => rfl
            | cons second text =>
              apply List.dropWhile_cons_of_neg
              intro blank
              exact (List.isChain_cons.mp chained).1 second rfl ⟨between, blank⟩
          have some_rest : text ≠ [] := by
            rintro rfl
            have last := closes next (by simp)
            rw [between] at last
            cases last
          rw [collapse_word char next text solid between, further, rest_solid, if_neg some_rest, space]
        case neg =>
          have kept_rest : trimStart (next :: text) = next :: text := List.dropWhile_cons_of_neg between
          rw [Bool.not_eq_true] at between
          rw [collapse_within char next text solid between, further, kept_rest]

theorem trimStart_tidy (tidy : Tidy text) : trimStart text = text := by
  unfold trimStart
  cases text with
  | nil => rfl
  | cons char text => exact List.dropWhile_cons_of_neg (by simp [tidy.opens char rfl])

theorem trim_tidy (tidy : Tidy text) : trim text = text := by
  unfold trim
  rw [trimStart_tidy text tidy, List.rdropWhile_eq_self_iff]
  intro some_text
  simp [tidy.closes (text.getLast some_text) (List.getLast?_eq_getLast_of_ne_nil some_text)]

theorem collapse_of_tidy (tidy : Tidy text) : collapse text = text := by
  rw [collapse_trailing text tidy.spaces tidy.single tidy.closes, trimStart_tidy text tidy]

theorem Tidy.ending (before after : List Char) (tidy : Tidy (before ++ after)) : Tidy (trimStart after) := by
  have closes : ∀ char ∈ after.getLast?, isWhitespace char = false := by
    intro char inside
    apply tidy.closes char
    rw [List.getLast?_append, Option.mem_def.mp inside]
    rfl
  rw [← collapse_trailing after (fun char inside => tidy.spaces char (List.mem_append_right _ inside))
    (List.isChain_append.mp tidy.single).2.1 closes]
  exact collapse_tidy after

theorem Tidy.starting (before after : List Char) (last : Char) (solid : isWhitespace last = false)
    (tidy : Tidy (before ++ last :: after)) : Tidy (before ++ [last]) := by
  have split : before ++ last :: after = (before ++ [last]) ++ after := by simp
  rw [split] at tidy
  constructor
  next => exact fun char inside => tidy.spaces char (List.mem_append_left _ inside)
  next => exact (List.isChain_append.mp tidy.single).1
  next =>
    intro char inside
    apply tidy.opens char
    rw [List.head?_append, Option.mem_def.mp inside]
    rfl
  next => simpa using solid

theorem Tidy.spaced (first second : List Char) (tidy : Tidy first) (also : Tidy second) (some_first : first ≠ [])
    (some_second : second ≠ []) : Tidy (first ++ ' ' :: second) := by
  have blank : isWhitespace ' ' = true := by decide
  constructor
  next =>
    intro char inside is_blank
    rcases List.mem_append.mp inside with inside | inside
    next => exact tidy.spaces char inside is_blank
    next =>
      rcases List.mem_cons.mp inside with rfl | later
      next => rfl
      next => exact also.spaces char later is_blank
  next =>
    refine List.isChain_append.mpr ⟨tidy.single, List.isChain_cons.mpr ⟨?_, also.single⟩, ?_⟩
    next =>
      rintro next beside ⟨-, is_blank⟩
      rw [also.opens next beside] at is_blank
      cases is_blank
    next =>
      rintro last ends next - ⟨is_blank, -⟩
      rw [tidy.closes last ends] at is_blank
      cases is_blank
  next =>
    intro char inside
    apply tidy.opens char
    rwa [List.head?_append_of_ne_nil _ some_first] at inside
  next =>
    intro char inside
    apply also.closes char
    obtain ⟨final, ends⟩ := Option.ne_none_iff_exists'.mp (mt List.getLast?_eq_none_iff.mp some_second)
    simpa [List.getLast?_append, List.getLast?_cons, ends] using inside

end Postio.Blanks

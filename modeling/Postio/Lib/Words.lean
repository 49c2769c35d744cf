import Mathlib.Data.List.DropRight
import Postio.Lib.Lines

set_option autoImplicit false

namespace Postio.Words

/-! Text in words apart by single blanks, and what replacing one blank-delimited word by nothing does to it. -/

variable (front : List (List Char)) (text word : List Char)

def words : List (List Char) := text.splitOn ' '

def join (words : List (List Char)) : List Char := List.intercalate [' '] words

def trailed (words : List (List Char)) : List Char := words.flatMap (fun word => word ++ [' '])

def spaced (words : List (List Char)) : List Char := ' ' :: trailed words

/-- Every occurrence replaced, from the left; what one occurrence covers is not looked at again. -/
def replaceFrom (sought put : List Char) : Nat -> List Char -> List Char
  | _, [] => []
  | covered + 1, _ :: rest => replaceFrom sought put covered rest
  | 0, char :: rest =>
    if sought.isPrefixOf (char :: rest) then put ++ replaceFrom sought put (sought.length - 1) rest
    else char :: replaceFrom sought put 0 rest

def replace (sought put text : List Char) : List Char := if sought = [] then text else replaceFrom sought put 0 text

def thinned (word : List Char) : List (List Char) -> List (List Char)
  | [] => []
  | [last] => if last = word then [] else [last]
  | first :: next :: rest => if first = word then next :: thinned word rest else first :: thinned word (next :: rest)

def inner (words : List (List Char)) : List (List Char) :=
  (words.dropWhile List.isEmpty).rdropWhile List.isEmpty

def ltrim : List Char := text.dropWhile (fun char => char = ' ')

def trim : List Char := (ltrim text).rdropWhile (fun char => char = ' ')

@[simp]
theorem trailed_cons (rest : List (List Char)) : trailed (word :: rest) = word ++ spaced rest := by
  simp [trailed, spaced]

theorem trailed_append (back : List (List Char)) : trailed (front ++ back) = trailed front ++ trailed back := by
  simp [trailed]

theorem join_words : join (words text) = text := List.intercalate_splitOn ' '

theorem words_apart (inside : word ∈ words text) : ' ' ∉ word := by
  unfold words at inside
  rw [List.splitOn_eq_splitOnP] at inside
  intro blank
  simpa using Lines.splitOnP_clear _ text word inside ' ' blank

theorem spaced_join (words : List (List Char)) (some_word : words ≠ []) : ' ' :: join words ++ [' '] = spaced words := by
  unfold join
  induction words with
  | nil => exact absurd rfl some_word
  | cons word rest ih =>
    cases rest with
    | nil => simp [spaced, trailed]
    | cons next rest =>
      have further := ih (List.cons_ne_nil _ _)
      rw [List.intercalate_cons_cons, spaced, trailed_cons, ← further]
      simp

theorem spaced_words : ' ' :: text ++ [' '] = spaced (words text) := by
  have whole := spaced_join (words text) (List.splitOn_ne_nil ' ' text)
  rwa [join_words] at whole

theorem join_injective (first second : List (List Char)) (apart : ∀ word ∈ first, ' ' ∉ word)
    (others : ∀ word ∈ second, ' ' ∉ word) (filled : first ≠ [[]]) (also : second ≠ [[]])
    (same : join first = join second) : first = second := by
  unfold join at same
  have back : ∀ words : List (List Char), words ≠ [] -> (∀ word ∈ words, ' ' ∉ word) ->
      (List.intercalate [' '] words).splitOn ' ' = words :=
    fun words some_word apart => List.splitOn_intercalate ' ' apart some_word
  rcases eq_or_ne first [] with rfl | left <;> rcases eq_or_ne second [] with rfl | right
  next => rfl
  next =>
    have read := back second right others
    rw [← same] at read
    exact absurd read.symm also
  next =>
    have read := back first left apart
    rw [same] at read
    exact absurd read.symm filled
  next => rw [← back first left apart, same, back second right others]

theorem replaceFrom_covered (sought put front rest : List Char) :
    replaceFrom sought put front.length (front ++ rest) = replaceFrom sought put 0 rest := by
  induction front with
  | nil => rfl
  | cons char front ih => exact ih

theorem replaceFrom_word (inside put word rest : List Char) (apart : ' ' ∉ word) :
    replaceFrom (' ' :: inside) put 0 (word ++ rest) = word ++ replaceFrom (' ' :: inside) put 0 rest := by
  induction word with
  | nil => rfl
  | cons char word ih =>
    have here : ' ' ≠ char := fun same => apart (same ▸ List.mem_cons_self)
    have further := ih (fun blank => apart (List.mem_cons_of_mem _ blank))
    simp [replaceFrom, List.isPrefixOf, here, further]

theorem delimited_front (other more : List Char) (apart : ' ' ∉ word) (also : ' ' ∉ other) :
    (word ++ [' ']).isPrefixOf (other ++ ' ' :: more) = decide (other = word) := by
  apply Bool.eq_iff_iff.mpr
  rw [List.isPrefixOf_iff_prefix, decide_eq_true_iff]
  constructor
  next =>
    rintro ⟨after, same⟩
    -- Both sides are cut at their first blank.
    have left := List.splitOn_append_cons_self_of_not_mem apart after
    have right := List.splitOn_append_cons_self_of_not_mem also more
    rw [List.append_assoc, List.singleton_append] at same
    rw [same, right] at left
    exact (List.cons.inj left).1
  next =>
    rintro rfl
    exact ⟨more, by simp⟩

theorem replaceFrom_blank (inside put rest : List Char) :
    replaceFrom (' ' :: inside) put 0 (' ' :: rest) =
      if inside.isPrefixOf rest then put ++ replaceFrom (' ' :: inside) put inside.length rest
      else ' ' :: replaceFrom (' ' :: inside) put 0 rest := by
  simp [replaceFrom, List.isPrefixOf]

theorem replaceFrom_delimited (other more : List Char) (apart : ' ' ∉ word) (also : ' ' ∉ other) :
    replaceFrom (' ' :: (word ++ [' '])) [' '] 0 (' ' :: (other ++ ' ' :: more)) =
      if other = word then ' ' :: replaceFrom (' ' :: (word ++ [' '])) [' '] 0 more
      else ' ' :: (other ++ replaceFrom (' ' :: (word ++ [' '])) [' '] 0 (' ' :: more)) := by
  rw [replaceFrom_blank, delimited_front word other more apart also]
  simp only [decide_eq_true_eq]
  split
  next same =>
    have covered := replaceFrom_covered (' ' :: (word ++ [' '])) [' '] (word ++ [' ']) more
    rw [List.append_assoc, List.singleton_append] at covered
    rw [same, covered]
    rfl
  next => rw [replaceFrom_word (word ++ [' ']) [' '] other _ also]

theorem replace_spaced (words : List (List Char)) (apart : ' ' ∉ word)
    (others : ∀ other ∈ words, ' ' ∉ other) :
    replace (' ' :: word ++ [' ']) [' '] (spaced words) = spaced (thinned word words) := by
  have alone : replaceFrom (' ' :: (word ++ [' '])) [' '] 0 (spaced []) = spaced [] := by
    have short : (word ++ [' ']).isPrefixOf [] = false := by cases word <;> rfl
    rw [spaced, replaceFrom_blank, show trailed [] = [] from rfl, short]
    rfl
  have nonempty : ' ' :: word ++ [' '] ≠ [] := List.cons_ne_nil _ _
  unfold replace
  rw [if_neg nonempty, List.cons_append]
  induction words using thinned.induct word with
  | case1 => exact alone
  | case2 =>
    have step := replaceFrom_delimited word word [] apart apart
    rw [if_pos rfl] at step
    have ending : replaceFrom (' ' :: (word ++ [' '])) [' '] 0 [] = [] := rfl
    rw [ending] at step
    simpa [thinned, spaced, trailed] using step
  | case3 last other =>
    have step := replaceFrom_delimited word last [] apart (others last List.mem_cons_self)
    rw [if_neg other] at step
    simp only [thinned, if_neg other, spaced, trailed_cons]
    rw [show trailed [] = [] from rfl, step]
    exact congrArg (fun rest => ' ' :: (last ++ rest)) alone
  | case4 next rest ih =>
    have later := ih (fun other inside => others other (List.mem_cons_of_mem _ (List.mem_cons_of_mem _ inside)))
    have step := replaceFrom_delimited word word (trailed (next :: rest)) apart apart
    have clear := others next (List.mem_cons_of_mem _ List.mem_cons_self)
    simp only [thinned, if_true, spaced, trailed_cons] at step ⊢
    rw [step, replaceFrom_word (word ++ [' ']) [' '] next _ clear]
    exact congrArg (fun rest => ' ' :: (next ++ rest)) later
  | case5 first next rest other ih =>
    have later := ih (fun other inside => others other (List.mem_cons_of_mem _ inside))
    have step := replaceFrom_delimited word first (trailed (next :: rest)) apart (others first List.mem_cons_self)
    rw [if_neg other] at step
    simp only [thinned, if_neg other]
    rw [spaced, spaced, trailed_cons, trailed_cons, spaced, step]
    exact congrArg (fun rest => ' ' :: (first ++ rest)) later

theorem thinned_sublist (words : List (List Char)) : (thinned word words).Sublist words := by
  induction words using thinned.induct word with
  | case1 => exact .slnil
  | case2 => simp [thinned]
  | case3 last other => simp [thinned, other]
  | case4 next rest ih => simpa [thinned] using (ih.cons_cons next).cons word
  | case5 first next rest other ih => simpa [thinned, other] using ih.cons_cons first

theorem ltrim_trailed (words : List (List Char)) (apart : ∀ word ∈ words, ' ' ∉ word) :
    ltrim (trailed words) = trailed (words.dropWhile List.isEmpty) := by
  induction words with
  | nil => rfl
  | cons word rest ih =>
    cases word with
    | nil =>
      have further := ih (fun word inside => apart word (List.mem_cons_of_mem _ inside))
      simpa [ltrim, spaced] using further
    | cons char word =>
      have here : char ≠ ' ' := fun same => apart (char :: word) List.mem_cons_self (same ▸ List.mem_cons_self)
      simp [ltrim, here]

theorem join_concat (words : List (List Char)) (last : List Char) : join (words ++ [last]) = trailed words ++ last := by
  unfold join
  induction words with
  | nil => simp [trailed]
  | cons word rest ih =>
    rw [List.cons_append, List.intercalate_cons_of_ne_nil (by simp), ih]
    simp [spaced]

theorem rtrim_trailed (words : List (List Char)) (apart : ∀ word ∈ words, ' ' ∉ word) :
    (trailed words).rdropWhile (fun char => char = ' ') = join (words.rdropWhile List.isEmpty) := by
  induction words using List.reverseRecOn with
  | nil => rfl
  | append_singleton words last ih =>
    have further := ih (fun word inside => apart word (List.mem_append_left _ inside))
    have ends : trailed (words ++ [last]) = (trailed words ++ last) ++ [' '] := by simp [trailed]
    rw [ends, List.rdropWhile_concat_pos _ _ _ (by simp)]
    rcases eq_or_ne last [] with rfl | filled
    next => rw [List.append_nil, further, List.rdropWhile_concat_pos _ _ _ (by simp)]
    next =>
      rw [List.rdropWhile_concat_neg _ _ _ (by simpa using filled), join_concat]
      apply List.rdropWhile_eq_self_iff.mpr
      intro some_char
      have final : (trailed words ++ last).getLast some_char ∈ last := by
        rw [List.getLast_append_of_ne_nil _ filled]
        exact List.getLast_mem filled
      rw [decide_eq_true_iff]
      exact fun blank => apart last (by simp) (blank ▸ final)

theorem trim_trailed (words : List (List Char)) (apart : ∀ word ∈ words, ' ' ∉ word) :
    trim (trailed words) = join (inner words) := by
  unfold trim inner
  rw [ltrim_trailed words apart]
  exact rtrim_trailed _ (fun word inside => apart word (List.dropWhile_sublist _ |>.subset inside))

theorem ltrim_spaced (words : List (List Char)) : ltrim (spaced words) = ltrim (trailed words) := by
  simp [ltrim, spaced]

theorem rdropWhile_append (words : List (List Char)) (filled : ∀ word ∈ front, word ≠ []) :
    (front ++ words).rdropWhile List.isEmpty = front ++ words.rdropWhile List.isEmpty := by
  induction words using List.reverseRecOn with
  | nil =>
    rw [List.append_nil, List.rdropWhile_nil, List.append_nil]
    apply List.rdropWhile_eq_self_iff.mpr
    intro some_word
    simpa using filled _ (List.getLast_mem some_word)
  | append_singleton words last ih =>
    rw [← List.append_assoc]
    rcases eq_or_ne last [] with rfl | other
    next => rw [List.rdropWhile_concat_pos _ _ _ (by simp), ih, List.rdropWhile_concat_pos _ _ _ (by simp)]
    next =>
      have kept : ¬ last.isEmpty = true := by simpa using other
      rw [List.rdropWhile_concat_neg _ _ _ kept, List.rdropWhile_concat_neg _ _ _ kept, List.append_assoc]

theorem inner_append (words : List (List Char)) (filled : ∀ word ∈ front, word ≠ []) :
    inner (front ++ words.dropWhile List.isEmpty) = front ++ inner words := by
  have started : (front ++ words.dropWhile List.isEmpty).dropWhile List.isEmpty =
      front ++ words.dropWhile List.isEmpty := by
    cases front with
    | nil => exact List.dropWhile_idempotent List.isEmpty words
    | cons first front =>
      have kept : ¬ first.isEmpty = true := by simpa using filled first List.mem_cons_self
      rw [List.cons_append, List.dropWhile_cons_of_neg kept]
  unfold inner
  rw [started, rdropWhile_append front _ filled]

theorem inner_subset (words : List (List Char)) (word : List Char) (inside : word ∈ inner words) : word ∈ words :=
  (List.dropWhile_sublist _).subset ((List.rdropWhile_prefix _ _).subset inside)

theorem inner_ne (words : List (List Char)) : inner words ≠ [[]] := by
  intro single
  have last := List.rdropWhile_last_not List.isEmpty
    (words.dropWhile List.isEmpty) (by unfold inner at single; simp [single])
  unfold inner at single
  simp [single] at last

end Postio.Words

import Postio.Lib.Slices
import Postio.Search.Dates

set_option autoImplicit false

namespace Postio.Search

open Slices (reach slice Boundary)

/-! Where a query matched in a text, as byte ranges into it. -/

def matchStart : Char := '\x01'

def matchEnd : Char := '\x02'

def ellipsis : Text := "…".toList

structure Highlighted where
  text : Text
  spots : List (Range Nat)
  deriving DecidableEq

/-! ### The tokens of a text -/

/-- Runs of alphanumeric characters, folded, with where they stand. A run that has begun is carried along. -/
def tokensFrom (unicode : Unicode) : Option (Nat × Text) -> Nat -> Text -> List (Range Nat × Text)
  | none, _, [] => []
  | some (start, word), offset, [] => [({ start, stop := offset }, unicode.lowerText word)]
  | begun, offset, char :: rest =>
    if unicode.alphanumeric char then
      tokensFrom unicode (some ((begun.map (fun run => (run.1, run.2 ++ [char]))).getD (offset, [char])))
        (offset + char.utf8Size) rest
    else
      match begun with
      | none => tokensFrom unicode none (offset + char.utf8Size) rest
      | some (start, word) =>
        ({ start, stop := offset }, unicode.lowerText word) :: tokensFrom unicode none (offset + char.utf8Size) rest

variable (unicode : Unicode) (text : Text) (terms : List Text) (token : Range Nat × Text)

def tokenize : List (Range Nat × Text) := tokensFrom unicode none 0 text

def words (term : Text) : List Text := (tokenize unicode term).map Prod.snd

/-- A run of a text's own characters, folded, with none of its kind on either side. -/
structure Placed (unicode : Unicode) (text : Text) (token : Range Nat × Text) (front word back : Text) : Prop where
  whole : text = front ++ (word ++ back)
  opens : ∀ char ∈ front.getLast?, unicode.alphanumeric char = false
  closes : ∀ char ∈ back.head?, unicode.alphanumeric char = false
  starts : reach Char.utf8Size front = token.1.start
  stops : token.1.start + reach Char.utf8Size word = token.1.stop
  filled : word ≠ []
  alphanumeric : ∀ char ∈ word, unicode.alphanumeric char = true
  folded : token.2 = unicode.lowerText word

theorem Placed.ordered (front word back : Text)
    (placed : Placed unicode text token front word back) : token.1.start < token.1.stop := by
  have further := reach_pos word placed.filled
  have stops := placed.stops
  omega

theorem Placed.boundaries (front word back : Text) (placed : Placed unicode text token front word back) :
    Boundary Char.utf8Size text token.1.start ∧ Boundary Char.utf8Size text token.1.stop := by
  refine ⟨⟨front, word ++ back, placed.whole, placed.starts⟩, ⟨front ++ word, back, ?_, ?_⟩⟩
  next => rw [placed.whole, List.append_assoc]
  next => rw [Slices.reach_append, placed.starts, placed.stops]

/-- What the scan has left behind: the text before, and a run that has begun where there is one. -/
structure Scanned (unicode : Unicode) (text before word rest : Text) (begun : Option (Nat × Text)) (offset : Nat) : Prop where
  whole : text = before ++ (word ++ rest)
  opens : ∀ char ∈ before.getLast?, unicode.alphanumeric char = false
  offset : reach Char.utf8Size before + reach Char.utf8Size word = offset
  begun : begun = if word = [] then none else some (reach Char.utf8Size before, word)
  alphanumeric : ∀ char ∈ word, unicode.alphanumeric char = true

theorem tokensFrom_placed (before word rest : Text) (begun : Option (Nat × Text)) (offset : Nat)
    (scanned : Scanned unicode text before word rest begun offset) :
    (∀ token ∈ tokensFrom unicode begun offset rest,
      reach Char.utf8Size before ≤ token.1.start ∧ ∃ front word back, Placed unicode text token front word back) ∧
    (tokensFrom unicode begun offset rest).Pairwise (fun first second => first.1.stop < second.1.start) := by
  induction rest generalizing before word begun offset with
  | nil =>
    obtain ⟨whole, opens, reached, rfl, alphanumeric⟩ := scanned
    by_cases empty : word = []
    case pos => simp [empty, tokensFrom]
    case neg =>
      rw [if_neg empty]
      refine ⟨?_, List.pairwise_singleton _ _⟩
      intro token inside
      obtain rfl := List.mem_singleton.mp inside
      exact ⟨le_refl _, before, word, [], whole, opens, by simp, rfl, reached, empty, alphanumeric, rfl⟩
  | cons char rest ih =>
    obtain ⟨whole, opens, reached, rfl, alphanumeric⟩ := scanned
    by_cases more : unicode.alphanumeric char = true
    case pos =>
      have step : tokensFrom unicode (if word = [] then none else some (reach Char.utf8Size before, word)) offset (char :: rest) =
          tokensFrom unicode (some (reach Char.utf8Size before, word ++ [char])) (offset + char.utf8Size) rest := by
        by_cases empty : word = []
        case pos =>
          subst empty
          have same : reach Char.utf8Size before = offset := by simpa using reached
          simp [tokensFrom, more, same]
        case neg => simp [tokensFrom, more, empty]
      rw [step]
      refine ih before (word ++ [char]) _ _ ⟨by simp [whole], opens, by simp [← reached, Nat.add_assoc], by simp, ?_⟩
      intro other inside
      rcases List.mem_append.mp inside with inside | inside
      next => exact alphanumeric other inside
      next =>
        obtain rfl := List.mem_singleton.mp inside
        exact more
    case neg =>
      have behind := ih (before ++ word ++ [char]) [] none (offset + char.utf8Size)
        ⟨by simp [whole], by simpa using more, by simp [← reached, Nat.add_assoc], by simp, by simp⟩
      obtain ⟨placed, apart⟩ := behind
      have further := utf8Size_pos char
      have past : reach Char.utf8Size (before ++ word ++ [char]) = offset + char.utf8Size := by
        simp [← reached, Nat.add_assoc]
      rw [past] at placed
      by_cases empty : word = []
      case pos =>
        have step : tokensFrom unicode none offset (char :: rest) = tokensFrom unicode none (offset + char.utf8Size) rest := by
          simp [tokensFrom, more]
        rw [if_pos empty, step]
        refine ⟨fun token inside => ⟨?_, (placed token inside).2⟩, apart⟩
        have later := (placed token inside).1
        omega
      case neg =>
        rw [if_neg empty]
        have step : tokensFrom unicode (some (reach Char.utf8Size before, word)) offset (char :: rest) =
            ({ start := reach Char.utf8Size before, stop := offset }, unicode.lowerText word) ::
              tokensFrom unicode none (offset + char.utf8Size) rest := by
          simp [tokensFrom, more]
        rw [step]
        refine ⟨?_, List.pairwise_cons.mpr ⟨?_, apart⟩⟩
        next =>
          intro token inside
          rcases List.mem_cons.mp inside with rfl | inside
          next => exact ⟨le_refl _, before, word, char :: rest, whole, opens, by simpa using more, rfl, reached, empty, alphanumeric, rfl⟩
          next =>
            have later := (placed token inside).1
            exact ⟨by omega, (placed token inside).2⟩
        next =>
          intro token inside
          have later := (placed token inside).1
          simp only
          omega

theorem tokenize_placed (inside : token ∈ tokenize unicode text) :
    ∃ front word back, Placed unicode text token front word back :=
  ((tokensFrom_placed unicode text [] [] text none 0 ⟨rfl, by simp, rfl, rfl, by simp⟩).1 token inside).2

theorem tokenize_apart : (tokenize unicode text).Pairwise (fun first second => first.1.stop < second.1.start):=
  (tokensFrom_placed unicode text [] [] text none 0 ⟨rfl, by simp, rfl, rfl, by simp⟩).2

/-! ### Where terms are found -/

/-- Every place where the wanted words stand one after the other. -/
def occurrences (wanted : List Text) : List (Range Nat × Text) -> List (Range Nat)
  | [] => []
  | token :: rest =>
    if wanted.isPrefixOf ((token :: rest).map Prod.snd) then
      { start := token.1.start, stop := (((token :: rest)[wanted.length - 1]?).getD token).1.stop } :: occurrences wanted rest
    else occurrences wanted rest

def found (tokens : List (Range Nat × Text)) (terms : List Text) : List (Range Nat) :=
  terms.flatMap (fun term => if (words unicode term).isEmpty then [] else occurrences (words unicode term) tokens)

def find : List (Range Nat) :=
  if (tokenize unicode text).isEmpty then [] else Ranges.merge (found unicode (tokenize unicode text) terms)

/-- Tokens in a row that are the wanted words. -/
structure Occurs (tokens : List (Range Nat × Text)) (wanted : List Text) (range : Range Nat)
    (before here after : List (Range Nat × Text)) : Prop where
  whole : tokens = before ++ (here ++ after)
  same : here.map Prod.snd = wanted
  starts : here.head?.map (fun token => token.1.start) = some range.start
  stops : here.getLast?.map (fun token => token.1.stop) = some range.stop

theorem mem_occurrences (wanted : List Text) (tokens : List (Range Nat × Text)) (range : Range Nat) (filled : wanted ≠ []) :
    range ∈ occurrences wanted tokens <-> ∃ before here after, Occurs tokens wanted range before here after := by
  induction tokens with
  | nil =>
    refine ⟨(fun inside => by cases inside), ?_⟩
    rintro ⟨before, here, after, whole, same, -, -⟩
    obtain ⟨-, behind⟩ := List.nil_eq_append_iff.mp whole
    obtain ⟨rfl, -⟩ := List.append_eq_nil_iff.mp behind
    exact absurd same.symm filled
  | cons token rest ih =>
    -- The words stand at the first token, or further on.
    have here_iff : wanted.isPrefixOf ((token :: rest).map Prod.snd) = true <->
        ∃ here after, token :: rest = here ++ after ∧ here.map Prod.snd = wanted := by
      rw [List.isPrefixOf_iff_prefix]
      constructor
      next =>
        rintro ⟨after, whole⟩
        refine ⟨(token :: rest).take wanted.length, (token :: rest).drop wanted.length, (List.take_append_drop _ _).symm, ?_⟩
        rw [List.map_take, ← whole, List.take_left]
      next =>
        rintro ⟨here, after, whole, rfl⟩
        rw [whole, List.map_append]
        exact List.prefix_append _ _
    have first_iff : (∃ here after, Occurs (token :: rest) wanted range [] here after) <->
        wanted.isPrefixOf ((token :: rest).map Prod.snd) = true ∧
          range = { start := token.1.start, stop := (((token :: rest)[wanted.length - 1]?).getD token).1.stop } := by
      rw [here_iff]
      constructor
      next =>
        rintro ⟨here, after, whole, same, starts, stops⟩
        refine ⟨⟨here, after, whole, same⟩, ?_⟩
        obtain ⟨first, others, rfl⟩ := List.exists_cons_of_ne_nil (fun empty : here = [] => by simp [empty] at starts)
        obtain rfl : token = first := (List.cons.inj whole).1
        have last : (token :: rest)[wanted.length - 1]? = (token :: others).getLast? := by
          rw [List.nil_append] at whole
          rw [whole, List.getElem?_append_left, List.getLast?_eq_getElem?, ← same, List.length_map]
          rw [← same, List.length_map]
          exact Nat.sub_lt (by simp) (by omega)
        rw [last]
        obtain ⟨final, most, stop⟩ := Option.map_eq_some_iff.mp stops
        rw [most]
        cases range
        simp only [List.head?_cons, Option.map_some, Option.some.injEq] at starts stop ⊢
        rw [starts, Option.getD_some, stop]
      next =>
        rintro ⟨⟨here, after, whole, same⟩, rfl⟩
        obtain ⟨first, others, rfl⟩ := List.exists_cons_of_ne_nil (fun empty : here = [] => by
          subst empty
          exact filled same.symm)
        obtain rfl : token = first := (List.cons.inj whole).1
        refine ⟨token :: others, after, whole, same, rfl, ?_⟩
        have last : (token :: rest)[wanted.length - 1]? = (token :: others).getLast? := by
          rw [whole, List.getElem?_append_left, List.getLast?_eq_getElem?, ← same, List.length_map]
          rw [← same, List.length_map]
          exact Nat.sub_lt (by simp) (by omega)
        simp only [last]
        rw [List.getLast?_eq_some_getLast (List.cons_ne_nil _ _)]
        rfl
    have further_iff : (∃ before here after, Occurs (token :: rest) wanted range (token :: before) here after) <->
        range ∈ occurrences wanted rest := by
      rw [ih]
      constructor
      next =>
        rintro ⟨before, here, after, whole, same, starts, stops⟩
        exact ⟨before, here, after, (List.cons.inj whole).2, same, starts, stops⟩
      next =>
        rintro ⟨before, here, after, whole, same, starts, stops⟩
        exact ⟨before, here, after, by rw [whole, List.cons_append], same, starts, stops⟩
    have split_iff : (∃ before here after, Occurs (token :: rest) wanted range before here after) <->
        (∃ here after, Occurs (token :: rest) wanted range [] here after) ∨
          ∃ before here after, Occurs (token :: rest) wanted range (token :: before) here after := by
      constructor
      next =>
        rintro ⟨before, here, after, occurs⟩
        cases before with
        | nil => exact .inl ⟨here, after, occurs⟩
        | cons first before =>
          obtain rfl : token = first := (List.cons.inj occurs.whole).1
          exact .inr ⟨before, here, after, occurs⟩
      next =>
        rintro (⟨here, after, occurs⟩ | ⟨before, here, after, occurs⟩)
        next => exact ⟨[], here, after, occurs⟩
        next => exact ⟨token :: before, here, after, occurs⟩
    rw [split_iff, first_iff, further_iff, occurrences]
    split
    next stands => rw [List.mem_cons, and_iff_right stands]
    next absent => rw [or_iff_right (fun stands => absent stands.1)]

theorem mem_found (tokens : List (Range Nat × Text)) (terms : List Text) (range : Range Nat) :
    range ∈ found unicode tokens terms <-> ∃ term ∈ terms, words unicode term ≠ [] ∧
      ∃ before here after, Occurs tokens (words unicode term) range before here after := by
  unfold found
  rw [List.mem_flatMap]
  refine exists_congr fun term => and_congr_right fun _ => ?_
  by_cases empty : words unicode term = []
  case pos => simp [empty]
  case neg => simp [empty, mem_occurrences]

theorem find_merges :
    Ranges.Merges (found unicode (tokenize unicode text) terms) (find unicode text terms) := by
  unfold find
  split
  next empty =>
    have nothing : found unicode (tokenize unicode text) terms = [] := by
      rw [List.isEmpty_iff.mp empty]
      refine List.eq_nil_iff_forall_not_mem.mpr fun range inside => ?_
      obtain ⟨term, -, filled, before, here, after, whole, same, -, -⟩ := (mem_found unicode [] terms range).mp inside
      obtain ⟨-, behind⟩ := List.nil_eq_append_iff.mp whole
      obtain ⟨rfl, -⟩ := List.append_eq_nil_iff.mp behind
      exact filled same.symm
    rw [nothing]
    exact ⟨.nil, by simp, by simp, by simp, by simp⟩
  next => exact Ranges.merge_merges _

theorem Occurs.tokens (tokens : List (Range Nat × Text)) (wanted : List Text) (range : Range Nat)
    (before here after : List (Range Nat × Text)) (occurs : Occurs tokens wanted range before here after) :
    ∃ first ∈ tokens, ∃ last ∈ tokens, first.1.start = range.start ∧ last.1.stop = range.stop ∧
      (first = last ∨ [first, last].Sublist tokens) := by
  obtain ⟨first, one, starts⟩ := Option.map_eq_some_iff.mp occurs.starts
  obtain ⟨last, two, stops⟩ := Option.map_eq_some_iff.mp occurs.stops
  have within : here.Sublist tokens := by
    rw [occurs.whole]
    exact (List.sublist_append_left here after).trans (List.sublist_append_right before _)
  obtain ⟨others, rfl⟩ : ∃ others, here = first :: others := by
    cases here with
    | nil => cases one
    | cons token others =>
      cases one
      exact ⟨others, rfl⟩
  refine ⟨first, within.subset List.mem_cons_self, last, within.subset (List.mem_of_getLast? two), starts, stops, ?_⟩
  cases others with
  | nil =>
    cases two
    exact .inl rfl
  | cons second others =>
    rw [List.getLast?_cons_cons] at two
    exact .inr ((List.Sublist.cons_cons first (List.singleton_sublist.mpr (List.mem_of_getLast? two))).trans within)

theorem Occurs.ordered (wanted : List Text) (range : Range Nat)
    (before here after : List (Range Nat × Text)) (occurs : Occurs (tokenize unicode text) wanted range before here after) :
    Boundary Char.utf8Size text range.start ∧ Boundary Char.utf8Size text range.stop ∧ range.start < range.stop := by
  obtain ⟨first, one, last, two, starts, stops, apart⟩ := occurs.tokens
  obtain ⟨front, word, back, begins⟩ := tokenize_placed unicode text first one
  obtain ⟨front', word', back', ends⟩ := tokenize_placed unicode text last two
  refine ⟨starts ▸ begins.boundaries.1, stops ▸ ends.boundaries.2, ?_⟩
  rw [← starts, ← stops]
  rcases apart with rfl | both
  next => exact begins.ordered
  next =>
    have ordered := (tokenize_apart unicode text).sublist both
    have further := List.rel_of_pairwise_cons ordered List.mem_cons_self
    have wide := begins.ordered
    have also := ends.ordered
    omega

theorem found_ordered (range : Range Nat) (inside : range ∈ found unicode (tokenize unicode text) terms) :
    Boundary Char.utf8Size text range.start ∧ Boundary Char.utf8Size text range.stop ∧ range.start < range.stop := by
  obtain ⟨term, -, -, before, here, after, occurs⟩ := (mem_found unicode _ terms range).mp inside
  exact occurs.ordered

theorem find_ordered (range : Range Nat) (inside : range ∈ find unicode text terms) :
    Boundary Char.utf8Size text range.start ∧ Boundary Char.utf8Size text range.stop ∧ range.start < range.stop := by
  have merges := find_merges unicode text terms
  obtain ⟨one, among, starts, -⟩ := merges.begins range inside
  obtain ⟨other, also, stops, -⟩ := merges.ends range inside
  refine ⟨starts ▸ (found_ordered unicode text terms one among).1, stops ▸ (found_ordered unicode text terms other also).2.1, ?_⟩
  exact merges.filled _ _ (fun one among => (found_ordered unicode text terms one among).2.2) range inside

end Postio.Search

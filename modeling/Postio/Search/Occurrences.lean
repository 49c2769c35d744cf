import Postio.Lib.Separated
import Postio.Search.Snippet

set_option autoImplicit false

namespace Postio.Search

open Slices (reach slice Boundary)

/-! The tokens of a part of a text, and what it takes to find a term there. -/

variable (unicode : Unicode) (front text back : Text)

def Unicode.WordsApart : Prop :=
  ∀ char, Lines.isWhitespace char = true → unicode.alphanumeric char = false

theorem tokensFrom_cut (begun : Option (Nat × Text)) (offset : Nat) (front back : Text) (char : Char)
    (separates : unicode.alphanumeric char = false) :
    tokensFrom unicode begun offset (front ++ char :: back) =
      tokensFrom unicode begun offset front ++
        tokensFrom unicode none (offset + reach Char.utf8Size front + char.utf8Size) back := by
  induction front generalizing begun offset with
  | nil =>
    cases begun with
    | none => simp [tokensFrom, separates]
    | some run => simp [tokensFrom, separates]
  | cons first front ih =>
    have further : offset + first.utf8Size + reach Char.utf8Size front = offset + reach Char.utf8Size (first :: front) := by
      rw [Slices.reach_cons]
      omega
    by_cases more : unicode.alphanumeric first = true
    case pos =>
      have step : ∀ rest, tokensFrom unicode begun offset (first :: rest) =
          tokensFrom unicode (some ((begun.map (fun run => (run.1, run.2 ++ [first]))).getD (offset, [first])))
            (offset + first.utf8Size) rest := by
        intro rest
        cases begun <;> simp [tokensFrom, more]
      rw [List.cons_append, step, step, ih, further]
    case neg =>
      cases begun with
      | none =>
        have step : ∀ rest, tokensFrom unicode none offset (first :: rest) =
            tokensFrom unicode none (offset + first.utf8Size) rest := by
          intro rest
          simp [tokensFrom, more]
        rw [List.cons_append, step, step, ih, further]
      | some run =>
        have step : ∀ rest, tokensFrom unicode (some run) offset (first :: rest) =
            ({ start := run.1, stop := offset }, unicode.lowerText run.2) ::
              tokensFrom unicode none (offset + first.utf8Size) rest := by
          intro rest
          simp [tokensFrom, more]
        rw [List.cons_append, step, step, ih, further, List.cons_append]

def later (offset : Nat) (token : Range Nat × Text) : Range Nat × Text :=
  ({ start := offset + token.1.start, stop := offset + token.1.stop }, token.2)

theorem tokensFrom_later (base : Nat) (begun : Option (Nat × Text)) (offset : Nat) (text : Text) :
    tokensFrom unicode (begun.map (fun run => (base + run.1, run.2))) (base + offset) text =
      (tokensFrom unicode begun offset text).map (later base) := by
  induction text generalizing begun offset with
  | nil => cases begun <;> rfl
  | cons char rest ih =>
    by_cases more : unicode.alphanumeric char = true
    case pos =>
      have further := ih (some ((begun.map (fun run => (run.1, run.2 ++ [char]))).getD (offset, [char]))) (offset + char.utf8Size)
      cases begun <;> simpa [tokensFrom, more, Nat.add_assoc] using further
    case neg =>
      have further := ih none (offset + char.utf8Size)
      cases begun with
      | none => simpa [tokensFrom, more, Nat.add_assoc] using further
      | some run => simpa [tokensFrom, more, Nat.add_assoc, later] using further

theorem tokensFrom_none (base : Nat) (text : Text) :
    tokensFrom unicode none base text = (tokenize unicode text).map (later base) :=
  tokensFrom_later unicode base none 0 text

theorem tokenize_cut (char : Char) (separates : unicode.alphanumeric char = false) :
    tokenize unicode (front ++ char :: back) =
      tokenize unicode front ++ (tokenize unicode back).map (later (reach Char.utf8Size (front ++ [char]))) := by
  unfold tokenize
  rw [tokensFrom_cut unicode none 0 front back char separates, tokensFrom_none unicode (0 + _ + _)]
  simp [tokenize]

theorem words_cut (char : Char) (separates : unicode.alphanumeric char = false) :
    words unicode (front ++ char :: back) = words unicode front ++ words unicode back := by
  unfold words
  rw [tokenize_cut unicode front back char separates, List.map_append, List.map_map]
  rfl

theorem words_nil : words unicode [] = [] := rfl

theorem find_ne_nil (terms : List Text) :
    find unicode text terms ≠ [] <->
      ∃ term ∈ terms, words unicode term ≠ [] ∧ (words unicode term).IsInfix (words unicode text) := by
  have merges := find_merges unicode text terms
  have filled : found unicode (tokenize unicode text) terms ≠ [] <-> ∃ range, range ∈ found unicode (tokenize unicode text) terms :=
    ⟨List.exists_mem_of_ne_nil _, fun ⟨_, inside⟩ => List.ne_nil_of_mem inside⟩
  rw [ne_eq, not_congr merges.nil_iff, ← ne_eq, filled]
  simp only [mem_found]
  constructor
  next =>
    rintro ⟨range, term, among, filled, before, here, after, occurs⟩
    refine ⟨term, among, filled, before.map Prod.snd, after.map Prod.snd, ?_⟩
    have all := congrArg (List.map Prod.snd) occurs.whole
    rw [List.map_append, List.map_append, occurs.same] at all
    rw [List.append_assoc]
    exact all.symm
  next =>
    rintro ⟨term, among, filled, front, back, whole⟩
    rw [List.append_assoc] at whole
    obtain ⟨before, behind, split, rfl, rest⟩ := List.map_eq_append_iff.mp whole.symm
    obtain ⟨here, after, rfl, same, rfl⟩ := List.map_eq_append_iff.mp rest
    obtain ⟨first, others, rfl⟩ := List.exists_cons_of_ne_nil (fun empty : here = [] => by
      rw [empty] at same
      exact filled same.symm)
    have last := List.getLast?_eq_some_getLast (List.cons_ne_nil first others)
    refine ⟨{ start := first.1.start, stop := ((first :: others).getLast (List.cons_ne_nil _ _)).1.stop }, term, among, filled,
      before, first :: others, after, split, same, rfl, ?_⟩
    rw [last]
    rfl

/-! ### A part of a text between two words -/

theorem tokenize_front (opens : ∀ char ∈ front.getLast?, unicode.alphanumeric char = false) :
    tokenize unicode (front ++ back) =
      tokenize unicode front ++ (tokenize unicode back).map (later (reach Char.utf8Size front)) := by
  rcases List.eq_nil_or_concat front with rfl | ⟨before, char, rfl⟩
  next =>
    have same : later 0 = id := by
      funext token
      simp [later]
    simp [same, tokenize, tokensFrom]
  next =>
    rw [List.concat_eq_append] at opens ⊢
    have separates := opens char (by simp)
    have alone := tokenize_cut unicode before [] char separates
    rw [List.append_assoc, List.singleton_append, tokenize_cut unicode before back char separates, alone]
    simp [tokenize, tokensFrom]

theorem tokenize_back (closes : ∀ char ∈ back.head?, unicode.alphanumeric char = false) :
    tokenize unicode (front ++ back) =
      tokenize unicode front ++ (tokenize unicode back).map (later (reach Char.utf8Size front)) := by
  cases back with
  | nil => simp [tokenize, tokensFrom]
  | cons char back =>
    have separates := closes char (by simp)
    have blank : tokenize unicode (char :: back) = (tokenize unicode back).map (later (reach Char.utf8Size [char])) := by
      have cut := tokenize_cut unicode [] back char separates
      simpa [tokenize, tokensFrom] using cut
    rw [tokenize_cut unicode front back char separates, blank, List.map_map]
    congr 2
    funext token
    simp [later, Nat.add_assoc]

theorem tokenize_within (token : Range Nat × Text) (inside : token ∈ tokenize unicode text) :
    token.1.start < token.1.stop ∧ token.1.stop ≤ reach Char.utf8Size text := by
  obtain ⟨front, word, back, placed⟩ := tokenize_placed unicode text token inside
  refine ⟨placed.ordered, ?_⟩
  have starts := placed.starts
  have stops := placed.stops
  rw [placed.whole, Slices.reach_append, Slices.reach_append]
  omega

def Between (start stop : Nat) (token : Range Nat × Text) : Prop := start ≤ token.1.start ∧ token.1.stop ≤ stop

instance (start stop : Nat) (token : Range Nat × Text) : Decidable (Between start stop token) :=
  inferInstanceAs (Decidable (_ ∧ _))

theorem tokenize_part (part back : Text) (opens : ∀ char ∈ front.getLast?, unicode.alphanumeric char = false)
    (closes : ∀ char ∈ back.head?, unicode.alphanumeric char = false) :
    (tokenize unicode (front ++ (part ++ back))).filter
        (fun token => Between (reach Char.utf8Size front) (reach Char.utf8Size front + reach Char.utf8Size part) token) =
      (tokenize unicode part).map (later (reach Char.utf8Size front)) := by
  rw [tokenize_front unicode front _ opens, tokenize_back unicode part back closes, List.map_append, List.filter_append,
    List.filter_append]
  have before : (tokenize unicode front).filter
      (fun token => Between (reach Char.utf8Size front) (reach Char.utf8Size front + reach Char.utf8Size part) token) = [] := by
    rw [List.filter_eq_nil_iff]
    intro token inside
    obtain ⟨ordered, within⟩ := tokenize_within unicode front token inside
    rw [decide_eq_true_eq, Between]
    omega
  have here : ((tokenize unicode part).map (later (reach Char.utf8Size front))).filter
      (fun token => Between (reach Char.utf8Size front) (reach Char.utf8Size front + reach Char.utf8Size part) token) =
        (tokenize unicode part).map (later (reach Char.utf8Size front)) := by
    rw [List.filter_eq_self]
    intro moved inside
    obtain ⟨token, among, rfl⟩ := List.mem_map.mp inside
    obtain ⟨ordered, within⟩ := tokenize_within unicode part token among
    rw [decide_eq_true_eq, Between]
    simp only [later]
    omega
  have after : (((tokenize unicode back).map (later (reach Char.utf8Size part))).map (later (reach Char.utf8Size front))).filter
      (fun token => Between (reach Char.utf8Size front) (reach Char.utf8Size front + reach Char.utf8Size part) token) = [] := by
    rw [List.filter_eq_nil_iff]
    intro moved inside
    obtain ⟨other, also, rfl⟩ := List.mem_map.mp inside
    obtain ⟨token, among, rfl⟩ := List.mem_map.mp also
    obtain ⟨ordered, within⟩ := tokenize_within unicode back token among
    rw [decide_eq_true_eq, Between]
    simp only [later]
    omega
  rw [before, here, after, List.nil_append, List.append_nil]

theorem Occurs.between (tokens : List (Range Nat × Text)) (wanted : List Text) (range : Range Nat)
    (before here after : List (Range Nat × Text)) (occurs : Occurs tokens wanted range before here after)
    (apart : tokens.Pairwise (fun first second => first.1.stop < second.1.start))
    (ordered : ∀ token ∈ tokens, token.1.start < token.1.stop) :
    (∀ token ∈ before, token.1.stop < range.start) ∧ (∀ token ∈ here, Between range.start range.stop token) ∧
      ∀ token ∈ after, range.stop < token.1.start := by
  obtain ⟨first, one, starts⟩ := Option.map_eq_some_iff.mp occurs.starts
  obtain ⟨last, two, stops⟩ := Option.map_eq_some_iff.mp occurs.stops
  have whole := occurs.whole
  subst whole
  obtain ⟨-, behind, across⟩ := List.pairwise_append.mp apart
  obtain ⟨inner, -, beyond⟩ := List.pairwise_append.mp behind
  have first_in : first ∈ here := List.mem_of_head? one
  have last_in : last ∈ here := List.mem_of_getLast? two
  have ordered_here : ∀ token ∈ here, token.1.start < token.1.stop := fun token inside => ordered token (by simp [inside])
  refine ⟨?_, ?_, ?_⟩
  next =>
    intro token inside
    rw [← starts]
    exact across token inside first (by simp [first_in])
  next =>
    intro token inside
    rw [← starts, ← stops]
    constructor
    next =>
      cases here with
      | nil => cases one
      | cons head others =>
        obtain rfl : head = first := by simpa using one
        rcases List.mem_cons.mp inside with rfl | inside
        next => exact Nat.le_refl _
        next =>
          have less := List.rel_of_pairwise_cons inner inside
          have wide := ordered_here head List.mem_cons_self
          omega
    next =>
      rcases List.eq_nil_or_concat here with rfl | ⟨others, final, rfl⟩
      next => cases two
      next =>
        rw [List.concat_eq_append] at *
        obtain rfl : final = last := by simpa using two
        rcases List.mem_append.mp inside with inside | inside
        next =>
          have less := (List.pairwise_append.mp inner).2.2 token inside final (by simp)
          have wide := ordered_here final (by simp)
          omega
        next =>
          obtain rfl := List.mem_singleton.mp inside
          exact Nat.le_refl _
  next =>
    intro token inside
    rw [← stops]
    exact beyond last last_in token inside

theorem Occurs.filter (tokens : List (Range Nat × Text)) (wanted : List Text) (range : Range Nat)
    (before here after : List (Range Nat × Text)) (occurs : Occurs tokens wanted range before here after)
    (apart : tokens.Pairwise (fun first second => first.1.stop < second.1.start))
    (ordered : ∀ token ∈ tokens, token.1.start < token.1.stop) :
    tokens.filter (fun token => Between range.start range.stop token) = here := by
  obtain ⟨earlier, within, beyond⟩ := occurs.between tokens wanted range before here after apart ordered
  have whole := occurs.whole
  subst whole
  rw [List.filter_append, List.filter_append, List.filter_eq_nil_iff.mpr, List.filter_eq_self.mpr, List.filter_eq_nil_iff.mpr,
    List.nil_append, List.append_nil]
  next =>
    intro token inside
    have past := beyond token inside
    have wide := ordered token (by simp [inside])
    rw [decide_eq_true_eq, Between]
    omega
  next => exact fun token inside => decide_eq_true (within token inside)
  next =>
    intro token inside
    have past := earlier token inside
    have wide := ordered token (by simp [inside])
    rw [decide_eq_true_eq, Between]
    omega

theorem Occurs.words (wanted : List Text) (range : Range Nat)
    (before here after : List (Range Nat × Text)) (occurs : Occurs (tokenize unicode text) wanted range before here after) :
    words unicode (slice Char.utf8Size range.start range.stop text) = wanted := by
  have filtered := occurs.filter _ wanted range before here after (tokenize_apart unicode text)
    (fun token inside => (tokenize_within unicode text token inside).1)
  obtain ⟨first, one, last, two, starts, stops, -⟩ := occurs.tokens
  obtain ⟨front, word, rest, begins⟩ := tokenize_placed unicode text first one
  obtain ⟨front', word', rest', ends⟩ := tokenize_placed unicode text last two
  obtain ⟨-, -, ordered⟩ := occurs.ordered
  obtain ⟨outer, part, back, whole, reached, wide, same⟩ := Slices.slice_between Char.utf8Size utf8Size_pos text
    range.start range.stop (starts ▸ begins.boundaries.1) (stops ▸ ends.boundaries.2) (Nat.le_of_lt ordered)
  obtain ⟨rfl, -⟩ := Slices.front_unique Char.utf8Size utf8Size_pos outer _ front _ (whole.symm.trans begins.whole)
    (by rw [reached, begins.starts, starts])
  obtain ⟨-, rfl⟩ := Slices.front_unique Char.utf8Size utf8Size_pos (outer ++ part) back (front' ++ word') rest'
    (by rw [List.append_assoc, ← whole, List.append_assoc]; exact ends.whole)
    (by rw [Slices.reach_append, Slices.reach_append, reached, wide, ends.starts, ends.stops, stops])
  have parted := tokenize_part unicode outer part back begins.opens ends.closes
  rw [← whole, reached, wide, filtered] at parted
  rw [same, Search.words, ← occurs.same, parted, List.map_map]
  rfl

/-! ### Whitespace collapsed -/

def continued : List Text -> Text
  | [] => []
  | first :: pieces => Separated.join ' ' (first :: pieces.filter (fun word => word ≠ []))

theorem collapse_pushes (state : Collapsing) (spaced : state.inSpace = true → state.out ≠ []) :
    (text.foldl Collapsing.push state).out =
      if state.inSpace then state.out ++ Separated.join ' ' ([] :: Lines.splitWhitespace text)
      else if state.out = [] then Separated.join ' ' (Lines.splitWhitespace text)
      else state.out ++ continued (text.splitOnP Lines.isWhitespace) := by
  have longer : ∀ (char : Char) (word : Text) (words : List Text),
      Separated.join ' ' ((char :: word) :: words) = char :: Separated.join ' ' (word :: words) := by
    intro char word words
    cases words with
    | nil => simp
    | cons other words =>
      rw [Separated.join_cons ' ' (char :: word) (other :: words) (by simp),
        Separated.join_cons ' ' word (other :: words) (by simp), List.cons_append]
  have led : ∀ (word : Text) (words : List Text),
      Separated.join ' ' ([] :: word :: words) = ' ' :: Separated.join ' ' (word :: words) := by
    intro word words
    rw [Separated.join_cons _ _ _ (by simp), List.nil_append]
  induction text generalizing state with
  | nil => simp [Lines.splitWhitespace, continued]
  | cons char text ih =>
    obtain ⟨first, pieces, parts⟩ := List.exists_cons_of_ne_nil (List.splitOnP_ne_nil Lines.isWhitespace text)
    rw [List.foldl_cons]
    by_cases blank : Lines.isWhitespace char = true
    case pos =>
      have split : (char :: text).splitOnP Lines.isWhitespace = [] :: first :: pieces := by
        rw [List.splitOnP_cons_eq_if_modifyHead, if_pos blank, parts]
      have step : state.push char = { state with inSpace := !state.out.isEmpty } := by
        unfold Collapsing.push
        rw [if_pos blank]
      have same : Lines.splitWhitespace (char :: text) = Lines.splitWhitespace text := by
        simp [Lines.splitWhitespace, split, parts]
      rw [step, ih _ (by simp), same, split]
      have read : Lines.splitWhitespace text = (first :: pieces).filter (fun word => word ≠ []) := by
        rw [Lines.splitWhitespace, parts]
      by_cases empty : state.out = []
      case pos =>
        have outside : state.inSpace = false := by
          cases inside : state.inSpace with
          | false => rfl
          | true => exact absurd empty (spaced inside)
        simp [empty, outside]
      case neg => cases state.inSpace <;> simp [empty, continued, read]
    case neg =>
      have split : (char :: text).splitOnP Lines.isWhitespace = (char :: first) :: pieces := by
        rw [List.splitOnP_cons_eq_if_modifyHead, if_neg blank, parts, List.modifyHead_cons]
      have step : state.push char = { out := (if state.inSpace then state.out ++ [' '] else state.out) ++ [char], inSpace := false } := by
        unfold Collapsing.push
        rw [if_neg blank]
      have same : Lines.splitWhitespace (char :: text) = (char :: first) :: pieces.filter (fun word => word ≠ []) := by
        simp [Lines.splitWhitespace, split]
      rw [step, ih _ (by simp), same, split, parts]
      cases inside : state.inSpace with
      | true => simp [continued, longer, led]
      | false =>
        by_cases empty : state.out = []
        case pos => simp [empty, continued, longer]
        case neg => simp [empty, continued, longer]

theorem collapseWhitespace_eq : collapseWhitespace text = Separated.join ' ' (Lines.splitWhitespace text) := by
  unfold collapseWhitespace
  rw [collapse_pushes text _ (by simp)]
  simp

theorem words_join (apart : unicode.WordsApart) (pieces : List Text) :
    words unicode (Separated.join ' ' pieces) = pieces.flatMap (words unicode) := by
  induction pieces with
  | nil => rfl
  | cons piece pieces ih =>
    cases pieces with
    | nil => simp
    | cons other pieces =>
      rw [Separated.join_cons _ _ _ (by simp), words_cut unicode piece _ ' ' (apart ' ' (by decide)), ih]
      rfl

theorem words_splitWhitespace (apart : unicode.WordsApart) (text : Text) :
    (Lines.splitWhitespace text).flatMap (words unicode) = words unicode text := by
  have kept : ∀ pieces : List Text, (pieces.filter (fun word => word ≠ [])).flatMap (words unicode) =
      pieces.flatMap (words unicode) := by
    intro pieces
    induction pieces with
    | nil => rfl
    | cons piece pieces ih =>
      by_cases empty : piece = []
      case pos => simpa [empty, words_nil] using ih
      case neg => rw [List.filter_cons_of_pos (by simpa using empty), List.flatMap_cons, List.flatMap_cons, ih]
  rw [Lines.splitWhitespace, kept]
  have general : ∀ front : Text, (∀ char ∈ front, Lines.isWhitespace char = false) →
      ((front ++ text).splitOnP Lines.isWhitespace).flatMap (words unicode) = words unicode (front ++ text) := by
    induction text with
    | nil =>
      intro front solid
      rw [List.append_nil, List.splitOnP_eq_singleton solid]
      simp
    | cons char text ih =>
      intro front solid
      by_cases blank : Lines.isWhitespace char = true
      case pos =>
        have further := ih [] (by simp)
        rw [List.nil_append] at further
        rw [List.splitOnP_append_cons _ _ blank, List.splitOnP_eq_singleton solid, List.singleton_append, List.flatMap_cons,
          further, words_cut unicode front text char (apart char blank)]
      case neg =>
        have further := ih (front ++ [char]) (by
          intro other inside
          rcases List.mem_append.mp inside with inside | inside
          next => exact solid other inside
          next =>
            obtain rfl := List.mem_singleton.mp inside
            simpa using blank)
        simpa using further
  exact general [] (by simp)

theorem words_collapse (apart : unicode.WordsApart) (text : Text) :
    words unicode (collapseWhitespace text) = words unicode text := by
  rw [collapseWhitespace_eq, words_join unicode apart, words_splitWhitespace unicode apart]

end Postio.Search

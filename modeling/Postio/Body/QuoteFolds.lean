import Mathlib.Data.List.Infix
import Mathlib.Data.List.MinMax
import Postio.Body.TextShown

set_option autoImplicit false

namespace Postio.QuoteFolds

open Lines (isWhitespace trim)
open Markup (Text)
open TextHtml (Stretch introduces openFold paragraphs paragraphsFrom takeAttribution)

/-! The quoted history of an HTML body, folded away. -/

def openTag : Text := '<' :: "blockquote".toList

def closeTag : Text := '<' :: "/blockquote>".toList

def isAsciiWhitespace (char : Char) : Bool := ['\t', '\n', '\x0c', '\r', ' '].contains char

def tagNameEndsAt (behind : Text) : Bool :=
  match behind with
  | [] => true
  | char :: _ => char == '>' || isAsciiWhitespace char || char == '/'

def startsTag (opening rest : Text) : Bool := opening.isPrefixOf rest && tagNameEndsAt (rest.drop opening.length)

/-- The loop of `html_stretches`: the sender's text since the last span, the span so far and its depth. -/
def stretchesFrom (own span : Text) (depth : Nat) (rest : Text) : List Stretch :=
  match rest with
  -- An element that is never closed stays the sender's own.
  | [] => if own ++ span = [] then [] else [.own (own ++ span)]
  | char :: more =>
    if startsTag openTag (char :: more) then stretchesFrom own (span ++ openTag) (depth + 1) (more.drop (openTag.length - 1))
    else if 0 < depth ∧ closeTag.isPrefixOf (char :: more) then
      if depth = 1 then
        (if own = [] then [] else [.own own]) ++ .quoted (span ++ closeTag) ::
          stretchesFrom [] [] 0 (more.drop (closeTag.length - 1))
      else stretchesFrom own (span ++ closeTag) (depth - 1) (more.drop (closeTag.length - 1))
    else if depth = 0 then stretchesFrom (own ++ [char]) span depth more
    else stretchesFrom own (span ++ [char]) depth more
termination_by rest.length
decreasing_by all_goals simp only [List.length_drop, List.length_cons]; omega

def htmlStretches (html : Text) : List Stretch := stretchesFrom [] [] 0 html

/-! ### The line that introduces a quote -/

def attributionClass : Text := "postio-attribution".toList

def find (part text : Text) : Option Nat := (List.range (text.length + 1)).find? (fun place => part.isPrefixOf (text.drop place))

def tagsOf (opening own : Text) : List Nat := (List.range own.length).filter (fun place => startsTag opening (own.drop place))

/-- Whether there are tags and white space only: the loop a character at a time, outside a tag or inside one. -/
def onlyMarkup (inside : Bool) : Text -> Bool
  | [] => !inside
  | char :: rest =>
    if inside then onlyMarkup (char != '>') rest
    else if isWhitespace char then onlyMarkup false rest
    else char == '<' && onlyMarkup true rest

def stripTags (inside : Bool) : Text -> Text
  | [] => []
  | char :: rest =>
    if char = '<' then stripTags true rest
    else if char = '>' then stripTags false rest
    else if inside then stripTags inside rest
    else char :: stripTags inside rest

/-- A tag, up to its end, with the class added. -/
def mark (tag : Text) : Text :=
  match find " class=\"".toList tag with
  | some place => tag.take (place + 8) ++ (attributionClass ++ [' ']) ++ tag.drop (place + 8)
  | none =>
    let name := if ('<' :: "div".toList).isPrefixOf tag then 4 else 2
    tag.take name ++ (" class=\"".toList ++ attributionClass ++ ['"']) ++ tag.drop name

def blockTags : List Text := ['<' :: "div".toList, '<' :: "p".toList]

section

variable (alphanumeric : Char -> Bool)

def markHtmlAttribution (own : Text) : Option Text := do
  let start <- (blockTags.filterMap (fun opening => (tagsOf opening own).getLast?)).max?
  let block := own.drop start
  let tagEnd <- find ['>'] block
  let close <- (["</div>".toList, "</p>".toList].filterMap (fun closing => find closing block)).min?
  if close < tagEnd ∨ onlyMarkup false (block.drop close) = false then none
  else if introduces alphanumeric (stripTags false ((block.take close).drop (tagEnd + 1))) = false then none
  else some (own.take start ++ mark (block.take tagEnd) ++ block.drop tagEnd)

/-! ### Folds -/

-- `html_quote_lines` reads the span with the document parser.
variable (htmlQuoteLines : Text -> Nat)

def wrapQuote (span : Text) : Text := openFold (htmlQuoteLines span) ++ span ++ "</details>".toList

def foldFrom : List Stretch -> Text
  | [] => []
  | .own own :: rest =>
    let marked := match rest with
      | .quoted _ :: _ => markHtmlAttribution alphanumeric own
      | _ => none
    marked.getD own ++ foldFrom rest
  | .quoted quoted :: rest => wrapQuote htmlQuoteLines quoted ++ foldFrom rest

def foldHtmlQuotes (html : Text) : Text := foldFrom alphanumeric htmlQuoteLines (htmlStretches html)

end

/-! ### What is folded -/

/-- The markup that a stretch is written with: a quote within a fold, the sender's text as it is, or with the mark put into one of
the tags before a quote. -/
inductive Folds : List Stretch -> Text -> Prop where
  | none : Folds [] []
  | own (text : Text) {rest : List Stretch} {html : Text} (behind : Folds rest html) : Folds (.own text :: rest) (text ++ html)
  | marked (front tag after mark quoted : Text) {rest : List Stretch} {html : Text} (opens : tag.head? = some '<')
      (inside : '>' ∉ tag) (marks : mark ∈ [attributionClass ++ [' '], " class=\"".toList ++ attributionClass ++ ['"']])
      (behind : Folds (.quoted quoted :: rest) html) :
      Folds (.own (front ++ tag ++ after) :: .quoted quoted :: rest) (front ++ tag ++ mark ++ after ++ html)
  | quoted (text : Text) (lines : Nat) {rest : List Stretch} {html : Text} (behind : Folds rest html) :
      Folds (.quoted text :: rest) (openFold lines ++ text ++ "</details>".toList ++ html)

theorem tag_cut (tag more : Text) (char : Char) (filled : tag ≠ []) (front : tag.isPrefixOf (char :: more) = true) :
    char :: more = tag ++ more.drop (tag.length - 1) := by
  obtain ⟨behind, whole⟩ := List.isPrefixOf_iff_prefix.mp front
  cases tag with
  | nil => exact absurd rfl filled
  | cons first others =>
    obtain ⟨rfl, same⟩ := List.cons_eq_cons.mp whole
    rw [← same, List.length_cons, Nat.add_sub_cancel]
    exact congrArg (first :: ·) (congrArg (others ++ ·) List.drop_left.symm)

theorem tags_filled : openTag ≠ [] ∧ closeTag ≠ [] := ⟨List.cons_ne_nil _ _, List.cons_ne_nil _ _⟩

/-- The stretches are the text, cut in pieces. -/
theorem stretchesFrom_whole (own span : Text) (depth : Nat) (rest : Text) (outside : depth = 0 -> span = []) :
    ((stretchesFrom own span depth rest).map Stretch.text).flatten = own ++ span ++ rest := by
  fun_induction stretchesFrom own span depth rest with
  | case1 own span depth empty => simpa using empty
  | case2 own span depth filled => simp [Stretch.text]
  | case3 own span depth char more opens ih =>
    obtain ⟨front, -⟩ := Bool.and_eq_true_iff.mp opens
    rw [ih (fun none => by cases none), tag_cut openTag more char tags_filled.1 front]
    simp
  | case4 own span char more _ closes ih =>
    rw [List.map_append, List.map_cons, List.flatten_append, List.flatten_cons, ih (fun _ => rfl)]
    have cut := tag_cut closeTag more char tags_filled.2 closes.2
    have sender : ((if own = [] then [] else [Stretch.own own]).map Stretch.text).flatten = own := by
      split
      next empty => exact empty.symm
      next => simp [Stretch.text]
    rw [sender, cut]
    simp [Stretch.text]
  | case5 own span depth char more _ closes deeper ih =>
    rw [ih (fun none => absurd closes.1 (by omega)), tag_cut closeTag more char tags_filled.2 closes.2]
    simp
  | case6 own span char more _ _ ih =>
    rw [ih outside, outside rfl]
    simp
  | case7 own span depth char more _ _ deeper ih =>
    rw [ih (fun none => absurd none deeper)]
    simp

/-- A quote is one whole element: what the span so far holds begins with the opening tag. -/
theorem stretchesFrom_quoted (own span : Text) (depth : Nat) (rest : Text) (outside : depth = 0 -> span = [])
    (opened : 0 < depth -> openTag <+: span) (text : Text) (quoted : Stretch.quoted text ∈ stretchesFrom own span depth rest) :
    openTag <+: text ∧ closeTag <:+ text := by
  fun_induction stretchesFrom own span depth rest with
  | case1 => cases quoted
  | case2 => cases List.mem_singleton.mp quoted
  | case3 own span depth char more opens ih =>
    refine ih (fun none => by cases none) (fun _ => ?_) quoted
    cases depth with
    | zero => rw [outside rfl]; exact List.prefix_append _ _
    | succ depth => exact (opened (Nat.succ_pos depth)).trans (List.prefix_append _ _)
  | case4 own span char more _ closes ih =>
    rcases List.mem_append.mp quoted with sender | quoted
    next =>
      split at sender
      next => cases sender
      next => cases List.mem_singleton.mp sender
    next =>
      rcases List.mem_cons.mp quoted with same | quoted
      next =>
        cases same
        exact ⟨(opened Nat.one_pos).trans (List.prefix_append _ _), List.suffix_append _ _⟩
      next => exact ih (fun _ => rfl) (fun none => absurd none (Nat.lt_irrefl 0)) quoted
  | case5 own span depth char more _ closes deeper ih =>
    exact ih (fun none => absurd closes.1 (by omega)) (fun _ => (opened closes.1).trans (List.prefix_append _ _)) quoted
  | case6 own span char more _ _ ih => exact ih outside opened quoted
  | case7 own span depth char more _ _ deeper ih =>
    exact ih (fun none => absurd none deeper)
      (fun _ => (opened (Nat.pos_of_ne_zero deeper)).trans (List.prefix_append _ _)) quoted

theorem find_first (part text : Text) (place : Nat) (found : find part text = some place) :
    part.isPrefixOf (text.drop place) = true ∧ ∀ earlier < place, part.isPrefixOf (text.drop earlier) = false := by
  unfold find at found
  have here := List.find?_some found
  refine ⟨here, fun earlier below => ?_⟩
  obtain ⟨-, index, bound, at_index, before⟩ := List.find?_eq_some_iff_getElem.mp found
  rw [List.getElem_range] at at_index
  have none := before earlier (at_index ▸ below)
  rw [List.getElem_range] at none
  simpa using none

theorem find_apart (char : Char) (text : Text) (place : Nat) (found : find [char] text = some place) : char ∉ text.take place := by
  intro inside
  obtain ⟨index, bound, same⟩ := List.mem_iff_getElem.mp inside
  rw [List.length_take] at bound
  rw [List.getElem_take] at same
  have none := (find_first [char] text place found).2 index (by omega)
  rw [List.drop_eq_getElem_cons (by omega), same] at none
  simp at none

theorem head_take (tag : Text) (count : Nat) (some_count : 0 < count) : (tag.take count).head? = tag.head? := by
  obtain ⟨less, rfl⟩ := Nat.exists_eq_add_of_le' some_count
  cases tag <;> rfl

/-- The mark goes into a tag that is there. -/
theorem mark_cuts (tag : Text) : ∃ front after inserted, tag = front ++ after ∧ front.head? = tag.head? ∧
    inserted ∈ [attributionClass ++ [' '], " class=\"".toList ++ attributionClass ++ ['"']] ∧
    mark tag = front ++ inserted ++ after := by
  unfold mark
  split
  next place _ =>
    exact ⟨_, _, _, (List.take_append_drop (place + 8) tag).symm, head_take tag _ (by omega), List.mem_cons_self, rfl⟩
  next =>
    refine ⟨_, _, _, (List.take_append_drop _ tag).symm, head_take tag _ ?_, List.mem_cons_of_mem _ List.mem_cons_self, rfl⟩
    split <;> omega

theorem markHtmlAttribution_cuts (alphanumeric : Char -> Bool) (own marked : Text)
    (found : markHtmlAttribution alphanumeric own = some marked) :
    ∃ front tag after inserted, own = front ++ tag ++ after ∧ tag.head? = some '<' ∧ '>' ∉ tag ∧
      inserted ∈ [attributionClass ++ [' '], " class=\"".toList ++ attributionClass ++ ['"']] ∧
      marked = front ++ tag ++ inserted ++ after := by
  obtain ⟨start, latest, found⟩ := Option.bind_eq_some_iff.mp found
  obtain ⟨tagEnd, ends, found⟩ := Option.bind_eq_some_iff.mp found
  obtain ⟨close, -, found⟩ := Option.bind_eq_some_iff.mp found
  split at found
  next => cases found
  next =>
    split at found
    next => cases found
    next =>
      cases found
      have opens : (own.drop start).head? = some '<' := by
        obtain ⟨opening, known, last⟩ := List.mem_filterMap.mp (List.max?_mem latest)
        have starts := (List.mem_filter.mp (List.mem_of_getLast? last)).2
        obtain ⟨behind, whole⟩ := List.isPrefixOf_iff_prefix.mp (Bool.and_eq_true_iff.mp starts).1
        rw [← whole]
        rcases List.mem_cons.mp known with rfl | known
        next => rfl
        next => cases List.mem_singleton.mp known; rfl
      have further : 0 < tagEnd := by
        refine Nat.pos_of_ne_zero fun none => ?_
        have first := (find_first _ _ _ ends).1
        rw [none, List.drop_zero] at first
        cases block : own.drop start with
        | nil => rw [block] at opens; cases opens
        | cons char more =>
          rw [block] at opens first
          cases opens
          simp at first
      obtain ⟨front, after, inserted, cut, same, marks, written⟩ := mark_cuts ((own.drop start).take tagEnd)
      rw [head_take _ _ further, opens] at same
      refine ⟨own.take start ++ [], front, after ++ (own.drop start).drop tagEnd, inserted, ?_, same, ?_, marks, ?_⟩
      next =>
        conv_lhs => rw [← List.take_append_drop start own, ← List.take_append_drop tagEnd (own.drop start), cut]
        simp
      next => exact fun inside => find_apart '>' _ _ ends (cut ▸ List.mem_append_left _ inside)
      next => rw [written]; simp

theorem foldFrom_folds (alphanumeric : Char -> Bool) (htmlQuoteLines : Text -> Nat) (stretches : List Stretch) :
    Folds stretches (foldFrom alphanumeric htmlQuoteLines stretches) := by
  induction stretches with
  | nil => exact .none
  | cons stretch rest ih =>
    cases stretch with
    | quoted quoted => exact .quoted quoted (htmlQuoteLines quoted) ih
    | own own =>
      cases rest with
      | nil => exact .own own ih
      | cons next rest =>
        cases next with
        | own other => exact .own own ih
        | quoted quoted =>
          cases found : markHtmlAttribution alphanumeric own with
          | none =>
            have kept : foldFrom alphanumeric htmlQuoteLines (.own own :: .quoted quoted :: rest) =
                own ++ foldFrom alphanumeric htmlQuoteLines (.quoted quoted :: rest) := by
              rw [foldFrom, found]
              rfl
            rw [kept]
            exact .own own ih
          | some marked =>
            obtain ⟨front, tag, after, inserted, rfl, opens, inside, marks, rfl⟩ := markHtmlAttribution_cuts alphanumeric own _ found
            have changed : foldFrom alphanumeric htmlQuoteLines (.own (front ++ tag ++ after) :: .quoted quoted :: rest) =
                front ++ tag ++ inserted ++ after ++ foldFrom alphanumeric htmlQuoteLines (.quoted quoted :: rest) := by
              rw [foldFrom, found]
              rfl
            rw [changed]
            exact .marked front tag after inserted quoted opens inside marks ih

/-- Folding takes nothing away. -/
theorem Folds.sublist {stretches : List Stretch} {html : Text} (folds : Folds stretches html) :
    ((stretches.map Stretch.text).flatten).Sublist html := by
  induction folds with
  | none => exact .refl _
  | own text _ ih => exact ih.append_left text
  | marked front tag after mark quoted _ _ _ _ ih =>
    have here : (front ++ tag ++ after).Sublist (front ++ tag ++ mark ++ after) :=
      (List.sublist_append_left (front ++ tag) mark).append_right after
    exact here.append ih
  | quoted text lines _ ih =>
    have here : text.Sublist (openFold lines ++ text ++ "</details>".toList) :=
      (List.sublist_append_right _ _).trans (List.sublist_append_left _ _)
    exact here.append ih

variable (alphanumeric : Char -> Bool)

def withoutAttribution (own : Text) : Text :=
  let words := own.rdropWhile isWhitespace
  let start := words.length - (words.rtakeWhile (fun char => char != '\n')).length
  if introduces alphanumeric (words.drop start) then own.take start else own

variable (current : Text) {own : Text} (text : Text) {front : Text}

theorem linesFrom_chars (line : Text) (inside : line ∈ Lines.linesFrom current text) :
    ∀ char ∈ line, char ∈ current ∨ char ∈ text := by
  have ended_chars (current : Text) (char : Char) (among : char ∈ Lines.ended current) : char ∈ current := by
    unfold Lines.ended at among
    split at among
    next => exact List.mem_cons_of_mem _ (List.mem_reverse.mp among)
    next => exact List.mem_reverse.mp among
  induction text generalizing current with
  | nil =>
    cases current with
    | nil => cases inside
    | cons first current =>
      rw [List.mem_singleton.mp inside]
      exact fun char among => .inl (List.mem_reverse.mp among)
  | cons next text ih =>
    have step : Lines.linesFrom current (next :: text) =
        if next = '\n' then Lines.ended current :: Lines.linesFrom [] text else Lines.linesFrom (next :: current) text := by
      cases current <;> rfl
    rw [step] at inside
    split at inside
    next =>
      rcases List.mem_cons.mp inside with rfl | inside
      next => exact fun char among => .inl (ended_chars current char among)
      next => exact fun char among => .inr (List.mem_cons_of_mem _ ((ih [] inside char among).resolve_left List.not_mem_nil))
    next =>
      intro char among
      rcases ih (next :: current) inside char among with before | behind
      next => exact (List.mem_cons.mp before).elim (fun same => .inr (same ▸ List.mem_cons_self)) .inl
      next => exact .inr (List.mem_cons_of_mem _ behind)

theorem linesFrom_flat (flat : '\n' ∉ text) (some_char : current ≠ [] ∨ text ≠ []) :
    Lines.linesFrom current text = [current.reverse ++ text] := by
  induction text generalizing current with
  | nil =>
    cases current with
    | nil => simp at some_char
    | cons first current => simp [Lines.linesFrom]
  | cons next text ih =>
    obtain ⟨here, behind⟩ := not_or.mp (List.mem_cons.not.mp flat)
    have step : Lines.linesFrom current (next :: text) = Lines.linesFrom (next :: current) text := by
      cases current <;> simp [Lines.linesFrom, Ne.symm here]
    rw [step, ih (next :: current) behind (.inl (List.cons_ne_nil _ _))]
    simp

theorem trim_blank (blank : ∀ char ∈ text, isWhitespace char = true) : trim text = [] := by
  have bare := Lines.trim_blanks text [] [] blank (by simp)
  rwa [List.append_nil, List.append_nil] at bare

theorem trim_ended : trim (Lines.ended current) = trim current.reverse := by
  unfold Lines.ended
  split
  next before =>
    rw [List.reverse_cons]
    have blank : ∀ char ∈ ['\r'], isWhitespace char = true := fun char inside => List.mem_singleton.mp inside ▸ rfl
    simpa using (Lines.trim_blanks [] before.reverse ['\r'] (by simp) blank).symm
  next => rfl

/-- A line and blanks behind it are that line, and lines of blanks. -/
theorem lines_blanks (last blanks : Text) (flat : '\n' ∉ last) (filled : last ≠ [])
    (blank : ∀ char ∈ blanks, isWhitespace char = true) : ∃ line others,
      Lines.lines (last ++ blanks) = line :: others ∧ trim line = trim last ∧ ∀ other ∈ others, trim other = [] := by
  have trimmed (tail : Text) (within : tail ⊆ blanks) : trim (last ++ tail) = trim last := by
    simpa using Lines.trim_blanks [] last tail (by simp) (fun char among => blank char (within among))
  by_cases feed : '\n' ∈ blanks
  case pos =>
    obtain ⟨front, behind, rfl, apart⟩ := List.eq_append_cons_of_mem feed
    have cut := Lines.linesFrom_append (last ++ front) behind [] (by simp [flat, apart])
    rw [List.append_nil, List.append_assoc] at cut
    refine ⟨_, _, cut, ?_, fun other among => trim_blank other fun char inside => blank char ?_⟩
    · rw [trim_ended, List.reverse_reverse]
      exact trimmed front (List.subset_append_left _ _)
    · have within := (linesFrom_chars [] behind other among char inside).resolve_left List.not_mem_nil
      exact List.mem_append_right _ (List.mem_cons_of_mem _ within)
  case neg =>
    refine ⟨last ++ blanks, [], ?_, trimmed blanks (List.Subset.refl _), fun _ none => by cases none⟩
    exact linesFrom_flat [] _ (by simp [flat, feed]) (.inr (by simp [filled]))

theorem paragraphsFrom_blanks (current : List Text) (blanks : List Text) (blank : ∀ line ∈ blanks, trim line = []) :
    paragraphsFrom current blanks = if current = [] then [] else [current] := by
  induction blanks generalizing current with
  | nil => rfl
  | cons line blanks ih =>
    obtain ⟨here, behind⟩ := List.forall_mem_cons.mp blank
    rw [paragraphsFrom, if_pos here, ih [] behind]
    simp

/-- The last line of words ends the last paragraph, and without it the paragraphs are those of the lines before it. -/
theorem paragraphsFrom_last (current before : List Text) (line : Text) (blanks : List Text) (words : trim line ≠ [])
    (blank : ∀ line ∈ blanks, trim line = []) : ∃ front paragraph,
      paragraphsFrom current (before ++ line :: blanks) = front ++ [paragraph ++ [line]] ∧
      paragraphsFrom current before = front ++ if paragraph = [] then [] else [paragraph] := by
  induction before generalizing current with
  | nil =>
    refine ⟨[], current, ?_, rfl⟩
    rw [List.nil_append, paragraphsFrom, if_neg words, paragraphsFrom_blanks _ _ blank]
    simp
  | cons first before ih =>
    rw [List.cons_append, paragraphsFrom, paragraphsFrom]
    split
    next =>
      obtain ⟨front, paragraph, whole, without⟩ := ih []
      exact ⟨_ ++ front, paragraph, by rw [whole, List.append_assoc], by rw [without, List.append_assoc]⟩
    next => exact ih (current ++ [first])

theorem introduces_trim (line last : Text) (same : trim line = trim last) :
    introduces alphanumeric line = introduces alphanumeric last := by
  unfold introduces
  rw [same]

theorem rdropWhile_getLast (drops : Char -> Bool) (text : Text) (char : Char)
    (final : (text.rdropWhile drops).getLast? = some char) : drops char = false := by
  have filled : text.rdropWhile drops ≠ [] := by
    intro none
    rw [none] at final
    cases final
  rw [List.getLast?_eq_some_getLast filled, Option.some.injEq] at final
  rw [← final]
  simpa using List.rdropWhile_last_not drops text filled

/-- The words before a quote, cut before their last line, and the blanks behind them. -/
structure LastLine (own front last blanks : Text) : Prop where
  whole : own = front ++ (last ++ blanks)
  flat : '\n' ∉ last
  ends : front = [] ∨ front.getLast? = some '\n'
  closed : ∀ char, (front ++ last).getLast? = some char -> isWhitespace char = false
  blank : ∀ char ∈ blanks, isWhitespace char = true

theorem withoutAttribution_cut (own : Text) : ∃ front last blanks, LastLine own front last blanks ∧
    withoutAttribution alphanumeric own = if introduces alphanumeric last then front else own := by
  have blank : ∀ char ∈ own.rtakeWhile isWhitespace, isWhitespace char = true := fun _ => List.mem_rtakeWhile_imp
  have whole : own.rdropWhile isWhitespace ++ own.rtakeWhile isWhitespace = own := List.rdropWhile_append_rtakeWhile ..
  have closed := rdropWhile_getLast isWhitespace own
  unfold withoutAttribution
  generalize own.rdropWhile isWhitespace = words at whole closed ⊢
  generalize own.rtakeWhile isWhitespace = blanks at whole blank
  have broken := rdropWhile_getLast (fun char => char != '\n') words
  have parted : words.rdropWhile (fun char => char != '\n') ++ words.rtakeWhile (fun char => char != '\n') = words :=
    List.rdropWhile_append_rtakeWhile ..
  have flat : '\n' ∉ words.rtakeWhile (fun char => char != '\n') := fun inside => by simpa using List.mem_rtakeWhile_imp inside
  dsimp only
  generalize words.rdropWhile (fun char => char != '\n') = front at parted broken
  generalize words.rtakeWhile (fun char => char != '\n') = last at parted flat ⊢
  subst whole parted
  have ends : front = [] ∨ front.getLast? = some '\n' := by
    cases final : front.getLast? with
    | none => exact .inl (List.getLast?_eq_none_iff.mp final)
    | some char => exact .inr (by simpa using broken char final)
  refine ⟨front, last, blanks, ⟨List.append_assoc .., flat, ends, closed, blank⟩, ?_⟩
  rw [List.length_append, Nat.add_sub_cancel, List.drop_left, List.append_assoc, List.take_left]

theorem LastLine.lines {last blanks : Text} (cut : LastLine own front last blanks) :
    Lines.lines own = Lines.lines front ++ Lines.lines (last ++ blanks) := by
  rw [cut.whole]
  exact TextHtml.lines_ended_append front (last ++ blanks) cut.ends

/-- Words never end in a line break, so without a last line there are none. -/
theorem LastLine.bare {blanks : Text} (cut : LastLine own front [] blanks) : front = [] :=
  cut.ends.resolve_right fun final => by
    have solid := cut.closed '\n' (by rw [List.append_nil, final])
    revert solid
    decide

theorem LastLine.words {last blanks : Text} (cut : LastLine own front last blanks) (filled : last ≠ []) :
    trim last ≠ [] := by
  intro none
  obtain ⟨lead, trail, white, also, split⟩ := Lines.trim_split last
  rw [none, List.nil_append] at split
  have final : (front ++ last).getLast? = some (last.getLast filled) := by
    rw [List.getLast?_append_of_ne_nil _ filled, List.getLast?_eq_some_getLast filled]
  have among : last.getLast filled ∈ lead ++ trail := split ▸ List.getLast_mem filled
  have solid := cut.closed _ final
  rw [(List.mem_append.mp among).elim (white _) (also _)] at solid
  cases solid

theorem paragraphs_blank (blanks : Text) (blank : ∀ char ∈ blanks, isWhitespace char = true) : paragraphs blanks = [] := by
  have lines_blank : ∀ line ∈ Lines.lines blanks, trim line = [] := fun line among => trim_blank line fun char inside =>
    blank char ((linesFrom_chars [] blanks line among char inside).resolve_left List.not_mem_nil)
  unfold paragraphs
  rw [paragraphsFrom_blanks [] _ lines_blank, if_pos rfl]

/-- What is searched of the sender's words before a quote is what is drawn of them, less the line that introduces the quote. -/
theorem withoutAttribution_agrees (own : Text) :
    paragraphs (withoutAttribution alphanumeric own) = (takeAttribution alphanumeric (paragraphs own)).1 := by
  obtain ⟨front, last, blanks, cut, kept⟩ := withoutAttribution_cut alphanumeric own
  rw [kept]
  by_cases filled : last = []
  case pos =>
    subst filled
    have shown : paragraphs own = [] := by
      rw [cut.whole, cut.bare]
      exact paragraphs_blank blanks cut.blank
    have silent : introduces alphanumeric [] = false := rfl
    rw [silent, if_neg Bool.false_ne_true, shown]
    rfl
  case neg =>
    obtain ⟨line, others, listed, same, empty⟩ := lines_blanks last blanks cut.flat filled cut.blank
    have words : trim line ≠ [] := same ▸ cut.words filled
    obtain ⟨before, paragraph, drawn, without⟩ := paragraphsFrom_last [] (Lines.lines front) line others words empty
    have shown : paragraphs own = before ++ [paragraph ++ [line]] := by
      unfold paragraphs
      rw [cut.lines, listed, drawn]
    have taken : takeAttribution alphanumeric (before ++ [paragraph ++ [line]]) =
        if introduces alphanumeric line then (before ++ (if paragraph = [] then [] else [paragraph]), some line)
        else (before ++ [paragraph ++ [line]], none) := by
      unfold takeAttribution
      simp
    rw [shown, taken, introduces_trim alphanumeric line last same]
    split
    next => exact without
    next => exact shown

end Postio.QuoteFolds

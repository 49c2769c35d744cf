import Postio.Body.TextHtml

set_option autoImplicit false

namespace Postio.TextHtml

open Lines (isWhitespace trim trimStart splitWhitespace)
open Markup (Text Token escape spell)

/-! What the HTML of a text shows, and the tags it is written with. -/

/-! ### Words -/

variable {html : Text} (start : Nat) (line front text : Text) (items : List (List Text)) (back : Text)
    (lines : List Text)

theorem splitWhitespace_apart (blank : Char) (is_blank : isWhitespace blank = true) :
    splitWhitespace (front ++ blank :: back) = splitWhitespace front ++ splitWhitespace back := by
  unfold splitWhitespace
  rw [List.splitOnP_append_cons _ _ is_blank, List.filter_append]

theorem splitWhitespace_nil : splitWhitespace [] = [] := rfl

theorem splitWhitespace_blank (blank : Char) (back : Text) (is_blank : isWhitespace blank = true) :
    splitWhitespace (blank :: back) = splitWhitespace back := splitWhitespace_apart [] back blank is_blank

theorem splitWhitespace_blanks (blanks back : Text) (all : ∀ char ∈ blanks, isWhitespace char = true) :
    splitWhitespace (blanks ++ back) = splitWhitespace back := by
  induction blanks with
  | nil => rfl
  | cons blank blanks ih =>
    obtain ⟨is_blank, behind⟩ := List.forall_mem_cons.mp all
    rw [List.cons_append, splitWhitespace_blank blank _ is_blank, ih behind]

theorem splitWhitespace_trim : splitWhitespace (trim text) = splitWhitespace text := by
  obtain ⟨lead, trail, before, after, split⟩ := Lines.trim_split text
  conv_rhs => rw [split, splitWhitespace_blanks lead _ before]
  cases trail with
  | nil => rw [List.append_nil]
  | cons blank trail =>
    obtain ⟨is_blank, behind⟩ := List.forall_mem_cons.mp after
    have none := splitWhitespace_blanks trail [] behind
    rw [List.append_nil, splitWhitespace_nil] at none
    rw [splitWhitespace_apart _ _ blank is_blank, none, List.append_nil]

theorem splitWhitespace_join (blank : Char) (is_blank : isWhitespace blank = true) (lines : List Text) :
    splitWhitespace (List.intercalate [blank] lines) = lines.flatMap splitWhitespace := by
  induction lines with
  | nil => rfl
  | cons line lines ih =>
    cases lines with
    | nil => simp
    | cons next lines =>
      rw [List.intercalate_cons_cons, List.append_assoc, List.singleton_append, splitWhitespace_apart _ _ blank is_blank, ih]
      rfl

/-! ### Tags -/

def isLink (inside : Text) : Bool := "a ".toList.isPrefixOf inside || inside == "/a".toList

/-- What is shown of the body: the characters between tags. A tag that does not belong to a link parts words, the item of a list
draws its own marker, and a summary is no part of the body. -/
def shownFrom (summary : Bool) : List Token -> Text
  | [] => []
  | .sign char :: rest => if summary then shownFrom summary rest else char :: shownFrom summary rest
  | .tag inside :: rest =>
    if inside = "summary".toList then ' ' :: shownFrom true rest
    else if inside = "/summary".toList then ' ' :: shownFrom false rest
    else if inside = "li".toList then ' ' :: '•' :: ' ' :: shownFrom summary rest
    else if isLink inside then shownFrom summary rest
    else ' ' :: shownFrom summary rest

def shown (tokens : List Token) : Text := shownFrom false tokens

/-- The tags that part blocks. -/
inductive BlockTag where
  | pre
  | preEnd
  | bullets
  | bulletsEnd
  | numbers
  | numbersEnd
  | itemEnd
  | attribution
  | attributionEnd
  | fold
  | foldEnd

def BlockTag.name : BlockTag -> String
  | pre => "pre class=\"postio-body-text\""
  | preEnd => "/pre"
  | bullets => "ul class=\"postio-body-list\""
  | bulletsEnd => "/ul"
  | numbers => "ol class=\"postio-body-list\""
  | numbersEnd => "/ol"
  | itemEnd => "/li"
  | attribution => "p class=\"postio-attribution\""
  | attributionEnd => "/p"
  | fold => "details class=\"postio-quote\""
  | foldEnd => "/details"

def BlockTag.inside (tag : BlockTag) : Text := tag.name.toList

def SafeScheme (href : Text) : Prop :=
  "http://".toList <+: href.map Char.toLower ∨ "https://".toList <+: href.map Char.toLower ∨
    "mailto:".toList <+: href.map Char.toLower

/-- The tags that are written. -/
inductive Written : Text -> Prop where
  | block (tag : BlockTag) : Written tag.inside
  | numbered (start : Nat) : Written ("ol class=\"postio-body-list\" start=\"".toList ++ (Nat.toDigits 10 start ++ ['"']))
  | item : Written "li".toList
  | summary : Written "summary".toList
  | summaryEnd : Written "/summary".toList
  | link (href : Text) (scheme : SafeScheme href) (shut : '"' ∉ escape href) : Written ("a href=\"".toList ++ (escape href ++ ['"']))
  | linkEnd : Written "/a".toList

def AllWritten (tokens : List Token) : Prop := ∀ inside, Token.tag inside ∈ tokens -> Written inside

theorem AllWritten.append {front back : List Token} (one : AllWritten front) (other : AllWritten back) :
    AllWritten (front ++ back) :=
  fun inside among => (List.mem_append.mp among).elim (one inside) (other inside)

def Inline (html text : Text) : Prop :=
  ∃ tokens, html = spell tokens ∧ AllWritten tokens ∧ ∀ rest, shown (tokens ++ rest) = text ++ shown rest

def Draws (html : Text) (words : List Text) : Prop :=
  ∃ tokens, html = spell tokens ∧ AllWritten tokens ∧
    ∀ rest, splitWhitespace (shown (tokens ++ rest)) = words ++ splitWhitespace (shown rest)

theorem Inline.append {text more behind : Text} (one : Inline html text) (other : Inline more behind) :
    Inline (html ++ more) (text ++ behind) := by
  obtain ⟨tokens, rfl, written, reads⟩ := one
  obtain ⟨tokens', rfl, written', reads'⟩ := other
  refine ⟨tokens ++ tokens', (Markup.spell_append _ _).symm, written.append written', fun rest => ?_⟩
  rw [List.append_assoc, reads, reads', List.append_assoc]

theorem Draws.append {more : Text} {words behind : List Text} (one : Draws html words) (other : Draws more behind) :
    Draws (html ++ more) (words ++ behind) := by
  obtain ⟨tokens, rfl, written, reads⟩ := one
  obtain ⟨tokens', rfl, written', reads'⟩ := other
  refine ⟨tokens ++ tokens', (Markup.spell_append _ _).symm, written.append written', fun rest => ?_⟩
  rw [List.append_assoc, reads, reads', List.append_assoc]

theorem Draws.nil : Draws [] [] := ⟨[], rfl, (fun _ none => by cases none), fun _ => rfl⟩

theorem Draws.flatMap {A : Type} (items : List A) (write : A -> Text) (words : A -> List Text)
    (each : ∀ item ∈ items, Draws (write item) (words item)) : Draws (items.flatMap write) (items.flatMap words) := by
  induction items with
  | nil => exact .nil
  | cons item items ih =>
    exact (each item List.mem_cons_self).append (ih (fun other inside => each other (List.mem_cons_of_mem _ inside)))

theorem shown_chars (rest : List Token) : shown (text.map .sign ++ rest) = text ++ shown rest := by
  induction text with
  | nil => rfl
  | cons char text ih => exact congrArg (char :: ·) ih

theorem chars_written : AllWritten (text.map .sign) := by
  intro inside among
  obtain ⟨_, -, same⟩ := List.mem_map.mp among
  cases same

/-- Escaped text shows itself. -/
theorem inline_escape : Inline (escape text) text :=
  ⟨text.map .sign, (Markup.spell_chars text).symm, chars_written text, shown_chars text⟩

def Parts (inside : Text) : Prop := Written inside ∧ ∀ rest, shown (.tag inside :: rest) = ' ' :: shown rest

theorem parts_block (tag : BlockTag) : Parts tag.inside := by
  refine ⟨.block tag, fun rest => ?_⟩
  cases tag <;> rfl

theorem parts_numbered :
    Parts ("ol class=\"postio-body-list\" start=\"".toList ++ (Nat.toDigits 10 start ++ ['"'])) := by
  refine ⟨.numbered start, fun rest => ?_⟩
  rfl

def tagText (inside : Text) : Text := '<' :: (inside ++ ['>'])

theorem Draws.tag {inside : Text} (parts : Parts inside) : Draws (tagText inside) [] := by
  refine ⟨[.tag inside], by simp [spell, Token.spell, tagText], ?_, fun rest => ?_⟩
  next =>
    intro other among
    cases List.mem_singleton.mp among
    exact parts.1
  next =>
    rw [List.singleton_append, parts.2, splitWhitespace_blank ' ' _ (by decide)]
    rfl

/-- A line and the tag behind it. -/
theorem Inline.shut {text inside : Text} (line : Inline html text) (parts : Parts inside) :
    Draws (html ++ tagText inside) (splitWhitespace text) := by
  obtain ⟨tokens, rfl, written, reads⟩ := line
  refine ⟨tokens ++ [.tag inside], by rw [Markup.spell_append]; simp [spell, Token.spell, tagText], written.append ?_, fun rest => ?_⟩
  next =>
    intro other among
    cases List.mem_singleton.mp among
    exact parts.1
  next => rw [List.append_assoc, reads, List.singleton_append, parts.2, splitWhitespace_apart _ _ ' ' (by decide)]

/-! ### Links -/

theorem trimTrailingPunctuation_front (token : Text) : trimTrailingPunctuation token <+: token := by
  fun_induction trimTrailingPunctuation token with
  | case1 token drops ih => exact ih.trans (List.dropLast_prefix token)
  | case2 token keeps => exact List.prefix_rfl

theorem lower_append : (front ++ back).map Char.toLower = front.map Char.toLower ++ back.map Char.toLower :=
  List.map_append

theorem matchEmail_some (token address : Text) (matched : matchEmail token = some address) : address = token := by
  unfold matchEmail at matched
  split at matched
  next => cases matched
  next =>
    split at matched
    next => cases matched
    next =>
      split at matched
      next => cases matched
      next => exact (Option.some.inj matched).symm

/-- A link is the front of what it was matched in, and has one of the schemes. -/
theorem matchLink_sound (rest : Text) (link : Link) (matched : matchLink rest = some link) :
    link.text <+: rest ∧ link.text ≠ [] ∧ SafeScheme link.href := by
  have front : trimTrailingPunctuation (tokenAt rest) <+: rest :=
    (trimTrailingPunctuation_front _).trans (List.takeWhile_prefix _)
  unfold matchLink at matched
  dsimp only at matched
  generalize trimTrailingPunctuation (tokenAt rest) = token at matched front
  split at matched
  next => cases matched
  next filled =>
    split at matched
    next http =>
      obtain ⟨after, -, ended⟩ := Option.bind_eq_some_iff.mp matched
      split at ended
      next => cases ended
      next =>
        cases ended
        rw [Bool.or_eq_true, List.isPrefixOf_iff_prefix, List.isPrefixOf_iff_prefix] at http
        exact ⟨front, filled, http.imp_right .inl⟩
    next =>
      split at matched
      next mail =>
        split at matched
        next => cases matched
        next =>
          cases matched
          exact ⟨front, filled, .inr (.inr (List.isPrefixOf_iff_prefix.mp mail))⟩
      next =>
        split at matched
        next =>
          cases matched
          refine ⟨front, filled, .inr (.inl ?_)⟩
          rw [lower_append]
          exact List.prefix_append _ _
        next =>
          obtain ⟨address, email, rfl⟩ := Option.map_eq_some_iff.mp matched
          obtain rfl := matchEmail_some token address email
          refine ⟨front, filled, .inr (.inr ?_)⟩
          rw [lower_append]
          exact List.prefix_append _ _

theorem inline_link (link : Link) (safe : SafeScheme link.href) :
    Inline ("<a href=\"".toList ++ escape link.href ++ "\">".toList ++ escape link.text ++ "</a>".toList) link.text := by
  have shut : '"' ∉ escape link.href := fun inside => (Markup.escape_plain link.href '"' inside).2.2 rfl
  refine ⟨.tag ("a href=\"".toList ++ (escape link.href ++ ['"'])) :: (link.text.map .sign ++ [.tag "/a".toList]), ?_, ?_,
    fun rest => ?_⟩
  next =>
    have chars := Markup.spell_chars link.text
    unfold spell at chars ⊢
    simp [Token.spell, chars]
  next =>
    intro inside among
    rcases List.mem_cons.mp among with opens | among
    next => cases opens; exact .link link.href safe shut
    next =>
      rcases List.mem_append.mp among with char | ends
      next => exact chars_written link.text inside char
      next => cases List.mem_singleton.mp ends; exact .linkEnd
  next =>
    have opens (more : List Token) : shown (.tag ("a href=\"".toList ++ (escape link.href ++ ['"'])) :: more) = shown more := rfl
    have ends (more : List Token) : shown (.tag "/a".toList :: more) = shown more := rfl
    rw [List.cons_append, opens, List.append_assoc, shown_chars, List.singleton_append, ends]

theorem linkifyFrom_inline (before : Option Char) (pending rest : Text) :
    Inline (linkifyFrom before pending rest) (pending ++ rest) := by
  fun_induction linkifyFrom before pending rest with
  | case1 before pending => simpa using inline_escape pending
  | case2 before pending char more link found ih =>
    split at found
    case isFalse => cases found
    obtain ⟨⟨behind, split⟩, filled, safe⟩ := matchLink_sound _ link found
    have cut : more.drop (link.text.length - 1) = behind := by
      cases text : link.text with
      | nil => exact absurd text filled
      | cons first text =>
        rw [text] at split
        rw [← (List.cons_eq_cons.mp split).2, List.length_cons, Nat.add_sub_cancel]
        exact List.drop_left
    rw [cut, List.nil_append] at ih
    rw [cut, ← split]
    have whole := (inline_escape pending).append ((inline_link link safe).append ih)
    simpa only [List.append_assoc] using whole
  | case3 before pending char more none ih => simpa using ih

theorem inline_line : Inline (pushLinkified line) line := linkifyFrom_inline none [] line

theorem inline_join (separator : Char) (plain : Markup.escapeChar separator = [separator]) (lines : List Text) :
    Inline (joinMap [separator] pushLinkified lines) (List.intercalate [separator] lines) := by
  unfold joinMap
  induction lines with
  | nil => exact inline_escape []
  | cons line lines ih =>
    cases lines with
    | nil => simpa using inline_line line
    | cons next lines =>
      have between : Inline [separator] [separator] := by simpa [escape, plain] using inline_escape [separator]
      rw [List.map_cons, List.map_cons, List.intercalate_cons_cons, List.intercalate_cons_cons]
      exact ((inline_line line).append between).append ih

/-! ### Blocks -/

/-- A text behind a tag that draws some words itself, and before one that ends the block. -/
theorem block_draws (opening closing : Text) (before : List Text) (closes : BlockTag) (opened : Draws opening before)
    (closed : closing = tagText closes.inside) (html text : Text) (line : Inline html text) :
    Draws (opening ++ html ++ closing) (before ++ splitWhitespace text) := by
  have whole := opened.append (line.shut (parts_block closes))
  rw [closed, List.append_assoc]
  exact whole

theorem pre_text : "<pre class=\"postio-body-text\">".toList = tagText BlockTag.pre.inside ∧
    "</pre>".toList = tagText BlockTag.preEnd.inside := by simp [tagText, BlockTag.inside, BlockTag.name]

theorem pushPre_draws : Draws (pushPre lines) (lines.flatMap splitWhitespace) := by
  have whole := block_draws _ _ [] .preEnd (pre_text.1 ▸ Draws.tag (parts_block .pre)) pre_text.2 _ _ (inline_join '\n' rfl lines)
  rw [splitWhitespace_join '\n' (by decide)] at whole
  exact whole

theorem item_text : "<li>".toList = tagText "li".toList ∧ "</li>".toList = tagText BlockTag.itemEnd.inside := by
  simp [tagText, BlockTag.inside, BlockTag.name]

theorem item_opens : Draws "<li>".toList [['•']] := by
  refine ⟨[.tag "li".toList], by simp [spell, Token.spell], ?_, fun rest => ?_⟩
  next =>
    intro inside among
    cases List.mem_singleton.mp among
    exact .item
  next => rfl

def itemWords (item : List Text) : List Text := ['•'] :: item.flatMap splitWhitespace

theorem items_draws :
    Draws (items.flatMap (fun item => "<li>".toList ++ joinMap [' '] pushLinkified item ++ "</li>".toList))
      (items.flatMap itemWords) := by
  refine Draws.flatMap items _ _ (fun item _ => ?_)
  have whole := block_draws _ _ _ .itemEnd item_opens item_text.2 _ _ (inline_join ' ' rfl item)
  rw [splitWhitespace_join ' ' (by decide)] at whole
  exact whole

/-- A list, by the tags that open and close it. -/
theorem list_draws {words : List Text} (inner : Draws html words) (inside : Text) (ending : BlockTag)
    (opens : Parts inside) (opening closing : Text) (opened : opening = tagText inside) (closed : closing = tagText ending.inside) :
    Draws (opening ++ html ++ closing) words := by
  subst opened closed
  have whole := ((Draws.tag opens).append inner).append (Draws.tag (parts_block ending))
  rw [List.append_nil] at whole
  exact whole

theorem pushList_bullets (char : Char) (items : List (List Text)) : pushList (.bullet char) items =
    "<ul class=\"postio-body-list\">".toList ++
      items.flatMap (fun item => "<li>".toList ++ joinMap [' '] pushLinkified item ++ "</li>".toList) ++ "</ul>".toList := by
  simp [pushList]

def numbersFrom : Text :=
  if start = 1 then BlockTag.numbers.inside
  else "ol class=\"postio-body-list\" start=\"".toList ++ (Nat.toDigits 10 start ++ ['"'])

theorem parts_numbers : Parts (numbersFrom start) := by
  unfold numbersFrom
  split
  next => exact parts_block .numbers
  next => exact parts_numbered start

theorem pushList_numbers : pushList (.number start) items =
    tagText (numbersFrom start) ++
      items.flatMap (fun item => "<li>".toList ++ joinMap [' '] pushLinkified item ++ "</li>".toList) ++ "</ol>".toList := by
  by_cases one : start = 1
  case pos =>
    have opened : '<' :: "ol".toList ++ " class=\"postio-body-list\"".toList ++ [] ++ ['>'] = tagText (numbersFrom 1) := by
      simp [tagText, numbersFrom, BlockTag.inside, BlockTag.name]
    subst one
    rw [← opened]
    simp [pushList]
  case neg => simp [pushList, numbersFrom, tagText, one]

theorem list_text : "<ul class=\"postio-body-list\">".toList = tagText BlockTag.bullets.inside ∧
    "</ul>".toList = tagText BlockTag.bulletsEnd.inside ∧ "</ol>".toList = tagText BlockTag.numbersEnd.inside := by
  simp [tagText, BlockTag.inside, BlockTag.name]

theorem pushList_draws (kind : ListKind) (items : List (List Text)) :
    Draws (pushList kind items) (items.flatMap itemWords) := by
  have inner := items_draws items
  cases kind with
  | bullet char =>
    rw [pushList_bullets]
    exact list_draws inner _ .bulletsEnd (parts_block .bullets) _ _ list_text.1 list_text.2.1
  | number start =>
    rw [pushList_numbers]
    exact list_draws inner _ .numbersEnd (parts_numbers start) _ _ rfl list_text.2.2

theorem attribution_text : "<p class=\"postio-attribution\">".toList = tagText BlockTag.attribution.inside ∧
    "</p>".toList = tagText BlockTag.attributionEnd.inside := by simp [tagText, BlockTag.inside, BlockTag.name]

theorem attributionHtml_draws : Draws (attributionHtml line) (splitWhitespace line) := by
  have whole := block_draws _ _ [] .attributionEnd (attribution_text.1 ▸ Draws.tag (parts_block .attribution)) attribution_text.2 _ _
    (inline_line (trim line))
  rw [splitWhitespace_trim] at whole
  exact whole

/-! ### Folds -/

theorem escape_plain_text (plain : ∀ char ∈ text, Markup.escapeChar char = [char]) : escape text = text := by
  induction text with
  | nil => rfl
  | cons char text ih =>
    obtain ⟨here, behind⟩ := List.forall_mem_cons.mp plain
    unfold escape at ih ⊢
    rw [List.flatMap_cons, here, ih behind]
    rfl

theorem foldLabel_plain (lines : Nat) : ∀ char ∈ foldLabel lines, Markup.escapeChar char = [char] := by
  intro char among
  unfold foldLabel at among
  split at among
  next => exact @Lines.forall_of_all Char (fun char => Markup.escapeChar char = [char]) _ _ (by simp [Markup.escapeChar]) char among
  next =>
    rcases List.mem_append.mp among with digit | letter
    next =>
      have digit := Nat.isDigit_of_mem_toDigits (by decide) (by decide) digit
      unfold Markup.escapeChar
      split <;> first | rfl | exact absurd digit (by decide)
    next => exact @Lines.forall_of_all Char (fun char => Markup.escapeChar char = [char]) _ _ (by simp [Markup.escapeChar]) char letter

theorem summary_hidden (rest : List Token) : shownFrom true (text.map .sign ++ rest) = shownFrom true rest := by
  induction text with
  | nil => rfl
  | cons char text ih => exact ih

theorem fold_text : "<details class=\"postio-quote\"><summary>".toList = tagText BlockTag.fold.inside ++ tagText "summary".toList ∧
    "</summary>".toList = tagText "/summary".toList ∧ "</details>".toList = tagText BlockTag.foldEnd.inside := by
  simp [tagText, BlockTag.inside, BlockTag.name]

theorem openFold_draws (lines : Nat) : Draws (openFold lines) [] := by
  refine ⟨.tag BlockTag.fold.inside :: .tag "summary".toList :: ((foldLabel lines).map .sign ++ [.tag "/summary".toList]), ?_, ?_,
    fun rest => ?_⟩
  next =>
    have chars := Markup.spell_chars (foldLabel lines)
    rw [escape_plain_text _ (foldLabel_plain lines)] at chars
    unfold openFold
    rw [fold_text.1, fold_text.2.1, List.append_assoc, List.append_assoc]
    unfold spell at chars ⊢
    rw [List.flatMap_cons, List.flatMap_cons, List.flatMap_append, chars]
    rfl
  next =>
    intro inside among
    rcases List.mem_cons.mp among with opens | among
    next => cases opens; exact .block .fold
    next =>
      rcases List.mem_cons.mp among with opens | among
      next => cases opens; exact .summary
      next =>
        rcases List.mem_append.mp among with char | ends
        next => exact chars_written _ inside char
        next => cases List.mem_singleton.mp ends; exact .summaryEnd
  next =>
    have opens (more : List Token) : shown (.tag BlockTag.fold.inside :: .tag "summary".toList :: more) = ' ' :: ' ' :: shownFrom true more := rfl
    have ends (more : List Token) : shownFrom true (.tag "/summary".toList :: more) = ' ' :: shown more := rfl
    rw [List.cons_append, List.cons_append, opens, List.append_assoc, summary_hidden, List.singleton_append, ends]
    simp only [splitWhitespace_blank ' ' _ (by decide)]
    rfl

theorem quotedHtml_draws (quoted : Text) : Draws (quotedHtml quoted) ((Lines.lines quoted).flatMap splitWhitespace) := by
  have whole := ((openFold_draws (textQuoteLines quoted)).append (pushPre_draws (Lines.lines quoted))).append
    (Draws.tag (parts_block .foldEnd))
  rw [← fold_text.2.2, List.append_nil] at whole
  exact whole

/-! ### The words of a body -/

/-- The words of a body as they are shown: line for line, with the marker of an item drawn by its list. -/
inductive Shows : List Text -> List Text -> Prop where
  | none : Shows [] []
  | line (line : Text) {lines words : List Text} (behind : Shows lines words) : Shows (line :: lines) (splitWhitespace line ++ words)
  | item (line : Text) (item : ListKind × Nat × Text) {lines words : List Text} (listed : listItem line = some item)
      (behind : Shows lines words) : Shows (line :: lines) (['•'] :: (splitWhitespace line).tail ++ words)

theorem Shows.append {front back words more : List Text} (one : Shows front words) (other : Shows back more) :
    Shows (front ++ back) (words ++ more) := by
  induction one with
  | none => exact other
  | line line _ ih =>
    rw [List.append_assoc]
    exact .line line ih
  | item line item listed _ ih =>
    rw [List.append_assoc]
    exact .item line item listed ih

theorem Shows.split (front : List Text) {back words : List Text} (whole : Shows (front ++ back) words) :
    ∃ one other, words = one ++ other ∧ Shows front one ∧ Shows back other := by
  induction front generalizing words with
  | nil => exact ⟨[], words, rfl, .none, whole⟩
  | cons line front ih =>
    cases whole with
    | line _ behind =>
      obtain ⟨one, other, rfl, shows, further⟩ := ih behind
      exact ⟨_, other, (List.append_assoc _ _ _).symm, .line line shows, further⟩
    | item _ item listed behind =>
      obtain ⟨one, other, rfl, shows, further⟩ := ih behind
      exact ⟨_, other, (List.append_assoc _ _ _).symm, .item line item listed shows, further⟩

/-- Lines shown as they are. -/
theorem shows_lines : Shows lines (lines.flatMap splitWhitespace) := by
  induction lines with
  | nil => exact .none
  | cons line lines ih => exact .line line ih

theorem shows_blank (blank : trim line = []) {lines words : List Text} (behind : Shows lines words) :
    Shows (line :: lines) words := by
  have none : splitWhitespace line = [] := by rw [← splitWhitespace_trim, blank, splitWhitespace_nil]
  have whole := Shows.line line behind
  rw [none] at whole
  exact whole

/-! ### Lists -/

theorem splitWhitespace_solid (word : Text) (filled : word ≠ []) (solid : ∀ char ∈ word, isWhitespace char = false) :
    splitWhitespace word = [word] := by
  unfold splitWhitespace
  rw [List.splitOnP_eq_singleton solid]
  simp [filled]

/-- A marker is a word of its own. -/
theorem marker_solid (rest behind : Text) (kind : ListKind) (marked : marker rest = some (kind, behind)) :
    ∃ mark, rest = mark ++ behind ∧ mark ≠ [] ∧ ∀ char ∈ mark, isWhitespace char = false := by
  unfold marker at marked
  split at marked
  next => cases marked
  next first more =>
    split at marked
    next bullet =>
      cases marked
      refine ⟨[first], rfl, List.cons_ne_nil _ _, fun char among => ?_⟩
      rw [List.mem_singleton.mp among]
      rcases bullet with rfl | rfl | rfl <;> decide
    next =>
      dsimp only at marked
      split at marked
      next => cases marked
      next mark after dropped =>
        split at marked
        next => cases marked
        next number =>
          cases marked
          obtain ⟨-, -, dotted⟩ := not_or.mp number |>.imp_right not_or.mp
          refine ⟨(first :: more).takeWhile Char.isDigit ++ [mark], ?_, by simp, fun char among => ?_⟩
          next =>
            rw [List.append_assoc, List.singleton_append, ← dropped]
            exact ((List.prefix_iff_eq_append).mp (List.takeWhile_prefix _)).symm
          next =>
            rcases List.mem_append.mp among with digit | last
            next => exact Lines.digit_solid char (List.mem_takeWhile_imp digit)
            next =>
              rw [List.mem_singleton.mp last]
              rcases not_not.mp dotted with rfl | rfl <;> decide

theorem item_words (kind : ListKind) (indent : Nat) (words : Text)
    (listed : listItem line = some (kind, indent, words)) : splitWhitespace words = (splitWhitespace line).tail := by
  obtain ⟨⟨found, behind⟩, marked, rest⟩ := Option.bind_eq_some_iff.mp listed
  dsimp only at rest
  split at rest
  case isFalse => cases rest
  next blank =>
    split at rest
    next => cases rest
    next =>
      cases rest
      obtain ⟨mark, whole, filled, solid⟩ := marker_solid (trimStart line) behind kind marked
      obtain ⟨first, more, rfl, is_blank⟩ : ∃ first more, behind = first :: more ∧ isWhitespace first = true := by
        cases behind with
        | nil => simp at blank
        | cons first more =>
          refine ⟨first, more, rfl, ?_⟩
          rcases blank with space | tab
          next => cases space; decide
          next => cases tab; decide
      have start : splitWhitespace (trimStart line) = splitWhitespace line := by
        conv_rhs => rw [← List.takeWhile_append_dropWhile (p := isWhitespace) (l := line)]
        exact (splitWhitespace_blanks _ _ (fun char among => List.mem_takeWhile_imp among)).symm
      rw [splitWhitespace_trim, ← start, whole, splitWhitespace_apart _ _ first is_blank,
        splitWhitespace_solid mark filled solid, splitWhitespace_blank first more is_blank]
      rfl

theorem list_ended (item : List Text) (taken : Nat) (lines : List Text) (all : List (List Text))
    (count : Nat) (gone : (items ++ [item], taken) = (all, count)) :
    ∃ words, taken ≤ count ∧ Shows (lines.take (count - taken)) words ∧
      all.flatMap itemWords = items.flatMap itemWords ++ (itemWords item ++ words) := by
  cases gone
  exact ⟨[], Nat.le_refl _, by simpa using Shows.none, by simp⟩

/-- What a list takes of the lines behind its first is shown item by item. -/
theorem listFrom_shows (last : ListKind) (indent : Nat) (items : List (List Text)) (item : List Text) (taken : Nat)
    (lines : List Text) (all : List (List Text)) (count : Nat)
    (gone : listFrom last indent items item taken lines = (all, count)) :
    ∃ words, taken ≤ count ∧ Shows (lines.take (count - taken)) words ∧
      all.flatMap itemWords = items.flatMap itemWords ++ (itemWords item ++ words) := by
  induction lines generalizing last indent items item taken with
  | nil => exact list_ended items item taken [] all count gone
  | cons line rest ih =>
    have one_more (words : List Text) (below : taken + 1 ≤ count) (shows : ∀ more, Shows (rest.take (count - (taken + 1))) more ->
        Shows (line :: rest.take (count - (taken + 1))) (words ++ more)) (more : List Text)
        (behind : Shows (rest.take (count - (taken + 1))) more) : Shows ((line :: rest).take (count - taken)) (words ++ more) := by
      have one : count - taken = count - (taken + 1) + 1 := by omega
      rw [one, List.take_succ_cons]
      exact shows more behind
    unfold listFrom at gone
    split at gone
    next kind indented words listed =>
      split at gone
      next =>
        obtain ⟨more, below, behind, same⟩ := ih _ _ _ _ _ gone
        refine ⟨['•'] :: (splitWhitespace line).tail ++ more, Nat.le_of_succ_le below,
          one_more (['•'] :: (splitWhitespace line).tail) below (fun _ => .item line _ listed) more behind, ?_⟩
        rw [same]
        simp [itemWords, item_words line kind indented words listed]
      next => exact list_ended items item taken _ all count gone
    next =>
      split at gone
      next =>
        obtain ⟨more, below, behind, same⟩ := ih _ _ _ _ _ gone
        refine ⟨splitWhitespace line ++ more, Nat.le_of_succ_le below, one_more _ below (fun _ => .line line) more behind, ?_⟩
        rw [same]
        simp [itemWords, splitWhitespace_trim]
      next => exact list_ended items item taken _ all count gone

theorem listAt_shows (kind : ListKind) (items : List (List Text)) (taken : Nat)
    (found : listAt lines = some (kind, items, taken)) : 1 ≤ taken ∧ Shows (lines.take taken) (items.flatMap itemWords) := by
  unfold listAt at found
  split at found
  next => cases found
  next line rest =>
    obtain ⟨⟨first, indent, words⟩, listed, found⟩ := Option.bind_eq_some_iff.mp found
    dsimp only at found
    split at found
    case isFalse => cases found
    next =>
      cases found
      obtain ⟨more, below, behind, same⟩ := listFrom_shows _ indent [] [words] 1 rest _ _ rfl
      refine ⟨below, ?_⟩
      rw [same]
      have shows := Shows.item line _ listed behind
      rw [← item_words line _ indent words listed] at shows
      obtain ⟨left, split⟩ := Nat.exists_eq_add_of_le below
      rw [split, Nat.add_sub_cancel_left] at shows
      rw [split, Nat.add_comm 1 left, List.take_succ_cons]
      simpa [itemWords] using shows

/-! ### Blocks of a body -/

theorem text_draws (text : List Text) : Draws (if text = [] then [] else pushPre text) (text.flatMap splitWhitespace) := by
  split
  next empty => rw [empty]; exact .nil
  next => exact pushPre_draws text

/-- Blocks show the lines before them that are text already, and then the lines they are made of. -/
theorem blocksFrom_draws (text lines : List Text) :
    ∃ words, Draws (blocksFrom text lines) (text.flatMap splitWhitespace ++ words) ∧ Shows lines words := by
  induction text, lines using blocksFrom.induct with
  | case1 =>
    rw [blocksFrom.eq_def]
    exact ⟨[], .nil, .none⟩
  | case2 text filled =>
    rw [blocksFrom.eq_def]
    exact ⟨[], by simpa using text_draws text, .none⟩
  | case3 text line rest kind items taken found ih =>
    obtain ⟨words, draws, shows⟩ := ih
    obtain ⟨some_taken, listed⟩ := listAt_shows _ kind items taken found
    rw [blocksFrom.eq_def]
    simp only [found]
    refine ⟨items.flatMap itemWords ++ words, ?_, ?_⟩
    next =>
      have whole := ((text_draws text).append (pushList_draws kind items)).append draws
      simpa only [List.append_assoc, List.flatMap_nil, List.nil_append] using whole
    next =>
      have cut : (line :: rest).take taken ++ rest.drop (taken - 1) = line :: rest := by
        obtain ⟨left, rfl⟩ := Nat.exists_eq_add_of_le' some_taken
        rw [Nat.add_sub_cancel, List.take_succ_cons, List.cons_append, List.take_append_drop]
      rw [← cut]
      exact listed.append shows
  | case4 text line rest found ih =>
    obtain ⟨words, draws, shows⟩ := ih
    rw [blocksFrom.eq_def]
    simp only [found]
    exact ⟨splitWhitespace line ++ words, by simpa using draws, .line line shows⟩

/-! ### Paragraphs -/

theorem current_flatten (current : List Text) : (if current = [] then [] else [current]).flatten = current := by
  split
  next empty => exact empty.symm
  next => exact List.flatten_singleton

theorem paragraphsFrom_shows (current lines words : List Text) (shows : Shows (paragraphsFrom current lines).flatten words) :
    Shows (current ++ lines) words := by
  induction lines generalizing current words with
  | nil =>
    rw [paragraphsFrom, current_flatten] at shows
    rw [List.append_nil]
    exact shows
  | cons line rest ih =>
    unfold paragraphsFrom at shows
    split at shows
    next blank =>
      rw [List.flatten_append, current_flatten] at shows
      obtain ⟨one, other, rfl, front, back⟩ := Shows.split current shows
      exact front.append (shows_blank line blank (ih [] other back))
    next =>
      have whole := ih (current ++ [line]) words shows
      rwa [List.append_assoc] at whole

theorem paragraphs_draws (paragraphs : List (List Text)) :
    ∃ words, Draws (paragraphs.flatMap pushBlocks) words ∧ Shows paragraphs.flatten words := by
  induction paragraphs with
  | nil => exact ⟨[], .nil, .none⟩
  | cons paragraph paragraphs ih =>
    obtain ⟨words, draws, shows⟩ := blocksFrom_draws [] paragraph
    obtain ⟨more, further, behind⟩ := ih
    exact ⟨words ++ more, draws.append further, shows.append behind⟩

section

variable (alphanumeric : Char -> Bool)

/-- The line that introduces a quote is taken off the end, and nothing else. -/
theorem takeAttribution_flatten (paragraphs : List (List Text)) :
    (takeAttribution alphanumeric paragraphs).1.flatten ++ (takeAttribution alphanumeric paragraphs).2.toList =
      paragraphs.flatten := by
  unfold takeAttribution
  split
  next => simp
  next last held =>
    split
    next => simp
    next line ends =>
      split
      case isFalse => simp
      dsimp only
      rw [List.flatten_append, current_flatten]
      conv_rhs => rw [← List.dropLast_append_getLast? last held, List.flatten_append, List.flatten_singleton,
        ← List.dropLast_append_getLast? line ends]
      exact List.append_assoc _ _ _

theorem ownHtml_draws (own : Text) (quoteNext : Bool) :
    ∃ words, Draws (ownHtml alphanumeric own quoteNext) words ∧ Shows (Lines.lines own) words := by
  have plain (words : List Text) (shows : Shows (paragraphs own).flatten words) : Shows (Lines.lines own) words :=
    paragraphsFrom_shows [] _ words shows
  cases quoteNext with
  | false =>
    obtain ⟨words, draws, shows⟩ := paragraphs_draws (paragraphs own)
    exact ⟨words, by simpa [ownHtml] using draws, plain words shows⟩
  | true =>
    have whole := takeAttribution_flatten alphanumeric (paragraphs own)
    obtain ⟨words, draws, shows⟩ := paragraphs_draws (takeAttribution alphanumeric (paragraphs own)).1
    cases taken : (takeAttribution alphanumeric (paragraphs own)).2 with
    | none =>
      rw [taken, Option.toList_none, List.append_nil] at whole
      rw [whole] at shows
      exact ⟨words, by simpa [ownHtml, taken] using draws, plain words shows⟩
    | some line =>
      rw [taken, Option.toList_some] at whole
      refine ⟨words ++ splitWhitespace line, by simpa [ownHtml, taken] using draws.append (attributionHtml_draws line), plain _ ?_⟩
      rw [← whole]
      exact shows.append (by simpa using shows_lines [line])

theorem stretchesHtml_draws (stretches : List Stretch) : ∃ words, Draws (stretchesHtml alphanumeric stretches) words ∧
    Shows (stretches.flatMap (fun stretch => Lines.lines stretch.text)) words := by
  induction stretches with
  | nil => exact ⟨[], .nil, .none⟩
  | cons stretch rest ih =>
    obtain ⟨more, further, behind⟩ := ih
    cases stretch with
    | own own =>
      obtain ⟨quoteNext, spelled⟩ : ∃ quoteNext, stretchesHtml alphanumeric (.own own :: rest) =
          ownHtml alphanumeric own quoteNext ++ stretchesHtml alphanumeric rest := ⟨_, rfl⟩
      obtain ⟨words, draws, shows⟩ := ownHtml_draws alphanumeric own quoteNext
      rw [spelled]
      exact ⟨words ++ more, draws.append further, shows.append behind⟩
    | quoted quoted => exact ⟨_, (quotedHtml_draws quoted).append further, (shows_lines _).append behind⟩

end

/-! ### Stretches of a body -/

def Inclusive : List Text -> Prop
  | [] => True
  | line :: rest => line ≠ [] ∧ (rest ≠ [] -> line.getLast? = some '\n') ∧ Inclusive rest

theorem splitInclusive_whole : (splitInclusive text).flatten = text ∧ Inclusive (splitInclusive text) := by
  induction text with
  | nil => exact ⟨rfl, trivial⟩
  | cons char rest ih =>
    obtain ⟨whole, inclusive⟩ := ih
    unfold splitInclusive
    split
    next feed => exact ⟨by rw [List.flatten_cons, whole]; rfl, List.cons_ne_nil _ _, fun _ => by rw [feed]; rfl, inclusive⟩
    next =>
      split
      next none =>
        rw [none] at whole
        exact ⟨by rw [← whole]; rfl, List.cons_ne_nil _ _, fun more => absurd rfl more, trivial⟩
      next line more split =>
        rw [split] at whole inclusive
        obtain ⟨filled, ended, further⟩ := inclusive
        refine ⟨by rw [← whole]; rfl, List.cons_ne_nil _ _, fun others => ?_, further⟩
        rw [List.getLast?_cons, ended others]
        rfl

theorem lines_ended_append (ends : front = [] ∨ front.getLast? = some '\n') :
    Lines.lines (front ++ back) = Lines.lines front ++ Lines.lines back := by
  rcases ends with rfl | ends
  next => rfl
  next =>
    rw [← List.dropLast_append_getLast? '\n' ends, List.append_assoc, List.singleton_append]
    exact Lines.lines_cut _ _

theorem stretch_text (quoted : Bool) : (stretch text quoted).text = text := by
  cases quoted <;> rfl

/-- The stretches are the run and the lines behind it, cut only between lines. -/
theorem stretchesFrom_whole (run : Text) (quoted : Option Bool) (lines : List Text) (inclusive : Inclusive lines)
    (start : quoted = none -> run = []) (ends : lines ≠ [] -> run = [] ∨ run.getLast? = some '\n') :
    ((stretchesFrom run quoted lines).map Stretch.text).flatten = run ++ lines.flatten ∧
      (stretchesFrom run quoted lines).flatMap (fun stretch => Lines.lines stretch.text) = Lines.lines (run ++ lines.flatten) := by
  induction lines generalizing run quoted with
  | nil =>
    cases quoted with
    | none => rw [start rfl]; exact ⟨rfl, rfl⟩
    | some quoted => simp [stretchesFrom, stretch_text]
  | cons line rest ih =>
    obtain ⟨filled, ended, further⟩ := inclusive
    have joined : ((stretchesFrom (run ++ line) (some (isQuoteLine line)) rest).map Stretch.text).flatten =
          run ++ (line :: rest).flatten ∧
        (stretchesFrom (run ++ line) (some (isQuoteLine line)) rest).flatMap (fun stretch => Lines.lines stretch.text) =
          Lines.lines (run ++ (line :: rest).flatten) := by
      rw [List.flatten_cons, ← List.append_assoc]
      refine ih _ _ further (fun none => by cases none) (fun more => .inr ?_)
      rw [List.getLast?_append, ended more]
      rfl
    unfold stretchesFrom
    split
    next before =>
      split
      next =>
        obtain ⟨whole, same⟩ := ih line (some (isQuoteLine line)) further (fun none => by cases none) (fun more => .inr (ended more))
        rw [List.map_cons, List.flatten_cons, List.flatMap_cons, stretch_text, whole, same,
          lines_ended_append run _ (ends (List.cons_ne_nil _ _))]
        exact ⟨rfl, rfl⟩
      next => exact joined
    next => exact joined

/-- What is in a tag that is written neither opens nor closes one. -/
theorem written_inside (inside : Text) (written : Written inside) : Markup.Inside inside := by
  have plain (text : Text) (all : text.all (fun char => decide (char ≠ '<' ∧ char ≠ '>')) = true) : Markup.Inside text :=
    Lines.forall_of_all text all
  have append (front back : Text) (one : Markup.Inside front) (other : Markup.Inside back) : Markup.Inside (front ++ back) :=
    fun char among => (List.mem_append.mp among).elim (one char) (other char)
  cases written with
  | block tag => cases tag <;> exact plain _ (by simp [BlockTag.inside, BlockTag.name])
  | numbered start =>
    refine append _ _ (plain _ (by simp)) (append _ _ (fun char among => ?_) (plain _ (by decide)))
    have digit := Nat.isDigit_of_mem_toDigits (by decide) (by decide) among
    constructor <;> rintro rfl <;> exact absurd digit (by decide)
  | item => exact plain _ (by simp)
  | summary => exact plain _ (by simp)
  | summaryEnd => exact plain _ (by simp)
  | link href =>
    refine append _ _ (plain _ (by simp)) (append _ _ (fun char among => ?_) (plain _ (by decide)))
    exact ⟨(Markup.escape_plain href char among).1, (Markup.escape_plain href char among).2.1⟩
  | linkEnd => exact plain _ (by simp)

end Postio.TextHtml

import Mathlib.Algebra.GroupWithZero.Nat
import Postio.Lib.Lines
import Postio.Lib.Markup

set_option autoImplicit false

namespace Postio.TextHtml

open Lines (isWhitespace trim trimStart)
open Markup (Text escape)

/-! A plain text body as HTML. -/

/-! ### Stretches -/

inductive Stretch where
  | own (text : Text)
  | quoted (text : Text)
  deriving DecidableEq

def Stretch.text : Stretch -> Text
  | own text => text
  | quoted text => text

def stretch (text : Text) (quoted : Bool) : Stretch := if quoted then .quoted text else .own text

variable (line rest : Text) (lines : List Text)

def isQuoteLine : Bool := (trimStart line).head? == some '>'

/-- `split_inclusive('\n')`. -/
def splitInclusive : Text -> List Text
  | [] => []
  | char :: rest =>
    if char = '\n' then [char] :: splitInclusive rest
    else match splitInclusive rest with
      | [] => [[char]]
      | line :: more => (char :: line) :: more

/-- The loop of `text_stretches`, with the run since the last stretch. -/
def stretchesFrom (run : Text) (quoted : Option Bool) : List Text -> List Stretch
  | [] => (quoted.map (fun quoted => stretch run quoted)).toList
  | line :: rest =>
    match quoted with
    | some before =>
      if before ≠ isQuoteLine line then stretch run before :: stretchesFrom line (some (isQuoteLine line)) rest
      else stretchesFrom (run ++ line) (some (isQuoteLine line)) rest
    | none => stretchesFrom (run ++ line) (some (isQuoteLine line)) rest

def textStretches (text : Text) : List Stretch := stretchesFrom [] none (splitInclusive text)

/-! ### Links -/

def startsAToken (before : Option Char) : Bool :=
  match before with
  | none => true
  | some before => isWhitespace before || ['(', '[', '{', '<', '"', '\'', ',', ';'].contains before

def tokenAt : Text := rest.takeWhile (fun char => !(isWhitespace char || ['<', '>', '"'].contains char))

def dropsLast (token : Text) : Bool :=
  match token.getLast? with
  | none => false
  | some last =>
    if ['.', ',', ';', ':', '!', '?', '\'', '"'].contains last then true
    else if last = ')' then !token.contains '('
    else if last = ']' then !token.contains '['
    else if last = '}' then !token.contains '{'
    else false

def trimTrailingPunctuation (token : Text) : Text :=
  if dropsLast token then trimTrailingPunctuation token.dropLast else token
termination_by token.length
decreasing_by
  next drops =>
    cases token with
    | nil => cases drops
    | cons char rest => simp

def isAsciiAlphanumeric (char : Char) : Bool := char.isAlpha || char.isDigit

def looksLikeHost (host : Text) : Bool :=
  let host := host.takeWhile (· != '/')
  match Lines.splitOnce '.' host.reverse with
  | none => false
  | some (tld, _) =>
    decide (2 ≤ tld.length) && tld.all Char.isAlpha &&
      host.all (fun char => isAsciiAlphanumeric char || char == '.' || char == '-')

def matchEmail (token : Text) : Option Text :=
  match Lines.splitOnce '@' token with
  | none => none
  | some (front, domain) =>
    if front = [] ∨ domain.contains '@' then none
    else if !front.all (fun char => isAsciiAlphanumeric char || ['.', '_', '%', '+', '-'].contains char) ||
        !looksLikeHost (domain.map Char.toLower) || domain.contains '/' then none
    else some token

structure Link where
  text : Text
  href : Text
  deriving DecidableEq

/-- What follows the first `//`. -/
def afterSlashes : Text -> Option Text
  | '/' :: '/' :: rest => some rest
  | _ :: rest => afterSlashes rest
  | [] => none

def matchLink : Option Link :=
  let token := trimTrailingPunctuation (tokenAt rest)
  if token = [] then none
  else
    let lower := token.map Char.toLower
    if "http://".toList.isPrefixOf lower || "https://".toList.isPrefixOf lower then
      (afterSlashes token).bind (fun after => if after = [] then none else some { text := token, href := token })
    else if "mailto:".toList.isPrefixOf lower then
      if lower.drop 7 = [] then none else some { text := token, href := token }
    else if "www.".toList.isPrefixOf lower && decide (4 < lower.length) && looksLikeHost (lower.drop 4) then
      some { text := token, href := "https://".toList ++ token }
    else (matchEmail token).map (fun address => { text := address, href := "mailto:".toList ++ address })

/-- The loop of `push_linkified`: the character before, what is still to be written, and the rest of the line. -/
def linkifyFrom (before : Option Char) (pending : Text) (rest : Text) : Text :=
  match rest with
  | [] => escape pending
  | char :: more =>
    match (if startsAToken before then matchLink (char :: more) else none) with
    | some link =>
      escape pending ++ "<a href=\"".toList ++ escape link.href ++ "\">".toList ++ escape link.text ++ "</a>".toList ++
        linkifyFrom link.text.getLast? [] (more.drop (link.text.length - 1))
    | none => linkifyFrom (some char) (pending ++ [char]) more
termination_by rest.length
decreasing_by all_goals simp only [List.length_drop, List.length_cons]; omega

def pushLinkified : Text := linkifyFrom none [] line

/-! ### Blocks -/

def joinMap (separator : Text) (write : Text -> Text) (lines : List Text) : Text :=
  List.intercalate separator (lines.map write)

def pushPre : Text :=
  "<pre class=\"postio-body-text\">".toList ++ joinMap ['\n'] pushLinkified lines ++ "</pre>".toList

/-- What kind of list a line is an item of. -/
inductive ListKind where
  | bullet (char : Char)
  | number (number : Nat)
  deriving DecidableEq

def indentOf : Nat := ((line.takeWhile isWhitespace).map Char.utf8Size).sum

/-- The marker that opens a line's words, and what is behind it. -/
def marker : Option (ListKind × Text) :=
  match rest with
  | [] => none
  | first :: more =>
    if first = '-' ∨ first = '*' ∨ first = '•' then some (.bullet first, more)
    else
      let digits := rest.takeWhile Char.isDigit
      match rest.drop digits.length with
      | [] => none
      | mark :: behind =>
        if digits = [] ∨ 3 < digits.length ∨ ¬ (mark = '.' ∨ mark = ')') then none
        else some (.number (digits.foldl (fun number digit => number * 10 + (digit.toNat - 48)) 0), behind)

def listItem : Option (ListKind × Nat × Text) :=
  (marker (trimStart line)).bind (fun (kind, words) =>
    if words.head? = some ' ' ∨ words.head? = some '\t' then
      if trim words = [] then none else some (kind, indentOf line, trim words)
    else none)

def continues : ListKind -> ListKind -> Bool
  | .bullet first, .bullet second => first == second
  | .number first, .number second => second == first + 1
  | _, _ => false

/-- The lines that go on with a list: its items so far, the lines of the last, and how many lines were taken. -/
def listFrom (last : ListKind) (indent : Nat) (items : List (List Text)) (item : List Text) (taken : Nat) :
    List Text -> List (List Text) × Nat
  | [] => (items ++ [item], taken)
  | line :: rest =>
    match listItem line with
    | some (kind, indented, words) =>
      if continues last kind then listFrom kind indented (items ++ [item]) [words] (taken + 1) rest
      else (items ++ [item], taken)
    | none =>
      if indent < indentOf line then listFrom last indent items (item ++ [trim line]) (taken + 1) rest
      else (items ++ [item], taken)

def listAt : Option (ListKind × List (List Text) × Nat) :=
  match lines with
  | [] => none
  | line :: rest =>
    (listItem line).bind (fun (kind, indent, words) =>
      let (items, taken) := listFrom kind indent [] [words] 1 rest
      if 2 ≤ items.length then some (kind, items, taken) else none)

def pushList (kind : ListKind) (items : List (List Text)) : Text :=
  let tag := match kind with
    | .bullet _ => "ul".toList
    | .number _ => "ol".toList
  let start := match kind with
    | .bullet _ => []
    | .number start => if start = 1 then [] else " start=\"".toList ++ Nat.toDigits 10 start ++ ['"']
  '<' :: tag ++ " class=\"postio-body-list\"".toList ++ start ++ ['>'] ++
    items.flatMap (fun item => "<li>".toList ++ joinMap [' '] pushLinkified item ++ "</li>".toList) ++
    "</".toList ++ tag ++ ['>']

/-- The loop of `push_blocks`, with the lines of text since the last block. -/
def blocksFrom (text : List Text) (lines : List Text) : Text :=
  match lines with
  | [] => if text = [] then [] else pushPre text
  | line :: rest =>
    match listAt (line :: rest) with
    | some (kind, items, taken) =>
      (if text = [] then [] else pushPre text) ++ pushList kind items ++ blocksFrom [] (rest.drop (taken - 1))
    | none => blocksFrom (text ++ [line]) rest
termination_by lines.length
decreasing_by all_goals simp only [List.length_drop, List.length_cons]; omega

def pushBlocks : Text := blocksFrom [] lines

/-- The loop of `paragraphs`. -/
def paragraphsFrom (current : List Text) : List Text -> List (List Text)
  | [] => if current = [] then [] else [current]
  | line :: rest =>
    if trim line = [] then (if current = [] then [] else [current]) ++ paragraphsFrom [] rest
    else paragraphsFrom (current ++ [line]) rest

def paragraphs (text : Text) : List (List Text) := paragraphsFrom [] (Lines.lines text)

section

variable (alphanumeric : Char -> Bool)

def introduces (text : Text) : Bool := (trim text).getLast? == some ':' && (trim text).any alphanumeric

def takeAttribution (paragraphs : List (List Text)) : List (List Text) × Option Text :=
  match paragraphs.getLast? with
  | none => (paragraphs, none)
  | some last =>
    match last.getLast? with
    | none => (paragraphs, none)
    | some line =>
      if introduces alphanumeric line then
        (paragraphs.dropLast ++ (if last.dropLast = [] then [] else [last.dropLast]), some line)
      else (paragraphs, none)

/-! ### Folds -/

def hasWords (line : Text) : Bool := line.dropWhile (fun char => char == '>' || isWhitespace char) != []

def textQuoteLines (run : Text) : Nat := ((Lines.lines run).filter hasWords).length

def foldLabel (lines : Nat) : Text :=
  if lines = 1 then "1 quoted line".toList else Nat.toDigits 10 lines ++ " quoted lines".toList

def openFold (lines : Nat) : Text :=
  "<details class=\"postio-quote\"><summary>".toList ++ foldLabel lines ++ "</summary>".toList

/-! ### `text_to_html` -/

def attributionHtml (line : Text) : Text :=
  "<p class=\"postio-attribution\">".toList ++ pushLinkified (trim line) ++ "</p>".toList

def ownHtml (own : Text) (quoteNext : Bool) : Text :=
  let (paragraphs, attribution) :=
    if quoteNext then takeAttribution alphanumeric (paragraphs own) else (paragraphs own, none)
  paragraphs.flatMap pushBlocks ++ (attribution.map attributionHtml).getD []

def quotedHtml (quoted : Text) : Text :=
  openFold (textQuoteLines quoted) ++ pushPre (Lines.lines quoted) ++ "</details>".toList

def stretchesHtml : List Stretch -> Text
  | [] => []
  | .own own :: rest =>
    let quoteNext := match rest with
      | .quoted _ :: _ => true
      | _ => false
    ownHtml alphanumeric own quoteNext ++ stretchesHtml rest
  | .quoted quoted :: rest => quotedHtml quoted ++ stretchesHtml rest

def textToHtml (text : Text) : Text := stretchesHtml alphanumeric (textStretches text)

end

end Postio.TextHtml

import Postio.Lib.Scanner
import Postio.Lib.Separated
import Postio.Search.Dates
import Postio.Search.Sizes

set_option autoImplicit false

namespace Postio.Search

/-! The query parser. Every input parses: a half-typed query is the normal case. -/

/-- What the parser takes from outside: the Unicode tables, and a header's text decoded. -/
structure Env where
  unicode : Unicode
  -- `mime::decode_header_text`
  decode : Text -> Text

/-! ### Words -/

/-- Whether a text is a known operator and its colon, nothing else: what a brace must follow to open a set. -/
def opensSet (before : Text) : Bool :=
  let body := (Lines.stripFront ['-'] before).getD before
  match stripSuffix [':'] body with
  | none => false
  | some keyword => !keyword.contains ':' && !keyword.contains '"' && (Field.parse keyword).isSome

/-- What has been read of a word, and whether a quote and a set are open there. -/
structure Scan where
  before : Text
  inQuotes : Bool
  inSet : Bool

def Scan.next (state : Scan) (char : Char) : Scan :=
  { before := state.before ++ [char]
    inQuotes := if char = '"' then !state.inQuotes else state.inQuotes
    inSet :=
      if char = '{' && !state.inQuotes && !state.inSet && opensSet state.before then true
      else if char = '}' && !state.inQuotes && state.inSet then false
      else state.inSet }

/-- A query's words end at whitespace outside quotes and outside a set's braces. -/
def query : Scanner Char Scan :=
  { blank := Lines.isWhitespace
    start := { before := [], inQuotes := false, inSet := false }
    next := Scan.next
    closed := fun state => !state.inQuotes && !state.inSet
    weight := Char.utf8Size }

/-- A set's members end at whitespace outside quotes. -/
def inner : Scanner Char Bool :=
  { blank := Lines.isWhitespace
    start := false
    next := fun inQuotes char => if char = '"' then !inQuotes else inQuotes
    closed := fun inQuotes => !inQuotes
    weight := Char.utf8Size }

def leavesSetOpen (word : Text) : Bool := (query.state word).inSet

/-! ### Values -/

def isQuote (char : Char) : Bool := char = '"'

variable (env : Env) (value : Text) (today : NaiveDate) (raw : Text)

def unquote : Text := (value.dropWhile isQuote).rdropWhile isQuote

/-- `keyword:value` at the first colon, if no quote opened before it. -/
def splitOperator : Text -> Option (Text × Text)
  | [] => none
  | char :: rest =>
    if char = '"' then none
    else if char = ':' then some ([], rest)
    else (splitOperator rest).map (fun parts => (char :: parts.1, parts.2))

def valueLimit : Nat := 512

def truncate : Nat -> Text -> Text
  | _, [] => []
  | room, char :: rest => if char.utf8Size ≤ room then char :: truncate (room - char.utf8Size) rest else []

def normalizeName (name : Text) : Text := asciiLower (Lines.trim name)

def normalizeValue : Text :=
  truncate valueLimit (Separated.join ' ' (Lines.splitWhitespace (env.decode value)))

def addressList : List Text :=
  ((value.splitOn ',').map Lines.trim).filter (fun address => address ≠ [])

def hasSpellings : List (Text × Single) :=
  [("attach".toList, .hasAttachment), ("attachment".toList, .hasAttachment), ("attachments".toList, .hasAttachment),
    ("file".toList, .hasAttachment), ("files".toList, .hasAttachment), ("action".toList, .hasAction),
    ("actions".toList, .hasAction)]

def isSpellings : List (Text × State) :=
  [("unread".toList, .unread), ("new".toList, .unread), ("read".toList, .read), ("seen".toList, .read),
    ("flagged".toList, .flagged), ("starred".toList, .flagged), ("star".toList, .flagged), ("bulk".toList, .bulk),
    ("automated".toList, .automated)]

/-- What a field makes of a value, if it is usable. -/
def readValue (value : Text) : Field -> Option Single
  | .name field => some (.name field value)
  | .withAddresses => if (addressList value).isEmpty then none else some (.withAddresses (addressList value))
  | .has => hasSpellings.lookup (asciiLower value)
  | .is => (isSpellings.lookup (asciiLower value)).map .is
  | .after => (parseDate env.unicode value today).map .after
  | .before => (parseDate env.unicode value today).map .before
  | .larger => (parseSize value).map .larger
  | .smaller => (parseSize value).map .smaller
  -- Split before its value is unquoted.
  | .header => none

/-- Whether a brace outside quotes closes a set before its last character. -/
def closesEarly (inQuotes : Bool) : Text -> Bool
  | [] => false
  | char :: rest =>
    let inQuotes := if char = '"' then !inQuotes else inQuotes
    char = '}' && !inQuotes || closesEarly inQuotes rest

def member (field : Field) (raw : Text) : Option Single :=
  if raw.head? = some '{' then none
  else if (unquote raw).isEmpty then none
  else readValue env today (unquote raw) field

/-- `{ada tomas}` as a filter: one value is that value's plain filter, two or more a set. -/
def set (field : Field) (raw : Text) : Option Filter :=
  if field.takesSet then
    ((Lines.stripFront ['{'] raw).bind (stripSuffix ['}'])).bind (fun within =>
      if closesEarly false within then none
      else ((inner.raws within).mapM (member env today field)).bind Filter.ofMembers)
  else none

def headerParts : Text × Option Text :=
  match Lines.splitOnce '=' raw with
  | some (name, value) => (name, some value)
  | none => (raw, none)

/-- `header:name`, `header:name=value`, and every half-typed state in between. -/
def header (env : Env) (negated : Bool) (raw : Text) : TokenKind :=
  let name := normalizeName (unquote (headerParts raw).1)
  if name.isEmpty then .unfinished { negated, field := .header, value := raw }
  else
    let value := ((headerParts raw).2.map (fun value => normalizeValue env (unquote value))).filter (fun value => !value.isEmpty)
    .filter { negated, filter := .single (.header name value) }

def operator (negated : Bool) (field : Field) (raw : Text) : TokenKind :=
  if field = .header then header env negated raw
  else if raw.head? = some '{' then
    match set env today field raw with
    | some filter => .filter { negated, filter }
    | none => .unfinished { negated, field, value := raw }
  else
    let value := unquote raw
    if value.isEmpty then .unfinished { negated, field, value }
    else
      match readValue env today value field with
      | some single => .filter { negated, filter := .single single }
      | none => .unfinished { negated, field, value }

/-! ### Tokens -/

def negation : Bool × Text :=
  match raw with
  | '-' :: rest => if rest.isEmpty then (false, raw) else (true, rest)
  | _ => (false, raw)

def operands : Option (Bool × Field × Text) :=
  (splitOperator (negation raw).2).bind (fun parts =>
    (Field.parse parts.1).map (fun field => ((negation raw).1, field, parts.2)))

def meaningless : Bool := raw.all (fun char => char = '-' || char = '"')

def freeText : Option TokenKind :=
  let (negated, body) := negation raw
  if (unquote body).isEmpty then none
  else some (.text { negated, value := unquote body, quoted := body.head? = some '"' })

/-- The token of a word, or none where it carries no meaning at all. -/
def classify : Option TokenKind :=
  if meaningless raw then none
  else
    match operands raw with
    | some (negated, field, value) => some (operator env today negated field value)
    | none => freeText raw

def tokenAt (start : Nat) (raw : Text) (kind : TokenKind) : Token :=
  { span := { start, stop := start + Slices.reach Char.utf8Size raw }, raw, kind }

def parse (input : Text) : ParsedQuery :=
  { input
    tokens := (query.words input).filterMap (fun word => (classify env today word.2).map (tokenAt word.1 word.2)) }

def ParsedQuery.kinds (query : ParsedQuery) : List TokenKind := query.tokens.map Token.kind

theorem parse_kinds (input : Text) : (parse env today input).kinds = (query.raws input).filterMap (classify env today):= by
  unfold ParsedQuery.kinds parse Scanner.raws
  simp only [List.map_filterMap, List.filterMap_map]
  congr 1
  funext word
  simp only [Option.map_map, Function.comp_def, tokenAt, Option.map_id']

end Postio.Search

import Postio.Lib.Lines
import Postio.Lib.Utf8

set_option autoImplicit false

namespace Postio.Vault

open Lines

/-- `i64`. -/
abbrev I64 := { value : Int // -9223372036854775808 ≤ value ∧ value < 9223372036854775808 }

namespace I64

def display (number : I64) : List Char :=
  if number.val < 0 then '-' :: Nat.toDigits 10 number.val.natAbs else Nat.toDigits 10 number.val.natAbs

def ofInt (value : Int) : Option I64 :=
  if fits : -9223372036854775808 ≤ value ∧ value < 9223372036854775808 then some ⟨value, fits⟩ else none

def signed : List Char -> Bool × List Char
  | '-' :: digits => (true, digits)
  | '+' :: digits => (false, digits)
  | digits => (false, digits)

def parse (text : List Char) : Option I64 :=
  let (negative, digits) := signed text
  if digits ≠ [] ∧ digits.all Char.isDigit then
    let magnitude : Int := Nat.ofDigitChars 10 digits 0
    ofInt (if negative then -magnitude else magnitude)
  else none

end I64

/-- Days, with what the date library writes and reads under `%Y-%m-%d`. -/
structure Calendar where
  Date : Type
  year : Date -> Int
  format : Date -> List Char
  parse : List Char -> Option Date

/-- What the library promises for the years of four digits: digits and hyphens, ten in all, that it reads back. -/
structure Calendar.Documented (calendar : Calendar) : Prop where
  plain : ∀ day, 0 ≤ calendar.year day -> calendar.year day ≤ 9999 ->
    (calendar.format day).length = 10 ∧ ∀ char ∈ calendar.format day, char.isDigit = true ∨ char = '-'
  reads : ∀ day, 0 ≤ calendar.year day -> calendar.year day ≤ 9999 -> calendar.parse (calendar.format day) = some day

def link : List Char :=
  ['[', Char.ofNat 0x2709, ']', '(', 'p', 'o', 's', 't', 'i', 'o', ':', '/', '/', 'm', 'e', 's', 's', 'a', 'g', 'e', '/']

def dueSign : Char := Char.ofNat 0x1F4C5

def doneSign : Char := Char.ofNat 0x2705

def signifiers : List Char :=
  [dueSign, doneSign, Char.ofNat 0x23F3, Char.ofNat 0x1F6EB, Char.ofNat 0x2795, Char.ofNat 0x274C, Char.ofNat 0x1F501,
    Char.ofNat 0x23EB, Char.ofNat 0x1F53A, Char.ofNat 0x1F53C, Char.ofNat 0x1F53D, Char.ofNat 0x23EC]

def oneLine (text : List Char) : List Char :=
  List.intercalate [' ']
    (((splitWhitespace text).map (fun word => word.filter (fun char => !signifiers.contains char))).filter
      (fun word => word ≠ []))

variable (calendar : Calendar)

structure Task where
  text : List Char
  message : I64
  due : Option calendar.Date

/-- A task as the vault has it now. -/
structure CapturedTask where
  message : I64
  text : List Char
  due : Option calendar.Date
  finished : Bool
  done : Option calendar.Date

def openMark : List Char := ['-', ' ', '[', ' ', ']', ' ']

def tickedMark : List Char := ['-', ' ', '[', 'x', ']', ' ']

def crossedMark : List Char := ['-', ' ', '[', 'X', ']', ' ']

/-- `- [ ] <text> [✉](postio://message/<id>)`, then the due date when it has one. -/
def Task.line (task : Task calendar) : List Char :=
  openMark ++ oneLine task.text ++ [' '] ++ link ++ task.message.display ++ [')'] ++
    match task.due with
    | some day => [' ', dueSign, ' '] ++ calendar.format day
    | none => []

/-- The first bytes of a text, if they are whole characters. -/
def getBytes : Nat -> List Char -> Option (List Char)
  | 0, _ => some []
  | _ + 1, [] => none
  | count + 1, char :: rest =>
    if char.utf8Size ≤ count + 1 then (getBytes (count + 1 - char.utf8Size) rest).map (fun taken => char :: taken) else none

def dateAfter (fields : List Char) (signifier : Char) : Option calendar.Date :=
  (splitOnce signifier fields).bind (fun parts => (getBytes 10 (trimStart parts.2)).bind calendar.parse)

/-- A line as a task that was captured, if it is one. -/
def captured (line : List Char) : Option (CapturedTask calendar) :=
  let line := trimStart line
  let opening := match stripFront openMark line with
    | some rest => some (false, rest)
    | none => ((stripFront tickedMark line).orElse (fun _ => stripFront crossedMark line)).map (fun rest => (true, rest))
  opening.bind (fun (finished, rest) =>
    (splitText link rest).bind (fun (text, after) =>
      (splitOnce ')' after).bind (fun (id, fields) =>
        (I64.parse id).map (fun message =>
          { message
            text := trim text
            due := dateAfter calendar fields dueSign
            finished
            done := dateAfter calendar fields doneSign }))))

def encode (text : List Char) : ByteArray := (String.ofList text).toByteArray

def append (note text : ByteArray) : ByteArray :=
  let needsNewline := 0 < note.size && note.data.back? ≠ some 10
  note ++ ((if needsNewline then encode ['\n'] else ByteArray.empty) ++ text)

def appendTask (note : ByteArray) (task : Task calendar) : ByteArray := append note (encode (task.line ++ ['\n']))

def read (note : ByteArray) : Option (List Char) := note.utf8Decode?.map Array.toList

def tasks (note : ByteArray) : Option (List (CapturedTask calendar)) :=
  (read note).map (fun text => (lines text).filterMap (captured calendar))

def Task.asCaptured (task : Task calendar) : CapturedTask calendar :=
  { message := task.message, text := oneLine task.text, due := task.due, finished := false, done := none }

/-- A capture that reads back: the note's earlier bytes stand unchanged, one line is added, and of that line one open task is
read, with its message, its due date and its text in one line. -/
structure ReadsBack (note : ByteArray) (task : Task calendar) : Prop where
  kept : ∃ added, appendTask calendar note task = note ++ added
  found : ∃ now earlier, read (appendTask calendar note task) = some now ∧ lines now = earlier ++ [task.line] ∧
    (∀ before, read note = some before -> earlier.length = (lines before).length) ∧
    tasks calendar (appendTask calendar note task) = some (earlier.filterMap (captured calendar) ++ [task.asCaptured])

/-! ### The text in one line -/

/-- A word of a capture's text: not empty, with no whitespace and no signifier. -/
structure Word (word : List Char) : Prop where
  filled : word ≠ []
  solid : ∀ char ∈ word, isWhitespace char = false
  unsigned : ∀ char ∈ word, char ∉ signifiers

theorem oneLine_words (text : List Char) : ∃ words, oneLine text = List.intercalate [' '] words ∧ ∀ word ∈ words, Word word := by
  refine ⟨_, rfl, ?_⟩
  intro word inside
  obtain ⟨among, filled⟩ := List.mem_filter.mp inside
  obtain ⟨source, within, rfl⟩ := List.mem_map.mp among
  have solid := splitOnP_clear isWhitespace text source (List.mem_filter.mp within).1
  refine ⟨of_decide_eq_true filled, ?_, ?_⟩
  next => exact fun char kept => solid char (List.mem_filter.mp kept).1
  next => exact fun char kept => by simpa using (List.mem_filter.mp kept).2

theorem intercalate_chars (words : List (List Char)) (char : Char) (inside : char ∈ List.intercalate [' '] words) :
    char = ' ' ∨ ∃ word ∈ words, char ∈ word := by
  induction words with
  | nil => simp at inside
  | cons word words ih =>
    cases words with
    | nil => exact .inr ⟨word, List.mem_cons_self, by simpa using inside⟩
    | cons second words =>
      rw [List.intercalate_cons_cons] at inside
      rcases List.mem_append.mp inside with inside | later
      next =>
        rcases List.mem_append.mp inside with here | space
        next => exact .inr ⟨word, List.mem_cons_self, here⟩
        next => exact .inl (List.mem_singleton.mp space)
      next =>
        rcases ih later with space | ⟨other, among, within⟩
        next => exact .inl space
        next => exact .inr ⟨other, List.mem_cons_of_mem _ among, within⟩

theorem intercalate_ends (words : List (List Char)) (solid : ∀ word ∈ words, Word word) :
    words = [] ∨ ∃ first rest inner last, List.intercalate [' '] words = first :: rest ∧
      List.intercalate [' '] words = inner ++ [last] ∧ isWhitespace first = false ∧ isWhitespace last = false := by
  induction words with
  | nil => exact .inl rfl
  | cons word words ih =>
    have here := solid word List.mem_cons_self
    obtain ⟨first, rest, rfl⟩ := List.exists_cons_of_ne_nil here.filled
    have opens := here.solid first List.mem_cons_self
    right
    rcases ih (fun other inside => solid other (List.mem_cons_of_mem _ inside)) with rfl | ⟨_, _, inner, last, _, ends, _, solid_last⟩
    next =>
      rcases List.eq_nil_or_concat (first :: rest) with none | ⟨inner, last, read⟩
      next => cases none
      next =>
        rw [List.concat_eq_append] at read
        have among : last ∈ first :: rest := by simp [read]
        exact ⟨first, rest, inner, last, by simp, by simpa using read, opens, here.solid last among⟩
    next =>
      cases words with
      | nil => simp at ends
      | cons second words =>
        rw [List.intercalate_cons_cons]
        exact ⟨first, _, (first :: rest) ++ [' '] ++ inner, last, rfl, by rw [ends, List.append_assoc _ inner],
          opens, solid_last⟩

theorem oneLine_chars (text : List Char) (char : Char) (inside : char ∈ oneLine text) :
    char = ' ' ∨ isWhitespace char = false ∧ char ∉ signifiers := by
  obtain ⟨words, read, solid⟩ := oneLine_words text
  rw [read] at inside
  rcases intercalate_chars words char inside with space | ⟨word, among, within⟩
  next => exact .inl space
  next => exact .inr ⟨(solid word among).solid char within, (solid word among).unsigned char within⟩

theorem oneLine_unfed (text : List Char) : '\n' ∉ oneLine text := by
  intro inside
  rcases oneLine_chars text '\n' inside with same | ⟨solid, _⟩
  next => cases same
  next => exact absurd solid (by decide)

theorem trim_oneLine (text : List Char) : trim (oneLine text ++ [' ']) = oneLine text := by
  obtain ⟨words, read, solid⟩ := oneLine_words text
  have blank : isWhitespace ' ' = true := by decide
  unfold trim trimStart
  rcases intercalate_ends words solid with rfl | ⟨first, rest, inner, last, opens, ends, solid_first, solid_last⟩
  next => simp [read, blank]
  next =>
    rw [read]
    have kept : (List.intercalate [' '] words ++ [' ']).dropWhile isWhitespace = List.intercalate [' '] words ++ [' '] := by
      rw [opens, List.cons_append, List.dropWhile_cons_of_neg (by simp [solid_first])]
    rw [kept, List.rdropWhile_concat_pos _ _ _ blank, ends, List.rdropWhile_concat_neg _ _ _ (by simp [solid_last])]

/-! ### The link and the dates -/

theorem I64.parse_display (number : I64) : I64.parse number.display = some number := by
  obtain ⟨value, low, high⟩ := number
  have digits : Nat.toDigits 10 value.natAbs ≠ [] ∧ (Nat.toDigits 10 value.natAbs).all Char.isDigit = true :=
    ⟨Nat.toDigits_ne_nil, digits_of_toDigits _⟩
  have number : Nat.ofDigitChars 10 (Nat.toDigits 10 value.natAbs) 0 = value.natAbs := Nat.ofDigitChars_ten_toDigits
  have read : I64.ofInt value = some ⟨value, low, high⟩ := dif_pos ⟨low, high⟩
  unfold I64.display I64.parse
  by_cases negative : value < 0
  next =>
    have same : -(value.natAbs : Int) = value := by
      rw [Int.ofNat_natAbs_of_nonpos (Int.le_of_lt negative), Int.neg_neg]
    simp only [if_pos negative, I64.signed, if_pos digits, number, if_true, same, read]
  next =>
    have unsigned : I64.signed (Nat.toDigits 10 value.natAbs) = (false, Nat.toDigits 10 value.natAbs) := by
      unfold I64.signed
      split
      next rest read => exact absurd (read ▸ List.mem_cons_self) (notMem_toDigits '-' (by decide) value.natAbs)
      next rest read => exact absurd (read ▸ List.mem_cons_self) (notMem_toDigits '+' (by decide) value.natAbs)
      next => rfl
    have same : (value.natAbs : Int) = value := Int.natAbs_of_nonneg (Int.not_lt.mp negative)
    simp only [if_neg negative, unsigned, if_pos digits, number, Bool.false_eq_true, if_false, same, read]

theorem display_digits (number : I64) (char : Char) (inside : char ∈ number.display) : char = '-' ∨ char.isDigit = true := by
  unfold I64.display at inside
  split at inside
  next =>
    rcases List.mem_cons.mp inside with sign | inside
    next => exact .inl sign
    next => exact .inr (Nat.isDigit_of_mem_toDigits (by decide) (by decide) inside)
  next => exact .inr (Nat.isDigit_of_mem_toDigits (by decide) (by decide) inside)

theorem plain_char (char : Char) (plain : char = '-' ∨ char.isDigit = true) :
    char.utf8Size = 1 ∧ isWhitespace char = false ∧ char ≠ ')' ∧ char ≠ '\n' ∧ char ≠ '\r' ∧ char ≠ doneSign := by
  rcases plain with rfl | digit
  next => decide
  next =>
    have bounds : 48 ≤ char.toNat ∧ char.toNat ≤ 57 := by
      have between := Bool.and_eq_true_iff.mp digit
      exact ⟨UInt32.le_iff_toNat_le.mp (of_decide_eq_true between.1), UInt32.le_iff_toNat_le.mp (of_decide_eq_true between.2)⟩
    have apart : ∀ other : Char, 57 < other.toNat ∨ other.toNat < 48 -> char ≠ other := by
      rintro other far rfl
      omega
    refine ⟨?_, ?_, apart ')' (by decide), apart '\n' (by decide), apart '\r' (by decide), apart doneSign (by decide)⟩
    next =>
      apply Char.utf8Size_eq_one_iff.mpr
      rw [UInt32.le_iff_toNat_le]
      change char.toNat ≤ 127
      omega
    next =>
      unfold isWhitespace
      simp only [Bool.or_eq_false_iff, Bool.and_eq_false_iff, decide_eq_false_iff_not, List.contains_eq_mem]
      simp
      omega

theorem getBytes_plain (text : List Char) (plain : ∀ char ∈ text, char.utf8Size = 1) :
    getBytes text.length text = some text := by
  induction text with
  | nil => rfl
  | cons char text ih =>
    have one := plain char List.mem_cons_self
    have further := ih (fun other inside => plain other (List.mem_cons_of_mem _ inside))
    simp only [List.length_cons, getBytes, one]
    rw [if_pos (by omega), Nat.add_sub_cancel, further]
    rfl

def dueField : Option calendar.Date -> List Char
  | some day => [' ', dueSign, ' '] ++ calendar.format day
  | none => []

theorem Task.line_read (task : Task calendar) :
    task.line = openMark ++ (oneLine task.text ++ ' ' :: (link ++ (task.message.display ++ ')' :: dueField calendar task.due))) := by
  unfold Task.line dueField
  simp only [List.append_assoc, List.singleton_append]
  rfl

variable (documented : calendar.Documented)

variable (note : ByteArray) (text : List Char) (task : Task calendar)

def Task.InRange : Prop := ∀ day, task.due = some day -> 0 ≤ calendar.year day ∧ calendar.year day ≤ 9999

include documented in
theorem due_reads (within : task.InRange) :
    dateAfter calendar (dueField calendar task.due) dueSign = task.due := by
  unfold dateAfter
  cases read : task.due with
  | none => rfl
  | some day =>
    obtain ⟨low, high⟩ := within day read
    obtain ⟨ten, plain⟩ := documented.plain day low high
    have chars : ∀ char ∈ calendar.format day, char = '-' ∨ char.isDigit = true := fun char inside => (plain char inside).symm
    have cut : splitOnce dueSign (dueField calendar (some day)) = some ([' '], ' ' :: calendar.format day) :=
      splitOnce_append dueSign [' '] (' ' :: calendar.format day) (by decide)
    have trimmed : trimStart (' ' :: calendar.format day) = calendar.format day := by
      unfold trimStart
      rw [List.dropWhile_cons_of_pos (by decide)]
      cases written : calendar.format day with
      | nil => rfl
      | cons char rest =>
        have solid := (plain_char char (chars char (written ▸ List.mem_cons_self))).2.1
        rw [List.dropWhile_cons_of_neg (by simp [solid])]
    have taken : getBytes 10 (calendar.format day) = some (calendar.format day) := by
      rw [← ten]
      exact getBytes_plain _ (fun char inside => (plain_char char (chars char inside)).1)
    rw [cut, Option.bind_some]
    dsimp only
    rw [trimmed, taken, Option.bind_some, documented.reads day low high]

include documented in
theorem done_absent (within : task.InRange) :
    dateAfter calendar (dueField calendar task.due) doneSign = none := by
  unfold dateAfter
  rw [splitOnce_none, Option.bind_none]
  intro inside
  unfold dueField at inside
  split at inside
  next day read =>
    rcases List.mem_append.mp inside with field | written
    next => exact absurd field (by decide)
    next =>
      obtain ⟨low, high⟩ := within day read
      exact (plain_char doneSign ((documented.plain day low high).2 doneSign written).symm).2.2.2.2.2 rfl
  next => cases inside

/-! ### A captured line -/

theorem captured_open (rest : List Char) :
    captured calendar (openMark ++ rest) = (splitText link rest).bind (fun (text, after) =>
      (splitOnce ')' after).bind (fun (id, fields) =>
        (I64.parse id).map (fun message =>
          { message
            text := trim text
            due := dateAfter calendar fields dueSign
            finished := false
            done := dateAfter calendar fields doneSign }))) := by
  have opens : trimStart (openMark ++ rest) = openMark ++ rest := by
    unfold trimStart openMark
    rw [List.cons_append, List.dropWhile_cons_of_neg (by decide)]
  unfold captured
  simp only [opens, stripFront_append, Option.bind_some]

include documented in
theorem captured_line (within : task.InRange) (clean : ¬ link.IsInfix (oneLine task.text)) :
    captured calendar task.line = some task.asCaptured := by
  have cut : splitText link (oneLine task.text ++ ' ' :: (link ++ (task.message.display ++ ')' :: dueField calendar task.due))) =
      some (oneLine task.text ++ [' '], task.message.display ++ ')' :: dueField calendar task.due) :=
    splitText_delimited link (oneLine task.text) _ ' ' clean (by decide)
  have closed : ')' ∉ task.message.display := by
    intro inside
    exact (plain_char ')' (display_digits task.message ')' inside)).2.2.1 rfl
  rw [Task.line_read, captured_open, cut, Option.bind_some]
  dsimp only
  rw [splitOnce_append ')' task.message.display _ closed, Option.bind_some]
  dsimp only
  rw [I64.parse_display, Option.map_some, trim_oneLine, due_reads calendar documented task within,
    done_absent calendar documented task within]
  rfl

theorem trim_length : (trim text).length ≤ text.length := by
  unfold trim trimStart
  exact le_trans (List.rdropWhile_prefix _ _).length_le (List.length_dropWhile_le _ _)

theorem captured_linked (linked : link.IsInfix (oneLine task.text)) (found : CapturedTask calendar)
    (read : captured calendar task.line = some found) : found.text ≠ oneLine task.text := by
  rw [Task.line_read, captured_open] at read
  obtain ⟨⟨text, after⟩, cut, fits⟩ := splitText_within link (oneLine task.text)
    (' ' :: (link ++ (task.message.display ++ ')' :: dueField calendar task.due))) linked
  rw [cut, Option.bind_some] at read
  dsimp only at read fits
  obtain ⟨⟨id, fields⟩, _, read⟩ := Option.bind_eq_some_iff.mp read
  obtain ⟨message, _, rfl⟩ := Option.map_eq_some_iff.mp read
  intro same
  have short := trim_length text
  have some_link : link.length = 21 := rfl
  change trim text = oneLine task.text at same
  rw [same] at short
  omega

include documented in
theorem line_whole (within : task.InRange) : Whole task.line := by
  have sign : ∀ char ∈ [' ', dueSign, ' '], char ≠ '\n' ∧ char ≠ '\r' := by simp [dueSign]
  have chars : ∀ char ∈ dueField calendar task.due, char ≠ '\n' ∧ char ≠ '\r' := by
    intro char inside
    unfold dueField at inside
    split at inside
    next day read =>
      rcases List.mem_append.mp inside with field | written
      next => exact sign char field
      next =>
        obtain ⟨low, high⟩ := within day read
        have plain := plain_char char ((documented.plain day low high).2 char written).symm
        exact ⟨plain.2.2.2.1, plain.2.2.2.2.1⟩
    next => cases inside
  have id : '\n' ∉ task.message.display := fun inside => (plain_char '\n' (display_digits task.message '\n' inside)).2.2.2.1 rfl
  rw [Task.line_read]
  constructor
  next =>
    simp only [List.mem_append, List.mem_cons, not_or]
    exact ⟨by decide, oneLine_unfed task.text, by decide, by decide, id, by decide, fun inside => (chars '\n' inside).1 rfl⟩
  next =>
    intro last
    have within_tail : (')' :: dueField calendar task.due).getLast? = some '\r' := by
      simpa [List.getLast?_append, List.getLast?_cons] using last
    rcases List.mem_cons.mp (List.mem_of_getLast? within_tail) with same | inside
    next => cases same
    next => exact (chars '\r' inside).2 rfl

/-! ### The note it is appended to -/

theorem encode_read : encode text = text.utf8Encode := String.toByteArray_ofList

theorem encode_append (other : List Char) : encode (text ++ other) = encode text ++ encode other := by
  simp [encode_read]

def gap : List Char := if 0 < note.size ∧ note.data.back? ≠ some 10 then ['\n'] else []

theorem append_read : append note (encode text) = note ++ encode (gap note ++ text) := by
  unfold append gap
  rw [encode_append]
  simp only [Bool.and_eq_true, decide_eq_true_eq]
  split
  next => rfl
  next => simp [encode_read]

theorem read_encode : read (encode text) = some text := by
  simp [read, encode_read]

theorem gap_encode (before : List Char) :
    gap (encode before) = if before ≠ [] ∧ before.getLast? ≠ some '\n' then ['\n'] else [] := by
  unfold gap
  rw [encode_read]
  simp only [Utf8.size_utf8Encode, ne_eq, Utf8.back_utf8Encode]

theorem lines_appended (before line : List Char) (whole : Whole line) :
    ∃ earlier, lines (before ++ gap (encode before) ++ (line ++ ['\n'])) = earlier ++ [line] ∧
      earlier.length = (lines before).length := by
  have last : lines (line ++ ['\n']) = [line] := lines_append line [] whole
  rw [gap_encode]
  split
  next open_ended =>
    refine ⟨lines (before ++ ['\n']), ?_, lines_ended before open_ended.1 open_ended.2⟩
    rw [List.append_assoc, List.singleton_append, lines_cut, last]
  next closed =>
    refine ⟨lines before, ?_, rfl⟩
    rw [List.append_nil]
    by_cases none : before = []
    next => rw [none]; exact last
    next =>
      obtain ⟨inner, rfl⟩ : ∃ inner, before = inner ++ ['\n'] := by
        rcases List.eq_nil_or_concat before with empty | ⟨inner, char, rfl⟩
        next => exact absurd empty none
        next =>
          rw [List.concat_eq_append] at closed ⊢
          simp only [ne_eq, not_false_eq_true, List.getLast?_concat, Option.some.injEq, true_and, not_not,
            List.append_eq_nil_iff, List.cons_ne_nil, and_false] at closed
          exact ⟨inner, by rw [closed]⟩
      rw [List.append_assoc, List.singleton_append, lines_cut, last]

theorem appendTask_read :
    appendTask calendar note task = note ++ encode (gap note ++ (task.line ++ ['\n'])) := append_read note _

theorem appendTask_text (now : List Char) (text : read (appendTask calendar note task) = some now) : note.IsValidUTF8:= by
  have decodes : ((appendTask calendar note task).utf8Decode?).isSome = true := by
    have some_now := congrArg Option.isSome text
    simpa [read] using some_now
  have valid := ByteArray.isSome_utf8Decode?_iff.mp decodes
  rw [appendTask_read, encode_read] at valid
  exact Utf8.valid_of_append note _ (by simp) valid

theorem ReadsBack.line (back : ReadsBack calendar note task) :
    captured calendar task.line = some task.asCaptured := by
  obtain ⟨now, earlier, text, split, _, found⟩ := back.found
  unfold tasks at found
  rw [text, Option.map_some, split, List.filterMap_append] at found
  have last : [task.line].filterMap (captured calendar) = [task.asCaptured] :=
    List.append_cancel_left (Option.some.inj found)
  cases parsed : captured calendar task.line with
  | none => simp [parsed] at last
  | some other => simpa [parsed] using last

include documented in
/-- A captured task reads back where the note is text and the task's text, in one line, has no message link in it, and only
there. -/
theorem appendTask_readsBack (within : task.InRange) :
    ReadsBack calendar note task <-> note.IsValidUTF8 ∧ ¬ link.IsInfix (oneLine task.text) := by
  constructor
  next =>
    intro back
    obtain ⟨now, _, text, _⟩ := back.found
    refine ⟨appendTask_text calendar note task now text, ?_⟩
    exact fun linked => captured_linked calendar task linked task.asCaptured (back.line calendar note task) rfl
  next =>
    rintro ⟨⟨before, rfl⟩, clean⟩
    rw [← encode_read]
    have whole := line_whole calendar documented task within
    obtain ⟨earlier, split, same⟩ := lines_appended before task.line whole
    have now : read (appendTask calendar (encode before) task) =
        some (before ++ gap (encode before) ++ (task.line ++ ['\n'])) := by
      rw [appendTask_read, ← encode_append, read_encode, List.append_assoc]
    refine ⟨⟨_, appendTask_read calendar (encode before) task⟩, _, earlier, now, split, ?_, ?_⟩
    next =>
      intro other text
      rw [read_encode] at text
      cases text
      exact same
    next =>
      unfold tasks
      rw [now, Option.map_some, split, List.filterMap_append]
      simp [captured_line calendar documented task within clean]

/-! Days of four-digit years, written out. -/

structure Day where
  year : Fin 10000
  month : Fin 100
  day : Fin 100
  deriving DecidableEq

def digit (number : Nat) : Char := Char.ofNat (48 + number % 10)

def digitOf (char : Char) : Nat := char.toNat - 48

def formatDay (day : Day) : List Char :=
  [digit (day.year / 1000), digit (day.year / 100), digit (day.year / 10), digit day.year, '-', digit (day.month / 10),
    digit day.month, '-', digit (day.day / 10), digit day.day]

def parseDay : List Char -> Option Day
  | [y, e, a, r, '-', m, o, '-', d, t] =>
    some { year := Fin.ofNat 10000 (1000 * digitOf y + 100 * digitOf e + 10 * digitOf a + digitOf r)
           month := Fin.ofNat 100 (10 * digitOf m + digitOf o)
           day := Fin.ofNat 100 (10 * digitOf d + digitOf t) }
  | _ => none

def civil : Calendar := { Date := Day, year := fun day => (day.year.val : Int), format := formatDay, parse := parseDay }

theorem digit_read (number : Nat) : (digit number).isDigit = true ∧ digitOf (digit number) = number % 10 := by
  have all : ∀ rest < 10, (Char.ofNat (48 + rest)).isDigit = true ∧ (Char.ofNat (48 + rest)).toNat - 48 = rest := by decide
  exact all (number % 10) (Nat.mod_lt _ (by decide))

theorem parseDay_formatDay (day : Day) : parseDay (formatDay day) = some day := by
  obtain ⟨year, month, day⟩ := day
  simp only [formatDay, parseDay, digit_read, Option.some.injEq, Day.mk.injEq]
  refine ⟨Fin.ext ?_, Fin.ext ?_, Fin.ext ?_⟩
  next => simp; omega
  next => simp; omega
  next => simp; omega

theorem civil_documented : civil.Documented where
  plain day _ _ := by
    refine ⟨rfl, ?_⟩
    change ∀ char ∈ formatDay day, _
    intro char inside
    simp only [formatDay, List.mem_cons, List.not_mem_nil, or_false] at inside
    rcases inside with rfl | rfl | rfl | rfl | rfl | rfl | rfl | rfl | rfl | rfl <;> simp [digit_read]
  reads day _ _ := parseDay_formatDay day

def linkedTask : Task civil := { text := link ++ ['7', ')'], message := ⟨9, by decide⟩, due := none }

def plainTask : Task civil :=
  { text := ['[', 'a', ']', '\n', dueSign, ' ', '('], message := ⟨9, by decide⟩, due := some { year := 2026, month := 1, day := 2 } }

/-- It is read as a task of the other message, without its text. -/
theorem linkedTask_misread : ¬ ReadsBack civil (encode []) linkedTask ∧
    (captured civil linkedTask.line).map (fun task => (task.message.val, task.text)) = some (7, []) := by
  refine ⟨?_, by decide⟩
  intro back
  have inside : link.IsInfix (oneLine linkedTask.text) := by decide
  exact captured_linked civil linkedTask inside linkedTask.asCaptured (back.line civil (encode []) linkedTask) rfl

theorem plainTask_readsBack : ReadsBack civil (encode ['x']) plainTask := by
  apply (appendTask_readsBack civil civil_documented (encode ['x']) plainTask ?_).mpr
  next => exact ⟨⟨['x'], encode_read ['x']⟩, by decide⟩
  next =>
    intro day _
    exact ⟨by change (0 : Int) ≤ (day.year.val : Int); omega, by change (day.year.val : Int) ≤ 9999; omega⟩

end Postio.Vault

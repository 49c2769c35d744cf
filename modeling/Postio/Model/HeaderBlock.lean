import Mathlib.Data.List.Basic
import Mathlib.Data.List.Infix
import Postio.Lib.Utf8

set_option autoImplicit false

namespace Postio.HeaderBlock

open Utf8 (fromUtf8Lossy)

/-! The header block that is stored of a raw message. -/

abbrev Bytes := List UInt8

def lf : UInt8 := 10

def cr : UInt8 := 13

/-! ### `block_of` -/

/-- The first place where `needle` stands, as `windows` and `position` find it. -/
def position (needle : Bytes) : Bytes -> Option Nat
  | [] => none
  | byte :: rest => if needle.isPrefixOf (byte :: rest) then some 0 else (position needle rest).map (· + 1)

variable (raw : Bytes) (byte : UInt8) (whole block : Bytes) (start : Nat) (needle : Bytes)

def findSeparator : Option Nat :=
  match position [cr, lf, cr, lf] raw with
  | some found => some found
  | none => position [lf, lf] raw

def looksLikeAField : Bool :=
  let first := raw.takeWhile (· != lf)
  match first.findIdx? (· == 58) with
  | some colon => decide (0 < colon) && !(first.take colon).contains 32
  | none => false

def stripLast (raw : Bytes) : Bytes := if raw.getLast? = some byte then raw.dropLast else raw

def trimLineBreak : Bytes := stripLast cr (stripLast lf raw)

def blockLimit : Nat := 256 * 1024

/-- The last place where a byte stands. -/
def rposition (byte : UInt8) : Bytes -> Option Nat
  | [] => none
  | first :: rest =>
    match rposition byte rest with
    | some later => some (later + 1)
    | none => if first = byte then some 0 else none

def cutToLimit : Option Bytes :=
  if block.length ≤ blockLimit then none
  else (rposition lf (block.take (blockLimit + 1))).map (fun boundary => trimLineBreak (block.take boundary))

structure Block where
  text : Bytes
  truncated : Bool
deriving DecidableEq, Repr

/-- What `block_of` takes for the header, before it is cut. -/
def uncut : Option Bytes :=
  match findSeparator raw with
  | some stop => some (raw.take stop)
  | none => if looksLikeAField raw then some (trimLineBreak raw) else none

def blockOf : Option Block :=
  (uncut raw).map (fun block =>
    match cutToLimit block with
    | some cut => { text := fromUtf8Lossy cut, truncated := true }
    | none => { text := fromUtf8Lossy block, truncated := false })

/-! ### What the block is to be -/

def emptyLineAt : Bool :=
  (start == 0 || raw[start - 1]? == some lf) &&
    ([lf].isPrefixOf (raw.drop start) || [cr, lf].isPrefixOf (raw.drop start))

def firstEmptyLine : Option Nat := (List.range raw.length).find? (emptyLineAt raw)

def header : Option Bytes :=
  match firstEmptyLine raw with
  | some start => some (trimLineBreak (raw.take start))
  | none => if looksLikeAField raw then some (trimLineBreak raw) else none

def IsBreak (kept ending : Bytes) : Prop := ending = [cr, lf] ∨ ending = [lf] ∧ kept.getLast? ≠ some cr

def Unfolded (rest : Bytes) : Prop := ∀ byte ∈ rest.head?, byte ≠ 32 ∧ byte ≠ 9

/-- A header too long to be stored is cut where a field ends. -/
structure CutAt (whole kept ending rest : Bytes) : Prop where
  parts : whole = kept ++ ending ++ rest
  ended : IsBreak kept ending
  unfolded : Unfolded rest

def Kept (kept : Bytes) : Prop := kept = whole ∨ blockLimit < whole.length ∧ ∃ ending rest, CutAt whole kept ending rest

def Stores (block : Block) : Prop :=
  ∃ kept, Kept whole kept ∧ block.text = fromUtf8Lossy kept ∧ block.text.length ≤ blockLimit ∧
    (block.truncated = true <-> kept ≠ whole)

def Faithful : Prop :=
  match header raw, blockOf raw with
  | none, none => True
  | some whole, some block => Stores whole block
  | _, _ => False

/-! ### Where needles stand -/

theorem position_some (raw : Bytes) (found : Nat) (stands : position needle raw = some found) :
    needle <+: raw.drop found ∧ found ≤ raw.length ∧ ∀ earlier < found, ¬ needle <+: raw.drop earlier := by
  induction raw generalizing found with
  | nil => cases stands
  | cons byte rest ih =>
    rw [position] at stands
    split at stands
    next here =>
      obtain rfl := Option.some.inj stands
      exact ⟨List.isPrefixOf_iff_prefix.mp here, Nat.zero_le _, fun _ before => absurd before (Nat.not_lt_zero _)⟩
    next apart =>
      obtain ⟨later, among, rfl⟩ := Option.map_eq_some_iff.mp stands
      obtain ⟨stands, within, first⟩ := ih later among
      refine ⟨stands, Nat.succ_le_succ within, fun earlier before => ?_⟩
      cases earlier with
      | zero => exact fun here => apart (List.isPrefixOf_iff_prefix.mpr here)
      | succ earlier => exact first earlier (Nat.lt_of_succ_lt_succ before)

theorem position_none (raw : Bytes) (filled : needle ≠ []) (nowhere : position needle raw = none) (place : Nat) :
    ¬ needle <+: raw.drop place := by
  induction raw generalizing place with
  | nil => simpa using filled
  | cons byte rest ih =>
    rw [position] at nowhere
    split at nowhere
    next => cases nowhere
    next apart =>
      cases place with
      | zero => exact fun here => apart (List.isPrefixOf_iff_prefix.mpr here)
      | succ place => exact ih (Option.map_eq_none_iff.mp nowhere) place

/-- The first separator that is found, by either spelling. -/
theorem position_of (raw : Bytes) (found : Nat) (filled : needle ≠ []) (stands : needle <+: raw.drop found)
    (first : ∀ earlier < found, ¬ needle <+: raw.drop earlier) : position needle raw = some found := by
  cases read : position needle raw with
  | none => exact absurd stands (position_none needle raw filled read found)
  | some other =>
    obtain ⟨there, -, before⟩ := position_some needle raw other read
    rcases Nat.lt_trichotomy other found with sooner | rfl | later
    next => exact absurd there (first other sooner)
    next => rfl
    next => exact absurd stands (before found later)

/-- The last place of a byte parts the bytes where it stands no more. -/
theorem rposition_cases (raw : Bytes) : (rposition byte raw = none ∧ byte ∉ raw) ∨
      ∃ front back, raw = front ++ byte :: back ∧ byte ∉ back ∧ rposition byte raw = some front.length := by
  induction raw with
  | nil => exact .inl ⟨rfl, List.not_mem_nil⟩
  | cons first rest ih =>
    rcases ih with ⟨none, absent⟩ | ⟨front, back, rfl, absent, found⟩
    next =>
      by_cases here : first = byte
      case pos => exact .inr ⟨[], rest, by rw [here]; rfl, absent, by simp [rposition, none, here]⟩
      case neg => exact .inl ⟨by simp [rposition, none, here], by simp [absent, Ne.symm here]⟩
    next => exact .inr ⟨first :: front, back, rfl, absent, by simp [rposition, found]⟩

/-! ### Line breaks -/

theorem stripLast_cases (raw : Bytes) :
    raw = stripLast byte raw ++ [byte] ∨ stripLast byte raw = raw ∧ raw.getLast? ≠ some byte := by
  unfold stripLast
  split
  next last =>
    left
    obtain ⟨front, rfl⟩ := List.getLast?_eq_some_iff.mp last
    rw [List.dropLast_concat]
  next other => exact .inr ⟨rfl, other⟩

/-- A line loses its break. -/
theorem trim_break (last : raw.getLast? = some lf) :
    ∃ ending, raw = trimLineBreak raw ++ ending ∧ IsBreak (trimLineBreak raw) ending := by
  rcases stripLast_cases lf raw with feed | ⟨-, other⟩
  case inr => exact absurd last other
  rcases stripLast_cases cr (stripLast lf raw) with carriage | ⟨same, other⟩
  next =>
    refine ⟨[cr, lf], ?_, .inl rfl⟩
    conv_lhs => rw [feed, carriage]
    rw [List.append_assoc]
    rfl
  next =>
    refine ⟨[lf], ?_, .inr ⟨rfl, by rw [trimLineBreak, same]; exact other⟩⟩
    rw [trimLineBreak, same]
    exact feed

theorem trim_front (front : Bytes) (other : front.getLast? ≠ some lf) :
    ∃ ending, front ++ [lf] = trimLineBreak front ++ ending ∧ IsBreak (trimLineBreak front) ending := by
  rcases stripLast_cases lf front with feed | ⟨same, -⟩
  case inl => exact absurd (by rw [feed]; simp) other
  rw [trimLineBreak, same]
  rcases stripLast_cases cr front with carriage | ⟨kept, apart⟩
  next =>
    refine ⟨[cr, lf], ?_, .inl rfl⟩
    conv_lhs => rw [carriage]
    rw [List.append_assoc]
    rfl
  next =>
    rw [kept]
    exact ⟨[lf], rfl, .inr ⟨rfl, apart⟩⟩

theorem trim_initial : trimLineBreak raw <+: raw ∧ raw.length ≤ (trimLineBreak raw).length + 2 := by
  have strip : ∀ byte bytes, stripLast byte bytes <+: bytes ∧ bytes.length ≤ (stripLast byte bytes).length + 1 := by
    intro byte bytes
    rcases stripLast_cases byte bytes with cut | ⟨same, -⟩
    next =>
      refine ⟨⟨[byte], cut.symm⟩, ?_⟩
      conv_lhs => rw [cut]
      simp
    next =>
      rw [same]
      exact ⟨List.prefix_rfl, Nat.le_succ _⟩
  have first := strip lf raw
  have second := strip cr (stripLast lf raw)
  refine ⟨second.1.trans first.1, ?_⟩
  have short := second.2
  have shorter := first.2
  unfold trimLineBreak
  omega

/-! ### The first empty line -/

theorem firstEmptyLine_some (first : firstEmptyLine raw = some start) :
    emptyLineAt raw start = true ∧ ∀ earlier < start, emptyLineAt raw earlier = false := by
  obtain ⟨here, -, before⟩ := List.find?_range_eq_some.mp first
  exact ⟨here, fun earlier sooner => by simpa using before earlier sooner⟩

theorem firstEmptyLine_none (full : firstEmptyLine raw = none) (start : Nat) : emptyLineAt raw start = false := by
  by_cases within : start < raw.length
  case pos => simpa using List.find?_range_eq_none.mp full start within
  case neg =>
    have beyond : raw.drop start = [] := List.drop_eq_nil_of_le (Nat.le_of_not_lt within)
    simp [emptyLineAt, beyond]

/-- A line opens behind a line feed, and it is empty before a break. -/
theorem emptyLineAt_after (rest : Bytes) (place : Nat) (stands : raw.drop place = lf :: rest)
    (empty : [lf] <+: rest ∨ [cr, lf] <+: rest) : emptyLineAt raw (place + 1) = true := by
  have opens : raw[place]? = some lf := by rw [← List.head?_drop, stands]; rfl
  have behind : raw.drop (place + 1) = rest := by rw [← List.tail_drop, stands]; rfl
  simp only [emptyLineAt, Nat.add_sub_cancel, opens, behind, beq_self_eq_true, Bool.or_true, Bool.true_and, Bool.or_eq_true,
    List.isPrefixOf_iff_prefix]
  exact empty

theorem emptyLine_crlf (place : Nat) (stands : [cr, lf, cr, lf] <+: raw.drop place) :
    emptyLineAt raw (place + 2) = true := by
  obtain ⟨rest, whole⟩ := stands
  refine emptyLineAt_after raw (cr :: lf :: rest) (place + 1) ?_ (.inr ⟨rest, rfl⟩)
  rw [← List.tail_drop, ← whole]
  rfl

theorem emptyLine_lf (place : Nat) (stands : [lf, lf] <+: raw.drop place) :
    emptyLineAt raw (place + 1) = true := by
  obtain ⟨rest, whole⟩ := stands
  exact emptyLineAt_after raw (lf :: rest) place whole.symm (.inl ⟨rest, rfl⟩)

/-- A message apart at its first empty line: what is kept of the header, the break behind it, the empty line, and the body. -/
structure Apart (raw whole ending blank body : Bytes) : Prop where
  parts : raw = whole ++ ending ++ blank ++ body
  empty : blank = [lf] ∨ blank = [cr, lf]
  ended : whole = [] ∧ ending = [] ∨ IsBreak whole ending
  first : ∀ earlier < (whole ++ ending).length, emptyLineAt raw earlier = false

theorem header_apart (first : firstEmptyLine raw = some start) :
    ∃ whole ending blank body, header raw = some whole ∧ Apart raw whole ending blank body := by
  obtain ⟨here, before⟩ := firstEmptyLine_some raw start first
  simp only [emptyLineAt, Bool.and_eq_true, Bool.or_eq_true, List.isPrefixOf_iff_prefix, beq_iff_eq] at here
  obtain ⟨opens, empty⟩ := here
  obtain ⟨blank, body, cut, spelled⟩ : ∃ blank body, raw.drop start = blank ++ body ∧ (blank = [lf] ∨ blank = [cr, lf]) := by
    rcases empty with ⟨body, whole⟩ | ⟨body, whole⟩
    next => exact ⟨[lf], body, whole.symm, .inl rfl⟩
    next => exact ⟨[cr, lf], body, whole.symm, .inr rfl⟩
  have within : start ≤ raw.length := by
    by_contra beyond
    rw [List.drop_eq_nil_of_le (by omega)] at cut
    rcases spelled with rfl | rfl <;> cases cut
  have read : header raw = some (trimLineBreak (raw.take start)) := by rw [header, first]
  rcases opens with rfl | last
  next =>
    refine ⟨[], [], blank, body, by rw [read]; rfl, ⟨by simpa using cut, spelled, .inl ⟨rfl, rfl⟩, by simp⟩⟩
  next =>
    cases start with
    | zero => refine ⟨[], [], blank, body, by rw [read]; rfl, ⟨by simpa using cut, spelled, .inl ⟨rfl, rfl⟩, by simp⟩⟩
    | succ place =>
      have feed : (raw.take (place + 1)).getLast? = some lf := by
        rw [Nat.add_sub_cancel] at last
        rw [List.take_add_one, last]
        simp
      obtain ⟨ending, split, ended⟩ := trim_break _ feed
      refine ⟨_, ending, blank, body, read, ⟨?_, spelled, .inr ended, ?_⟩⟩
      next => rw [← split, List.append_assoc, ← cut, List.take_append_drop]
      next =>
        rw [← split, List.length_take, Nat.min_eq_left within]
        exact before

/-- No line within the header is empty. -/
theorem header_plain (read : header raw = some whole) (place : Nat) : ¬ [lf, lf] <+: whole.drop place := by
  intro stands
  have within : place + 2 ≤ whole.length := by
    have long := stands.length_le
    rw [List.length_drop] at long
    change 2 ≤ _ at long
    omega
  have among (front : whole <+: raw) : emptyLineAt raw (place + 1) = true := by
    obtain ⟨behind, rfl⟩ := front
    refine emptyLine_lf _ place ?_
    rw [List.drop_append_of_le_length (by omega)]
    exact stands.trans (List.prefix_append _ _)
  cases first : firstEmptyLine raw with
  | none =>
    simp only [header, first] at read
    split at read
    next =>
      cases read
      exact absurd (among (trim_initial raw).1) (by rw [firstEmptyLine_none raw first]; simp)
    next => cases read
  | some start =>
    obtain ⟨other, ending, blank, body, same, apart⟩ := header_apart raw start first
    cases read.symm.trans same
    have before := apart.first (place + 1) (by rw [List.length_append]; omega)
    exact absurd (among ⟨ending ++ blank ++ body, by rw [apart.parts]; simp⟩) (by rw [before]; simp)

/-! ### What is taken for the header -/

theorem findSeparator_some (found : Nat) (read : findSeparator raw = some found) :
    ([cr, lf, cr, lf] <+: raw.drop found ∨ [lf, lf] <+: raw.drop found ∧ ∀ place, ¬ [cr, lf, cr, lf] <+: raw.drop place) ∧
      found ≤ raw.length := by
  unfold findSeparator at read
  split at read
  next other stands =>
    cases read
    have there := position_some _ raw found stands
    exact ⟨.inl there.1, there.2.1⟩
  next nowhere =>
    have there := position_some _ raw found read
    exact ⟨.inr ⟨there.1, position_none _ raw (by decide) nowhere⟩, there.2.1⟩

theorem findSeparator_none (read : findSeparator raw = none) (place : Nat) :
    ¬ [cr, lf, cr, lf] <+: raw.drop place ∧ ¬ [lf, lf] <+: raw.drop place := by
  unfold findSeparator at read
  split at read
  next => cases read
  next nowhere => exact ⟨position_none _ raw (by decide) nowhere place, position_none _ raw (by decide) read place⟩

theorem separator_empty (found : Nat) (read : findSeparator raw = some found) :
    emptyLineAt raw (found + 2) = true ∨ emptyLineAt raw (found + 1) = true := by
  rcases (findSeparator_some raw found read).1 with both | ⟨feeds, -⟩
  next => exact .inl (emptyLine_crlf raw found both)
  next => exact .inr (emptyLine_lf raw found feeds)

/-- Where no line is empty, what is taken is the header. -/
theorem uncut_whole (full : firstEmptyLine raw = none) : uncut raw = header raw := by
  have nowhere : findSeparator raw = none := by
    cases read : findSeparator raw with
    | none => rfl
    | some found =>
      have none := firstEmptyLine_none raw full
      rcases separator_empty raw found read with empty | empty
      next => rw [none] at empty; cases empty
      next => rw [none] at empty; cases empty
  rw [uncut, nowhere, header, full]

/-- A message that opens with an empty line has no field. -/
theorem field_blank (blank body : Bytes) (empty : blank = [lf] ∨ blank = [cr, lf]) : looksLikeAField (blank ++ body) = false := by
  rcases empty with rfl | rfl
  next => rfl
  next => rfl

/-- What is taken starts with the header. Where it is more than that, a break comes next. -/
theorem uncut_front (read : header raw = some whole) (taken : uncut raw = some block) :
    block = whole ∨ ∃ byte, (byte = cr ∨ byte = lf) ∧ whole ++ [byte] <+: block := by
  cases first : firstEmptyLine raw with
  | none =>
    rw [uncut_whole raw first, read] at taken
    exact .inl (Option.some.inj taken).symm
  | some start =>
    obtain ⟨other, ending, blank, body, same, apart⟩ := header_apart raw start first
    cases read.symm.trans same
    -- The first byte behind the header is one of a break.
    obtain ⟨byte, more, sign, behind⟩ : ∃ byte more, (byte = cr ∨ byte = lf) ∧ raw = whole ++ byte :: more := by
      rcases apart.ended with ⟨rfl, rfl⟩ | rfl | ⟨rfl, -⟩
      next =>
        rcases apart.empty with rfl | rfl
        next => exact ⟨lf, body, .inr rfl, apart.parts⟩
        next => exact ⟨cr, lf :: body, .inl rfl, apart.parts⟩
      next => exact ⟨cr, lf :: (blank ++ body), .inl rfl, by rw [apart.parts]; simp⟩
      next => exact ⟨lf, blank ++ body, .inr rfl, by rw [apart.parts]; simp⟩
    have reaches : block <+: raw -> whole.length ≤ block.length ->
        block = whole ∨ ∃ byte, (byte = cr ∨ byte = lf) ∧ whole ++ [byte] <+: block := by
      rintro ⟨rest, split⟩ long
      obtain ⟨gap, rfl⟩ := List.prefix_of_prefix_length_le ⟨byte :: more, behind.symm⟩ ⟨rest, split⟩ long
      cases gap with
      | nil => exact .inl (List.append_nil _)
      | cons next gap =>
        rw [behind, List.append_assoc] at split
        obtain ⟨rfl, -⟩ := List.cons_eq_cons.mp (List.append_cancel_left split)
        exact .inr ⟨_, sign, ⟨gap, by simp⟩⟩
    have long := congrArg List.length apart.parts
    simp only [List.length_append] at long
    unfold uncut at taken
    split at taken
    next stop stands =>
      cases taken
      refine reaches (List.take_prefix _ _) ?_
      obtain ⟨stands, within⟩ := findSeparator_some raw stop stands
      rw [List.length_take, Nat.min_eq_left within]
      have before (place : Nat) (empty : emptyLineAt raw place = true) : whole.length + ending.length ≤ place := by
        by_contra sooner
        have none := apart.first place (by rw [List.length_append]; omega)
        rw [none] at empty
        cases empty
      rcases stands with both | ⟨feeds, -⟩
      next =>
        have room := before (stop + 2) (emptyLine_crlf raw stop both)
        rcases apart.ended with ⟨rfl, -⟩ | rfl | ⟨rfl, other⟩
        next => exact Nat.zero_le _
        next => simpa using room
        next =>
          -- A header that reached one byte further would end with the carriage return of its own break.
          by_contra beyond
          have length : whole.length = stop + 1 := by simp only [List.length_singleton] at room; omega
          have carriage : raw[stop]? = some cr := by
            obtain ⟨tail, cut⟩ := both
            rw [← List.head?_drop, ← cut]
            rfl
          refine other ?_
          rw [List.getLast?_eq_getElem?, length, Nat.add_sub_cancel, ← carriage, behind,
            List.getElem?_append_left (by omega)]
      next =>
        have room := before (stop + 1) (emptyLine_lf raw stop feeds)
        rcases apart.ended with ⟨rfl, -⟩ | rfl | ⟨rfl, -⟩
        next => exact Nat.zero_le _
        next => simp only [List.length_cons, List.length_nil] at room; omega
        next => simp only [List.length_singleton] at room; omega
    next =>
      split at taken
      next =>
        cases taken
        refine reaches (trim_initial raw).1 ?_
        have short := (trim_initial raw).2
        rcases apart.ended with ⟨rfl, -⟩ | rfl | ⟨rfl, -⟩
        next => exact Nat.zero_le _
        next => simp only [List.length_cons, List.length_nil] at long; omega
        next =>
          have filled : 0 < blank.length := by rcases apart.empty with rfl | rfl <;> decide
          simp only [List.length_singleton] at long
          omega
      next => cases taken

def Alike : Prop :=
  firstEmptyLine raw = none ∨ whole ++ [cr, lf, cr, lf] <+: raw ∨
    whole ++ [lf, lf] <+: raw ∧ ∀ place, ¬ [cr, lf, cr, lf] <+: raw.drop place

/-- A pair of breaks behind the header is the first pair spelled so. -/
theorem position_header (ending blank body needle : Bytes) (sign : UInt8) (more : Bytes)
    (apart : Apart raw whole ending blank body) (spelled : needle = sign :: more) (stands : whole ++ needle <+: raw)
    (empties : ∀ place, needle <+: raw.drop place -> emptyLineAt raw (place + ending.length) = true) :
    position needle raw = some whole.length := by
  subst spelled
  refine position_of _ raw whole.length (by simp) ?_ (fun earlier sooner there => ?_)
  next =>
    obtain ⟨rest, split⟩ := stands
    rw [← split, List.append_assoc, List.drop_left]
    exact List.prefix_append _ _
  next =>
    have none := apart.first (earlier + ending.length) (by rw [List.length_append]; omega)
    rw [empties earlier there] at none
    cases none

theorem take_header (stands : whole ++ needle <+: raw) : raw.take whole.length = whole := by
  obtain ⟨rest, split⟩ := stands
  rw [← split, List.append_assoc, List.take_left]

/-- What is taken is the header exactly where the two breaks are spelled alike. -/
theorem uncut_exact (read : header raw = some whole) : uncut raw = some whole <-> Alike raw whole := by
  cases first : firstEmptyLine raw with
  | none =>
    rw [uncut_whole raw first, read]
    exact iff_of_true rfl (.inl first)
  | some start =>
    obtain ⟨other, ending, blank, body, same, apart⟩ := header_apart raw start first
    cases read.symm.trans same
    constructor
    next =>
      intro taken
      unfold uncut at taken
      split at taken
      next stop found =>
        have joined (needle : Bytes) (stands : needle <+: raw.drop stop) : whole ++ needle <+: raw := by
          obtain ⟨rest, split⟩ := stands
          refine ⟨rest, ?_⟩
          rw [← Option.some.inj taken, List.append_assoc, split, List.take_append_drop]
        rcases (findSeparator_some raw stop found).1 with both | ⟨feeds, nowhere⟩
        next => exact .inr (.inl (joined _ both))
        next => exact .inr (.inr ⟨joined _ feeds, nowhere⟩)
      next nowhere =>
        split at taken
        next field =>
          -- Both breaks would have to be the one that is trimmed.
          have short := (trim_initial raw).2
          have long := congrArg List.length apart.parts
          rw [Option.some.inj taken] at short
          simp only [List.length_append] at long
          rcases apart.ended with ⟨rfl, rfl⟩ | rfl | ⟨rfl, -⟩
          next =>
            rw [apart.parts, List.nil_append, List.nil_append, field_blank blank body apart.empty] at field
            cases field
          next =>
            have filled : 0 < blank.length := by rcases apart.empty with rfl | rfl <;> decide
            simp only [List.length_cons, List.length_nil] at long
            omega
          next =>
            rcases apart.empty with rfl | rfl
            next =>
              refine absurd ?_ (findSeparator_none raw nowhere whole.length).2
              rw [apart.parts, List.append_assoc, List.append_assoc, List.drop_left]
              exact ⟨body, rfl⟩
            next =>
              simp only [List.length_cons, List.length_nil] at long
              omega
        next => cases taken
    next =>
      rintro (none | both | ⟨feeds, nowhere⟩)
      next => rw [first] at none; cases none
      next =>
        have found : position [cr, lf, cr, lf] raw = some whole.length := by
          obtain ⟨rest, split⟩ := both
          rcases apart.ended with ⟨rfl, rfl⟩ | rfl | ⟨rfl, -⟩
          next => exact position_of _ raw 0 (by simp) ⟨rest, split⟩ (by simp)
          next =>
            exact position_header raw whole _ blank body _ cr _ apart rfl ⟨rest, split⟩
              (fun place stands => emptyLine_crlf raw place stands)
          next =>
            rw [apart.parts, List.append_assoc, List.append_assoc, List.append_assoc] at split
            cases (List.cons_eq_cons.mp (List.append_cancel_left split)).1
        rw [uncut, findSeparator, found]
        exact congrArg some (take_header raw whole _ both)
      next =>
        have none : position [cr, lf, cr, lf] raw = none := by
          cases found : position [cr, lf, cr, lf] raw with
          | none => rfl
          | some place => exact absurd (position_some _ raw place found).1 (nowhere place)
        have found : position [lf, lf] raw = some whole.length := by
          obtain ⟨rest, split⟩ := feeds
          rcases apart.ended with ⟨rfl, rfl⟩ | rfl | ⟨rfl, -⟩
          next => exact position_of _ raw 0 (by simp) ⟨rest, split⟩ (by simp)
          next =>
            rw [apart.parts, List.append_assoc, List.append_assoc, List.append_assoc] at split
            cases (List.cons_eq_cons.mp (List.append_cancel_left split)).1
          next =>
            exact position_header raw whole _ blank body _ lf _ apart rfl ⟨rest, split⟩
              (fun place stands => emptyLine_lf raw place stands)
        rw [uncut, findSeparator, none, found]
        exact congrArg some (take_header raw whole _ feeds)

/-! ### Where a header is cut -/

theorem break_ascii (sign : byte = cr ∨ byte = lf) : byte < 0x80 := by
  rcases sign with rfl | rfl
  next => decide
  next => decide

theorem text_longer (kept longer : Bytes) (byte : UInt8) (sign : byte = cr ∨ byte = lf) (front : kept ++ [byte] <+: longer) :
    (fromUtf8Lossy kept).length < (fromUtf8Lossy longer).length := by
  obtain ⟨rest, rfl⟩ := front
  rw [List.append_assoc, List.singleton_append, Utf8.fromUtf8Lossy_append kept rest byte (break_ascii byte sign),
    List.length_append, List.length_cons]
  omega

/-- The last break of which all is within the limit. -/
structure LastBreak (whole kept ending rest : Bytes) : Prop where
  parts : whole = kept ++ ending ++ rest
  ended : IsBreak kept ending
  within : (kept ++ ending).length ≤ blockLimit + 1
  last : lf ∉ rest.take (blockLimit + 1 - (kept ++ ending).length)

/-- A break that came later would stand in the rest. -/
theorem last_unique {whole kept ending rest kept' ending' rest' : Bytes} (one : LastBreak whole kept ending rest)
    (other : LastBreak whole kept' ending' rest') : (kept' ++ ending').length ≤ (kept ++ ending).length := by
  by_contra longer
  have ahead : kept ++ ending <+: whole := ⟨rest, one.parts.symm⟩
  have behind : kept' ++ ending' <+: whole := ⟨rest', other.parts.symm⟩
  obtain ⟨gap, joined⟩ := List.prefix_of_prefix_length_le ahead behind (by omega)
  have split : rest = gap ++ rest' := by
    have same := one.parts.symm.trans other.parts
    rw [← joined, List.append_assoc (kept ++ ending)] at same
    exact List.append_cancel_left same
  have feed : gap.getLast? = some lf := by
    have last : (kept' ++ ending').getLast? = some lf := by rcases other.ended with rfl | ⟨rfl, -⟩ <;> simp
    rw [← joined, List.getLast?_append] at last
    cases gap with
    | nil => rw [← joined, List.append_nil] at longer; exact absurd (Nat.le_refl _) longer
    | cons first gap => rw [List.getLast?_cons] at last ⊢; exact last
  have room := other.within
  rw [← joined, List.length_append] at room
  refine one.last ?_
  rw [split, List.take_append, List.take_of_length_le (by omega)]
  exact List.mem_append_left _ (List.mem_of_getLast? feed)

/-- What is before a whole break is told from what is with it. -/
theorem break_unique {kept ending kept' ending' : Bytes} (joined : kept ++ ending = kept' ++ ending')
    (ended : IsBreak kept ending) (ended' : IsBreak kept' ending') : kept = kept' := by
  rcases ended with rfl | ⟨rfl, other⟩
  next =>
    rcases ended' with rfl | ⟨rfl, other⟩
    next => exact List.append_cancel_right joined
    next =>
      have same : kept ++ [cr] = kept' := List.append_cancel_right (show (kept ++ [cr]) ++ [lf] = _ by simpa using joined)
      exact absurd (by rw [← same]; simp) other
  next =>
    rcases ended' with rfl | ⟨rfl, -⟩
    next =>
      have same : kept = kept' ++ [cr] := List.append_cancel_right (show _ = (kept' ++ [cr]) ++ [lf] by simpa using joined)
      exact absurd (by rw [same]; simp) other
    next => exact List.append_cancel_right joined

theorem rest_unique {kept ending rest ending' rest' : Bytes} (joined : ending ++ rest = ending' ++ rest')
    (ended : IsBreak kept ending) (ended' : IsBreak kept ending') : rest = rest' := by
  rcases ended with rfl | ⟨rfl, -⟩
  next =>
    rcases ended' with rfl | ⟨rfl, -⟩
    next => exact List.append_cancel_left joined
    next => cases (List.cons_eq_cons.mp joined).1
  next =>
    rcases ended' with rfl | ⟨rfl, -⟩
    next => cases (List.cons_eq_cons.mp joined).1
    next => exact List.append_cancel_left joined

theorem break_next {whole kept ending rest : Bytes} (parts : whole = kept ++ ending ++ rest) (ended : IsBreak kept ending) :
    ∃ byte, (byte = cr ∨ byte = lf) ∧ kept ++ [byte] <+: whole := by
  rcases ended with rfl | ⟨rfl, -⟩
  next => exact ⟨cr, .inl rfl, ⟨lf :: rest, by rw [parts]; simp⟩⟩
  next => exact ⟨lf, .inr rfl, ⟨rest, parts.symm⟩⟩

/-- Of the places where a header may be cut, no two leave the same text. -/
theorem kept_unique {whole kept ending rest kept' ending' rest' : Bytes} (parts : whole = kept ++ ending ++ rest)
    (ended : IsBreak kept ending) (parts' : whole = kept' ++ ending' ++ rest') (ended' : IsBreak kept' ending')
    (text : fromUtf8Lossy kept = fromUtf8Lossy kept') : kept = kept' := by
  obtain ⟨byte, sign, front⟩ := break_next parts ended
  obtain ⟨byte', sign', front'⟩ := break_next parts' ended'
  have ahead := (List.prefix_append kept [byte]).trans front
  have ahead' := (List.prefix_append kept' [byte']).trans front'
  rcases Nat.lt_trichotomy kept.length kept'.length with shorter | same | longer
  next =>
    have within := List.prefix_of_prefix_length_le front ahead' (by rw [List.length_append]; exact shorter)
    exact absurd (text_longer kept kept' byte sign within) (by rw [text]; exact Nat.lt_irrefl _)
  next => exact (List.prefix_of_prefix_length_le ahead ahead' same.le).eq_of_length same
  next =>
    have within := List.prefix_of_prefix_length_le front' ahead (by rw [List.length_append]; exact longer)
    exact absurd (text_longer kept' kept byte' sign' within) (by rw [text]; exact Nat.lt_irrefl _)

section

variable (whole block : Bytes) (plain : ∀ place, ¬ [lf, lf] <+: whole.drop place) (front : whole <+: block)
  (long : blockLimit < whole.length)

include plain in
/-- No line before the break of a header is empty. -/
theorem front_plain (before rest : Bytes) (split : whole = before ++ lf :: rest) : before.getLast? ≠ some lf := by
  intro last
  obtain ⟨earlier, rfl⟩ := List.getLast?_eq_some_iff.mp last
  refine plain earlier.length ?_
  rw [split, List.append_assoc, List.drop_left]
  exact ⟨rest, rfl⟩

include front long

theorem take_front (count : Nat) (within : count ≤ blockLimit + 1) : block.take count = whole.take count := by
  obtain ⟨rest, rfl⟩ := front
  exact List.take_append_of_le_length (by omega)

theorem cut_none (nowhere : cutToLimit block = none) : lf ∉ whole.take (blockLimit + 1) := by
  have wide := front.length_le
  rw [cutToLimit, if_neg (by omega), Option.map_eq_none_iff, take_front whole block front long _ (Nat.le_refl _)] at nowhere
  rcases rposition_cases lf (whole.take (blockLimit + 1)) with ⟨-, absent⟩ | ⟨_, _, -, -, found⟩
  next => exact absent
  next => rw [nowhere] at found; cases found

include plain

theorem cut_some (cut : Bytes) (taken : cutToLimit block = some cut) : ∃ ending rest, LastBreak whole cut ending rest := by
  have wide := front.length_le
  rw [cutToLimit, if_neg (by omega)] at taken
  obtain ⟨boundary, found, rfl⟩ := Option.map_eq_some_iff.mp taken
  rw [take_front whole block front long _ (Nat.le_refl _)] at found
  rcases rposition_cases lf (whole.take (blockLimit + 1)) with ⟨none, -⟩ | ⟨before, back, split, absent, place⟩
  case inl => rw [none] at found; cases found
  cases place.symm.trans found
  have length := congrArg List.length split
  rw [List.length_take, List.length_append, List.length_cons] at length
  have apart : whole = before ++ lf :: (back ++ whole.drop (blockLimit + 1)) := by
    conv_lhs => rw [← List.take_append_drop (blockLimit + 1) whole, split]
    simp
  have piece : block.take before.length = before := by
    rw [take_front whole block front long _ (by omega), apart, List.take_left]
  obtain ⟨ending, ended, broken⟩ := trim_front before (front_plain whole plain before _ apart)
  rw [piece]
  refine ⟨ending, back ++ whole.drop (blockLimit + 1), ?_, broken, ?_, ?_⟩
  next =>
    rw [← ended]
    conv_lhs => rw [apart]
    simp
  next => rw [← ended, List.length_append, List.length_singleton]; omega
  next =>
    rw [← ended, List.length_append, List.length_singleton, List.take_append_of_le_length (by omega)]
    exact fun there => absent (List.mem_of_mem_take there)

theorem cut_last (kept ending rest : Bytes) (broken : LastBreak whole kept ending rest) : cutToLimit block = some kept := by
  cases taken : cutToLimit block with
  | none =>
    refine absurd ?_ (cut_none whole block front long taken)
    rw [broken.parts, List.take_append, List.take_of_length_le broken.within]
    rcases broken.ended with rfl | ⟨rfl, -⟩
    next => simp
    next => simp
  | some cut =>
    obtain ⟨ending', rest', other⟩ := cut_some whole block plain front long cut taken
    have joined : cut ++ ending' = kept ++ ending := by
      have ahead : kept ++ ending <+: whole := ⟨rest, broken.parts.symm⟩
      have behind : cut ++ ending' <+: whole := ⟨rest', other.parts.symm⟩
      have length : (cut ++ ending').length = (kept ++ ending).length :=
        Nat.le_antisymm (last_unique broken other) (last_unique other broken)
      exact (List.prefix_of_prefix_length_le behind ahead length.le).eq_of_length length
    rw [break_unique joined other.ended broken.ended]

end

/-! ### The law -/

def HasBlock : Prop :=
  (∃ place, [cr, lf, cr, lf] <+: raw.drop place ∨ [lf, lf] <+: raw.drop place) ∨ looksLikeAField raw = true

theorem uncut_some : (∃ block, uncut raw = some block) <-> HasBlock raw := by
  unfold uncut HasBlock
  split
  next stop found =>
    have stands := (findSeparator_some raw stop found).1
    exact iff_of_true ⟨_, rfl⟩ (.inl ⟨stop, stands.imp_right And.left⟩)
  next nowhere =>
    have none := findSeparator_none raw nowhere
    constructor
    next =>
      rintro ⟨block, taken⟩
      split at taken
      next field => exact .inr field
      next => cases taken
    next =>
      rintro (⟨place, both | feeds⟩ | field)
      next => exact absurd both (none place).1
      next => exact absurd feeds (none place).2
      next => exact ⟨_, if_pos field⟩

def CutsWell : Prop :=
  ∃ kept ending rest, LastBreak whole kept ending rest ∧ Unfolded rest ∧ (fromUtf8Lossy kept).length ≤ blockLimit

structure Meets (raw whole : Bytes) : Prop where
  short : whole.length ≤ blockLimit -> Alike raw whole ∧ (fromUtf8Lossy whole).length ≤ blockLimit
  long : blockLimit < whole.length -> HasBlock raw ∧ CutsWell whole

/-- What is stored of a header within the limit is all of it. -/
theorem stores_short (block : Block) (short : whole.length ≤ blockLimit) (stores : Stores whole block) :
    block.text = fromUtf8Lossy whole ∧ block.truncated = false := by
  obtain ⟨kept, rfl | ⟨long, -⟩, text, -, marked⟩ := stores
  next => exact ⟨text, by rw [Bool.eq_false_iff]; exact fun cut => marked.mp cut rfl⟩
  next => omega

theorem blockOf_uncut (taken : uncut raw = some block) : blockOf raw = some (match cutToLimit block with
    | some cut => { text := fromUtf8Lossy cut, truncated := true }
    | none => { text := fromUtf8Lossy block, truncated := false }) := by
  rw [blockOf, taken]
  rfl

theorem cut_short (short : block.length ≤ blockLimit) : cutToLimit block = none := if_pos short

theorem faithful_short (read : header raw = some whole) (taken : uncut raw = some block)
    (short : whole.length ≤ blockLimit) :
    (∃ stored, blockOf raw = some stored ∧ Stores whole stored) <->
      Alike raw whole ∧ (fromUtf8Lossy whole).length ≤ blockLimit := by
  rw [← uncut_exact raw whole read, taken, Option.some.injEq]
  constructor
  next =>
    rintro ⟨stored, built, stores⟩
    obtain ⟨text, unmarked⟩ := stores_short whole stored short stores
    have room : (fromUtf8Lossy whole).length ≤ blockLimit := by
      obtain ⟨_, -, -, room, -⟩ := stores
      rw [← text]
      exact room
    refine ⟨?_, room⟩
    rw [blockOf_uncut raw block taken] at built
    split at built
    next => cases built; cases unmarked
    next =>
      cases built
      rcases uncut_front raw whole block read taken with same | ⟨byte, sign, front⟩
      next => exact same
      next => exact absurd (text_longer whole block byte sign front) (by rw [← text]; exact Nat.lt_irrefl _)
  next =>
    rintro ⟨rfl, room⟩
    refine ⟨_, blockOf_uncut raw block taken, ?_⟩
    rw [cut_short block short]
    exact ⟨block, .inl rfl, rfl, room, iff_of_false Bool.false_ne_true (not_not.mpr rfl)⟩

theorem faithful_long (read : header raw = some whole) (taken : uncut raw = some block)
    (long : blockLimit < whole.length) :
    (∃ stored, blockOf raw = some stored ∧ Stores whole stored) <-> CutsWell whole := by
  have plain := header_plain raw whole read
  have front : whole <+: block := by
    rcases uncut_front raw whole block read taken with rfl | ⟨byte, -, ahead⟩
    next => exact List.prefix_rfl
    next => exact (List.prefix_append _ _).trans ahead
  rw [blockOf_uncut raw block taken]
  cases cut : cutToLimit block with
  | none =>
    -- With no break in reach, nothing is cut.
    refine iff_of_false ?_ ?_
    next =>
      rintro ⟨stored, built, kept, -, -, room, -⟩
      cases built
      have wide := front.length_le
      have text := Utf8.fromUtf8Lossy_length block
      change (fromUtf8Lossy block).length ≤ _ at room
      omega
    next =>
      rintro ⟨kept, ending, rest, broken, -⟩
      rw [cut_last whole block plain front long kept ending rest broken] at cut
      cases cut
  | some kept =>
    obtain ⟨ending, rest, broken⟩ := cut_some whole block plain front long kept cut
    constructor
    next =>
      rintro ⟨stored, built, other, either, text, room, marked⟩
      cases built
      change fromUtf8Lossy kept = fromUtf8Lossy other at text
      rcases either with same | ⟨-, ending', rest', at_field⟩
      next => exact absurd same (marked.mp rfl)
      obtain rfl := kept_unique broken.parts broken.ended at_field.parts at_field.ended text
      refine ⟨kept, ending, rest, broken, ?_, room⟩
      have joined : ending ++ rest = ending' ++ rest' := by
        have same := broken.parts.symm.trans at_field.parts
        rw [List.append_assoc, List.append_assoc] at same
        exact List.append_cancel_left same
      rw [rest_unique joined broken.ended at_field.ended]
      exact at_field.unfolded
    next =>
      rintro ⟨other, ending', rest', again, unfolded, room⟩
      cases cut.symm.trans (cut_last whole block plain front long other ending' rest' again)
      refine ⟨_, rfl, kept, .inr ⟨long, ending', rest', again.parts, again.ended, unfolded⟩, rfl, room, iff_of_true rfl ?_⟩
      intro all
      have length := congrArg List.length again.parts
      rw [← all] at length
      have filled : 0 < ending'.length := by rcases again.ended with rfl | ⟨rfl, -⟩ <;> decide
      simp only [List.length_append] at length
      omega

/-- A message with no header has no block, and each other's block is as it is to be under two conditions. Within the limit, the
first empty line and the break before it are spelled alike, and the text has room. Past it, there is something to take for a
header, the last break within the limit ends a field, and the text before it has room. -/
theorem faithful_iff : Faithful raw <-> ∀ whole, header raw = some whole -> Meets raw whole := by
  cases read : header raw with
  | none =>
    have full : firstEmptyLine raw = none := by
      cases first : firstEmptyLine raw with
      | none => rfl
      | some start => rw [header, first] at read; cases read
    have nothing : blockOf raw = none := by rw [blockOf, uncut_whole raw full, read]; rfl
    refine iff_of_true ?_ (fun _ none => by cases none)
    simp only [Faithful, read, nothing]
  | some whole =>
    have found : Faithful raw <-> ∃ stored, blockOf raw = some stored ∧ Stores whole stored := by
      unfold Faithful
      rw [read]
      cases blockOf raw with
      | none => exact iff_of_false id (by rintro ⟨_, none, -⟩; cases none)
      | some stored => exact ⟨fun stores => ⟨stored, rfl, stores⟩, by rintro ⟨_, same, stores⟩; cases same; exact stores⟩
    have each : (∀ header, some whole = some header -> Meets raw header) <-> Meets raw whole :=
      ⟨fun all => all whole rfl, by rintro meets _ same; cases same; exact meets⟩
    rw [found, each]
    cases taken : uncut raw with
    | none =>
      have nothing : blockOf raw = none := by rw [blockOf, taken]; rfl
      refine iff_of_false (by rintro ⟨_, built, -⟩; rw [nothing] at built; cases built) (fun meets => ?_)
      by_cases short : whole.length ≤ blockLimit
      case pos => cases taken.symm.trans ((uncut_exact raw whole read).mpr (meets.short short).1)
      case neg =>
        obtain ⟨block, some⟩ := (uncut_some raw).mpr (meets.long (Nat.lt_of_not_le short)).1
        cases taken.symm.trans some
    | some block =>
      by_cases short : whole.length ≤ blockLimit
      case pos =>
        rw [faithful_short raw whole block read taken short]
        exact ⟨fun holds => ⟨fun _ => holds, fun long => absurd short (Nat.not_le_of_lt long)⟩, fun meets => meets.short short⟩
      case neg =>
        have long := Nat.lt_of_not_le short
        rw [faithful_long raw whole block read taken long]
        exact ⟨fun well => ⟨fun within => absurd within short, fun _ => ⟨(uncut_some raw).mp ⟨block, taken⟩, well⟩⟩,
          fun meets => (meets.long long).2⟩

def ascii (text : String) : Bytes := text.toList.map (fun char => UInt8.ofNat char.toNat)

/-- `A: b`, an empty line, and a body with another pair of breaks in it: the block takes the body up to there. -/
theorem body_leaks : ¬ Faithful (ascii "A: b\n\nbody\r\n\r\nmore") := by
  have read : header (ascii "A: b\n\nbody\r\n\r\nmore") = some (ascii "A: b") := by decide +kernel
  have taken : uncut (ascii "A: b\n\nbody\r\n\r\nmore") = some (ascii "A: b\n\nbody") := by decide +kernel
  have front : ascii "A: b" ++ [lf] <+: ascii "A: b\n\nbody" := by decide +kernel
  unfold Faithful
  rw [read, blockOf_uncut _ _ taken, cut_short _ (by decide +kernel)]
  intro stores
  have text := (stores_short _ _ (by decide +kernel) stores).1
  exact absurd (text_longer _ _ lf (.inr rfl) front) (by rw [← text]; exact Nat.lt_irrefl _)

end Postio.HeaderBlock

import Mathlib.Data.List.DropRight
import Postio.Lib.Groups
import Postio.Lib.Lines
import Postio.Smtp.Session

set_option autoImplicit false

namespace Postio.Smtp.Bcc

/-! The `Bcc` fields taken out byte by byte, as the session's own reading of the message in lines has it. -/

/-- Bytes as they were, or a copy. -/
inductive Cow where
  | borrowed (bytes : Bytes)
  | owned (bytes : Bytes)
  deriving DecidableEq

def Cow.bytes : Cow -> Bytes
  | .borrowed bytes => bytes
  | .owned bytes => bytes

/-- The next line of `rest`, up to and including its `\n`, or what remains. -/
def nextLine (rest : Bytes) : Option Bytes :=
  if rest = [] then none
  else
    some (rest.take (match rest.findIdx? (fun byte => byte == 10) with
      | none => rest.length
      | some position => position + 1))

theorem nextLine_shortens (rest line : Bytes) (read : nextLine rest = some line) :
    (rest.drop line.length).length < rest.length := by
  unfold nextLine at read
  split at read
  next => cases read
  next more =>
    have some_left : 0 < rest.length := List.length_pos_iff.mpr more
    obtain rfl := Option.some.inj read
    rw [List.length_drop, List.length_take]
    split <;> omega

def headerLines (rest : Bytes) : List Bytes :=
  match _read : nextLine rest with
  | none => []
  | some line => if isBlank line then [] else line :: headerLines (rest.drop line.length)
termination_by rest.length
decreasing_by exact nextLine_shortens rest line _read

/-- The walk over the lines: what is kept so far, and whether the field the last line belongs to is a `Bcc`. -/
def keepLines (kept : Bytes) (inBcc : Bool) (rest : Bytes) : Bytes :=
  match _read : nextLine rest with
  | none => kept
  | some line =>
    if isBlank line then kept ++ line ++ rest.drop line.length
    else
      let inBcc := if startsWithWhitespace line then inBcc else isBcc line
      keepLines (if inBcc then kept else kept ++ line) inBcc (rest.drop line.length)
termination_by rest.length
decreasing_by exact nextLine_shortens rest line _read

variable (raw : Bytes) (inBcc : Bool) (opening line : Bytes) (groups : List (List Bytes)) (folded rest : List Bytes)

def stripBcc : Cow :=
  if (headerLines raw).any isBcc then .owned (keepLines [] false raw) else .borrowed raw

/-! ### What a message's header section is -/

def lines : List Bytes := Groups.endedBy (fun byte => byte == 10) raw

def headerSection : List Bytes := (lines raw).takeWhile (fun line => !isBlank line)

def body : Bytes := ((lines raw).dropWhile (fun line => !isBlank line)).flatten

def fields : List (List Bytes) := Groups.continuedBy startsWithWhitespace (headerSection raw)

/-- The line opens with the name `Bcc` in any case, blanks and a colon. -/
def OpensBcc : Prop :=
  ∃ first second third blanks value, line = first :: second :: third :: (blanks ++ 58 :: value) ∧
    (first = 66 ∨ first = 98) ∧ (second = 67 ∨ second = 99) ∧ (third = 67 ∨ third = 99) ∧
    ∀ blank ∈ blanks, isAsciiWhitespace blank = true

def BccField (field : List Bytes) : Prop := ∃ opening folded, field = opening :: folded ∧ OpensBcc opening

theorem lower_b (byte : UInt8) : asciiLower byte = 98 <-> byte = 66 ∨ byte = 98 := by
  unfold asciiLower
  have upper : (65 : UInt8).toNat = 65 ∧ (90 : UInt8).toNat = 90 ∧ byte.toNat < 256 := ⟨rfl, rfl, byte.toNat_lt⟩
  simp only [← UInt8.toNat_inj, UInt8.le_iff_toNat_le]
  split <;> simp <;> omega

theorem lower_c (byte : UInt8) : asciiLower byte = 99 <-> byte = 67 ∨ byte = 99 := by
  unfold asciiLower
  have upper : (65 : UInt8).toNat = 65 ∧ (90 : UInt8).toNat = 90 ∧ byte.toNat < 256 := ⟨rfl, rfl, byte.toNat_lt⟩
  simp only [← UInt8.toNat_inj, UInt8.le_iff_toNat_le]
  split <;> simp <;> omega

theorem trimAsciiEnd_append (name blanks : Bytes) (blank : ∀ byte ∈ blanks, isAsciiWhitespace byte = true) :
    trimAsciiEnd (name ++ blanks) = trimAsciiEnd name := by
  unfold trimAsciiEnd
  rw [List.reverse_append, List.dropWhile_append_of_pos (fun byte inside => blank byte (List.mem_reverse.mp inside))]

theorem isBcc_iff : isBcc line = true <-> OpensBcc line := by
  unfold isBcc OpensBcc
  constructor
  next =>
    intro opens
    obtain ⟨unfolded, named⟩ := Bool.and_eq_true_iff.mp opens
    have colon : (58 : UInt8) ∈ line := by simpa using (Bool.and_eq_true_iff.mp unfolded).2
    let before := line.takeWhile (fun byte => decide (byte ≠ 58))
    have apart : ∃ value, line = before ++ 58 :: value := by
      have joined : before ++ line.dropWhile (fun byte => decide (byte ≠ 58)) = line := List.takeWhile_append_dropWhile
      cases left : line.dropWhile (fun byte => decide (byte ≠ 58)) with
      | nil =>
        have all := List.dropWhile_eq_nil_iff.mp left 58 colon
        simp at all
      | cons mark value =>
        have marked := List.head_dropWhile_not (fun byte => decide (byte ≠ 58)) (l := line) (left ▸ List.cons_ne_nil _ _)
        simp only [left, List.head_cons, decide_eq_false_iff_not, ne_eq, not_not] at marked
        rw [left, marked] at joined
        exact ⟨value, joined.symm⟩
    obtain ⟨value, read⟩ := apart
    have trimmed : trimAsciiEnd before ++ before.rtakeWhile isAsciiWhitespace = before :=
      List.rdropWhile_append_rtakeWhile
    have name : (trimAsciiEnd before).map asciiLower = [98, 99, 99] := of_decide_eq_true named
    obtain ⟨first, rest, spelled, firstLow, low⟩ := List.map_eq_cons_iff.mp name
    obtain ⟨second, rest, rfl, secondLow, low⟩ := List.map_eq_cons_iff.mp low
    obtain ⟨third, rest, rfl, thirdLow, low⟩ := List.map_eq_cons_iff.mp low
    obtain rfl := List.map_eq_nil_iff.mp low
    refine ⟨first, second, third, before.rtakeWhile isAsciiWhitespace, value, ?_, (lower_b first).mp firstLow,
      (lower_c second).mp secondLow, (lower_c third).mp thirdLow, fun blank inside => List.mem_rtakeWhile_imp inside⟩
    rw [read]
    nth_rewrite 1 [← trimmed]
    simp [spelled]
  next =>
    rintro ⟨first, second, third, blanks, value, rfl, firstLow, secondLow, thirdLow, blank⟩
    have noColon : ∀ byte ∈ [first, second, third] ++ blanks, decide (byte ≠ 58) = true := by
      intro byte inside
      rw [decide_eq_true_iff]
      rintro rfl
      rcases List.mem_append.mp inside with named | inside
      next => rcases firstLow with rfl | rfl <;> rcases secondLow with rfl | rfl <;> rcases thirdLow with rfl | rfl <;> simp at named
      next => exact absurd (blank 58 inside) (by decide)
    have name : (first :: second :: third :: (blanks ++ 58 :: value)).takeWhile (fun byte => decide (byte ≠ 58)) =
        [first, second, third] ++ blanks := by
      have taken : ([first, second, third] ++ blanks ++ 58 :: value).takeWhile (fun byte => decide (byte ≠ 58)) =
          [first, second, third] ++ blanks ++ (58 :: value).takeWhile (fun byte => decide (byte ≠ 58)) :=
        List.takeWhile_append_of_pos noColon
      simpa using taken
    have spelled : trimAsciiEnd [first, second, third] = [first, second, third] := by
      rcases thirdLow with rfl | rfl <;> simp [trimAsciiEnd, isAsciiWhitespace]
    have unfolded : startsWithWhitespace (first :: second :: third :: (blanks ++ 58 :: value)) = false := by
      rcases firstLow with rfl | rfl <;> rfl
    have lowered : [first, second, third].map asciiLower = [98, 99, 99] := by
      simp [(lower_b first).mpr firstLow, (lower_c second).mpr secondLow, (lower_c third).mpr thirdLow]
    rw [unfolded, name, trimAsciiEnd_append _ _ blank, spelled, lowered]
    simp

instance : DecidablePred OpensBcc := fun line => decidable_of_iff _ (isBcc_iff line)

instance : DecidablePred BccField
  | [] => .isFalse (by rintro ⟨_, _, same, _⟩; cases same)
  | opening :: folded => decidable_of_iff (OpensBcc opening)
      ⟨fun opens => ⟨opening, folded, rfl, opens⟩, by rintro ⟨_, _, same, opens⟩; cases same; exact opens⟩

/-! ### What the walk keeps -/

theorem nextLine_nil : nextLine [] = none := rfl

theorem lines_next (read : nextLine raw = some line) :
    lines raw = line :: lines (raw.drop line.length) ∧ line ++ raw.drop line.length = raw := by
  unfold nextLine at read
  split at read
  next => cases read
  next more =>
    obtain rfl := Option.some.inj read
    split
    next absent =>
      rw [List.take_length, List.drop_length, List.append_nil]
      refine ⟨?_, rfl⟩
      rw [List.findIdx?_eq_none_iff] at absent
      have ends : raw.dropLast ++ [raw.getLast more] = raw := List.dropLast_append_getLast more
      have whole := Groups.endedBy_append (fun byte => byte == 10) raw.dropLast (raw.getLast more) []
        (fun byte inside => absent byte (List.dropLast_subset raw inside)) (.inr rfl)
      rw [List.append_nil, ends] at whole
      exact whole
    next position found =>
      obtain ⟨before, mark, after, rfl, rfl, marked, clear⟩ := Lines.apart_of_findIdx _ raw position found
      have taken : (before ++ mark :: after).take (before.length + 1) = before ++ [mark] := by
        rw [List.append_cons before mark after]
        exact List.take_left' (by simp)
      rw [taken]
      have dropped : (before ++ mark :: after).drop (before ++ [mark]).length = after := by
        rw [List.append_cons before mark after, List.drop_left]
      rw [dropped]
      refine ⟨?_, by simp⟩
      have whole := Groups.endedBy_append (fun byte => byte == 10) before mark after clear (.inl marked)
      rw [List.append_assoc, List.singleton_append] at whole
      exact whole

theorem nextLine_none (ended : nextLine raw = none) : raw = [] := by
  unfold nextLine at ended
  split at ended
  next empty => exact empty
  next => cases ended

theorem headerLines_read : headerLines raw = headerSection raw := by
  induction raw using headerLines.induct with
  | case1 raw ended =>
    rw [headerLines, nextLine_none raw ended]
    rfl
  | case2 raw line read blank =>
    unfold headerLines headerSection
    rw [(lines_next raw line read).1]
    split
    next none => rw [none] at read; cases read
    next again => rw [read] at again; cases again; simp [blank]
  | case3 raw line read more ih =>
    unfold headerLines headerSection
    rw [(lines_next raw line read).1]
    split
    next none => rw [none] at read; cases read
    next again =>
      rw [read] at again
      cases again
      rw [if_neg more, ih, List.takeWhile_cons_of_pos (by simpa using more)]
      rfl

theorem keepLines_read (kept : Bytes) (inBcc : Bool) (raw : Bytes) :
    keepLines kept inBcc raw = kept ++ keptLines inBcc (lines raw) := by
  induction kept, inBcc, raw using keepLines.induct with
  | case1 kept inBcc raw ended =>
    unfold keepLines
    rw [nextLine_none raw ended]
    simp [nextLine_nil, lines, keptLines]
  | case2 kept inBcc raw line read blank =>
    unfold keepLines
    rw [(lines_next raw line read).1]
    split
    next none => rw [none] at read; cases read
    next again =>
      rw [read] at again
      cases again
      rw [if_pos blank]
      simp only [keptLines, if_pos blank]
      rw [lines, Groups.flatten_endedBy, List.append_assoc]
  | case3 kept inBcc raw line read more state ih =>
    unfold keepLines
    rw [(lines_next raw line read).1]
    split
    next none => rw [none] at read; cases read
    next again =>
      rw [read] at again
      cases again
      rw [if_neg more]
      simp only [keptLines, if_neg more]
      have now : (if startsWithWhitespace line then inBcc else isBcc line) = state := by simp [state]
      simp only [dite_eq_ite] at ih
      rw [now, ih]
      split
      next => rfl
      next => rw [List.append_assoc]

/-! ### What is left of the header section -/

theorem folded_unblank (folded : startsWithWhitespace line = true) : isBlank line = false := by
  cases line with
  | nil => cases folded
  | cons byte rest =>
    have white : byte = 32 ∨ byte = 9 := by simpa [startsWithWhitespace] using folded
    rcases white with rfl | rfl <;> simp [isBlank]

theorem folded_plain (folded : startsWithWhitespace line = true) : isBcc line = false := by
  simp [isBcc, folded]

theorem keptLines_folded (continues : ∀ line ∈ folded, startsWithWhitespace line = true) :
    keptLines inBcc (folded ++ rest) = (if inBcc then [] else folded.flatten) ++ keptLines inBcc rest := by
  induction folded with
  | nil => cases inBcc <;> simp
  | cons line folded ih =>
    have here := continues line List.mem_cons_self
    have further := ih (fun other inside => continues other (List.mem_cons_of_mem _ inside))
    simp only [List.cons_append, keptLines, folded_unblank line here, Bool.false_eq_true, if_false, here, if_true]
    rw [further]
    cases inBcc <;> simp

theorem keptLines_field (continues : ∀ line ∈ folded, startsWithWhitespace line = true) (filled : isBlank opening = false)
    (opens : startsWithWhitespace opening = false ∨ inBcc = false) :
    keptLines inBcc (opening :: folded ++ rest) =
      (if isBcc opening then [] else (opening :: folded).flatten) ++ keptLines (isBcc opening) rest := by
  have state : (if startsWithWhitespace opening then inBcc else isBcc opening) = isBcc opening := by
    rcases opens with opens | outside
    next => simp [opens]
    next =>
      split
      next folded => rw [outside, folded_plain opening folded]
      next => rfl
  simp only [List.cons_append, keptLines, filled, Bool.false_eq_true, if_false]
  rw [state, keptLines_folded _ _ _ continues]
  cases isBcc opening <;> simp

theorem keptLines_body (ended : ∀ line, rest.head? = some line -> isBlank line = true) :
    keptLines inBcc rest = rest.flatten := by
  cases rest with
  | nil => rfl
  | cons line rest => simp [keptLines, ended line rfl]

theorem bccField_cons : BccField (opening :: folded) <-> isBcc opening = true := by
  rw [isBcc_iff]
  constructor
  next =>
    rintro ⟨_, _, same, opens⟩
    cases same
    exact opens
  next => exact fun opens => ⟨opening, folded, rfl, opens⟩

def kept : List (List Bytes) := groups.filter (fun field => ¬ BccField field)

theorem kept_cons (groups : List (List Bytes)) : (kept ((opening :: folded) :: groups)).flatten.flatten =
      (if isBcc opening then [] else (opening :: folded).flatten) ++ (kept groups).flatten.flatten := by
  have decides := bccField_cons opening folded
  unfold kept
  rw [List.filter_cons]
  cases opens : isBcc opening <;> simp [decides, opens]

theorem keptLines_fields (shape : ∀ group ∈ groups, ∃ opening folded, group = opening :: folded ∧ isBlank opening = false ∧
      startsWithWhitespace opening = false ∧ ∀ line ∈ folded, startsWithWhitespace line = true)
    (ended : ∀ line, rest.head? = some line -> isBlank line = true) :
    keptLines inBcc (groups.flatten ++ rest) = (kept groups).flatten.flatten ++ rest.flatten := by
  induction groups generalizing inBcc with
  | nil => simpa [kept] using keptLines_body inBcc rest ended
  | cons group groups ih =>
    obtain ⟨opening, folded, rfl, filled, opens, continues⟩ := shape group List.mem_cons_self
    have further := ih (isBcc opening) (fun other inside => shape other (List.mem_cons_of_mem _ inside))
    rw [List.flatten_cons, List.append_assoc, keptLines_field inBcc opening folded _ continues filled (.inl opens),
      further, kept_cons, List.append_assoc]

theorem header_filled (inside : line ∈ headerSection raw) : isBlank line = false := by
  have filled := List.mem_takeWhile_imp inside
  simpa using filled

theorem body_opens (first : ((lines raw).dropWhile (fun line => !isBlank line)).head? = some line) : isBlank line = true := by
  have blank := List.head?_dropWhile_not (fun line => !isBlank line) (lines raw)
  rw [first] at blank
  simpa using blank

theorem fields_flatten : (fields raw).flatten = headerSection raw := Groups.flatten_continuedBy _ _

theorem lines_split : (fields raw).flatten ++ (lines raw).dropWhile (fun line => !isBlank line) = lines raw:= by
  rw [fields_flatten]
  exact List.takeWhile_append_dropWhile

theorem keptLines_message : keptLines false (lines raw) = (kept (fields raw)).flatten.flatten ++ body raw := by
  have split := lines_split raw
  have filled : ∀ group ∈ fields raw, ∀ line ∈ group, isBlank line = false := by
    intro group inside line among
    apply header_filled raw
    rw [← fields_flatten]
    exact List.mem_flatten_of_mem inside among
  have shape := Groups.continuedBy_shape startsWithWhitespace (headerSection raw)
  have openings := Groups.continuedBy_openings startsWithWhitespace (headerSection raw)
  change ∀ group ∈ fields raw, _ at shape
  change ∀ first others, fields raw = first :: others -> _ at openings
  rw [← split]
  unfold body
  cases read : fields raw with
  | nil => simpa [kept] using keptLines_body false _ (body_opens raw)
  | cons first others =>
    rw [read] at filled shape
    obtain ⟨opening, folded, rfl, continues⟩ := shape first List.mem_cons_self
    have others_shape : ∀ group ∈ others, ∃ opening folded, group = opening :: folded ∧ isBlank opening = false ∧
        startsWithWhitespace opening = false ∧ ∀ line ∈ folded, startsWithWhitespace line = true := by
      intro group inside
      obtain ⟨opening, folded, rfl, continues⟩ := shape group (List.mem_cons_of_mem _ inside)
      exact ⟨opening, folded, rfl, filled _ (List.mem_cons_of_mem _ inside) opening List.mem_cons_self,
        openings _ others read _ inside opening folded rfl, continues⟩
    rw [List.flatten_cons, List.append_assoc, keptLines_field false opening folded _ continues
      (filled _ List.mem_cons_self opening List.mem_cons_self) (.inr rfl),
      keptLines_fields _ others _ others_shape (body_opens raw), kept_cons, List.append_assoc]

theorem opens_iff_field : (headerLines raw).any isBcc = true <-> ∃ field ∈ fields raw, BccField field := by
  have shape := Groups.continuedBy_shape startsWithWhitespace (headerSection raw)
  rw [headerLines_read, List.any_eq_true, ← fields_flatten]
  constructor
  next =>
    rintro ⟨line, inside, opens⟩
    obtain ⟨field, among, within⟩ := List.mem_flatten.mp inside
    obtain ⟨opening, folded, rfl, continues⟩ := shape field among
    refine ⟨opening :: folded, among, ?_⟩
    rcases List.mem_cons.mp within with rfl | within
    next => exact (bccField_cons _ _).mpr opens
    next =>
      rw [folded_plain line (continues line within)] at opens
      cases opens
  next =>
    rintro ⟨field, among, opening, folded, rfl, opens⟩
    exact ⟨opening, List.mem_flatten_of_mem among List.mem_cons_self, (isBcc_iff opening).mpr opens⟩

theorem kept_all (none : ∀ field ∈ groups, ¬ BccField field) : kept groups = groups := by
  unfold kept
  rw [List.filter_eq_self]
  exact fun field inside => decide_eq_true (none field inside)

theorem message_split : (fields raw).flatten.flatten ++ body raw = raw := by
  unfold body
  rw [← List.flatten_append, lines_split]
  exact Groups.flatten_endedBy _ raw

theorem stripBcc_bytes : (stripBcc raw).bytes = (kept (fields raw)).flatten.flatten ++ body raw := by
  unfold stripBcc
  split
  next =>
    change keepLines [] false raw = _
    rw [keepLines_read, List.nil_append, keptLines_message]
  next clear =>
    have none : ∀ field ∈ fields raw, ¬ BccField field := by
      intro field inside isField
      exact clear ((opens_iff_field raw).mpr ⟨field, inside, isField⟩)
    rw [kept_all _ none, message_split]
    rfl

theorem stripBcc_borrowed : stripBcc raw = .borrowed raw <-> ∀ field ∈ fields raw, ¬ BccField field := by
  have iff := opens_iff_field raw
  unfold stripBcc
  split
  next opens =>
    obtain ⟨field, inside, isField⟩ := iff.mp opens
    constructor
    next =>
      intro same
      cases same
    next => exact fun none => absurd isField (none field inside)
  next clear => exact ⟨fun _ field inside isField => clear (iff.mpr ⟨field, inside, isField⟩), fun _ => rfl⟩

theorem lines_stripBcc :
    lines (stripBcc raw).bytes = (kept (fields raw)).flatten ++ (lines raw).dropWhile (fun line => !isBlank line) := by
  have within : ((kept (fields raw)).flatten ++ (lines raw).dropWhile (fun line => !isBlank line)).Sublist (lines raw) := by
    nth_rewrite 2 [← lines_split raw]
    exact (List.filter_sublist.flatten).append (List.Sublist.refl _)
  have read := Groups.endedBy_of_sublist (fun byte => byte == 10) raw _ within
  rw [List.flatten_append] at read
  rw [stripBcc_bytes]
  exact read

theorem kept_filled (inside : line ∈ (kept (fields raw)).flatten) : (!isBlank line) = true := by
  have within : line ∈ (fields raw).flatten := (List.filter_sublist.flatten).subset inside
  rw [fields_flatten] at within
  simp [header_filled raw line within]

theorem headerSection_stripBcc : headerSection (stripBcc raw).bytes = (kept (fields raw)).flatten := by
  unfold headerSection
  rw [lines_stripBcc, List.takeWhile_append_of_pos (kept_filled raw)]
  have ended : ((lines raw).dropWhile (fun line => !isBlank line)).takeWhile (fun line => !isBlank line) = [] := by
    rw [List.takeWhile_eq_nil_iff]
    intro some_left
    have blank := body_opens raw _ (List.head?_eq_some_head (List.length_pos_iff.mp some_left))
    rw [List.get_eq_getElem, ← List.head_eq_getElem (List.length_pos_iff.mp some_left), blank]
    decide
  rw [ended, List.append_nil]

theorem body_stripBcc : body (stripBcc raw).bytes = body raw := by
  have again : ((lines raw).dropWhile (fun line => !isBlank line)).dropWhile (fun line => !isBlank line) =
      (lines raw).dropWhile (fun line => !isBlank line) :=
    List.dropWhile_idempotent _ _
  unfold body
  rw [lines_stripBcc, List.dropWhile_append_of_pos (kept_filled raw), again]

theorem fields_stripBcc : fields (stripBcc raw).bytes = kept (fields raw) := by
  unfold fields
  rw [headerSection_stripBcc]
  exact Groups.continuedBy_of_sublist startsWithWhitespace (headerSection raw) _ List.filter_sublist

/-- `strip_bcc` takes out the `Bcc` fields with the lines folded under them, and nothing else. -/
theorem stripBcc_exact : (fields raw).flatten.flatten ++ body raw = raw ∧
    (stripBcc raw).bytes = ((fields raw).filter (fun field => ¬ BccField field)).flatten.flatten ++ body raw ∧
    fields (stripBcc raw).bytes = (fields raw).filter (fun field => ¬ BccField field) ∧
    body (stripBcc raw).bytes = body raw ∧
    (∀ line ∈ headerSection (stripBcc raw).bytes, ¬ OpensBcc line) ∧
    (stripBcc raw = .borrowed raw <-> ∀ field ∈ fields raw, ¬ BccField field) ∧
    stripBcc (stripBcc raw).bytes = .borrowed (stripBcc raw).bytes := by
  have cleared : ∀ field ∈ fields (stripBcc raw).bytes, ¬ BccField field := by
    intro field inside
    rw [fields_stripBcc] at inside
    exact of_decide_eq_true (List.mem_filter.mp inside).2
  refine ⟨message_split raw, stripBcc_bytes raw, fields_stripBcc raw, body_stripBcc raw, ?_, stripBcc_borrowed raw,
    (stripBcc_borrowed _).mpr cleared⟩
  intro line inside opens
  have scanned : (headerLines (stripBcc raw).bytes).any isBcc = true := by
    rw [headerLines_read, List.any_eq_true]
    exact ⟨line, inside, (isBcc_iff line).mpr opens⟩
  obtain ⟨field, among, isField⟩ := (opens_iff_field _).mp scanned
  exact cleared field among isField

end Postio.Smtp.Bcc

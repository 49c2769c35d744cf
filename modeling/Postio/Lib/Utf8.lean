import Mathlib.Data.List.Basic

set_option autoImplicit false

namespace Postio.Utf8

/-! UTF-8 at the end of what is written. -/

variable (first : UInt8) (text : List Char) (rest : List UInt8)

theorem data_utf8Encode : text.utf8Encode.data.toList = text.flatMap String.utf8EncodeChar := by
  simp [List.utf8Encode]

theorem utf8EncodeChar_last (char : Char) : (String.utf8EncodeChar char).getLast? = some 10 <-> char = '\n' := by
  have code : char = '\n' <-> char.val.toNat = 10 := by
    rw [← Char.toNat_inj]
    rfl
  rw [code]
  have feed : (10 : UInt8).toNat = 10 := rfl
  fun_cases String.utf8EncodeChar char with
  | case1 value small =>
    have whole : (UInt8.ofNat value).toNat = value := by simp; omega
    simp only [List.getLast?_singleton, Option.some.injEq, ← UInt8.toNat_inj, whole, feed]
    exact Iff.rfl
  | case2 value large small =>
    have high : (UInt8.ofNat (value % 64 + 128)).toNat = value % 64 + 128 := by simp; omega
    simp only [List.getLast?_cons_cons, List.getLast?_singleton, Option.some.injEq, ← UInt8.toNat_inj, high, feed]
    constructor
    next => intro same; omega
    next => intro same; change value = 10 at same; omega
  | case3 value large larger small =>
    have high : (UInt8.ofNat (value % 64 + 128)).toNat = value % 64 + 128 := by simp; omega
    simp only [List.getLast?_cons_cons, List.getLast?_singleton, Option.some.injEq, ← UInt8.toNat_inj, high, feed]
    constructor
    next => intro same; omega
    next => intro same; change value = 10 at same; omega
  | case4 value large larger largest =>
    have high : (UInt8.ofNat (value % 64 + 128)).toNat = value % 64 + 128 := by simp; omega
    simp only [List.getLast?_cons_cons, List.getLast?_singleton, Option.some.injEq, ← UInt8.toNat_inj, high, feed]
    constructor
    next => intro same; omega
    next => intro same; change value = 10 at same; omega

theorem back_utf8Encode :
    text.utf8Encode.data.back? = some 10 <-> text.getLast? = some '\n' := by
  have read : text.utf8Encode.data.back? = (text.flatMap String.utf8EncodeChar).getLast? := by
    rw [← data_utf8Encode, Array.getLast?_toList]
  rw [read]
  rcases List.eq_nil_or_concat text with rfl | ⟨before, char, rfl⟩
  next => simp
  next =>
    rw [List.concat_eq_append, List.flatMap_append, List.getLast?_append_of_ne_nil _ (by simp),
      List.getLast?_concat]
    simpa using utf8EncodeChar_last char

theorem size_utf8Encode : 0 < text.utf8Encode.size <-> text ≠ [] := by
  rw [Nat.pos_iff_ne_zero, ne_eq, ne_eq, not_iff_not, ByteArray.size_eq_zero_iff, List.utf8Encode_eq_empty]

theorem valid_of_append (bytes : ByteArray) (text : List Char) (more : text ≠ [])
    (valid : (bytes ++ text.utf8Encode).IsValidUTF8) : bytes.IsValidUTF8 := by
  let whole : String := String.ofByteArray (bytes ++ text.utf8Encode) valid
  let stop : String.Pos.Raw := ⟨bytes.size⟩
  have size : 0 < text.utf8Encode.size := (size_utf8Encode text).mpr more
  have ends : whole.rawEndPos.byteIdx = (bytes ++ text.utf8Encode).size := rfl
  have within : stop < whole.rawEndPos := by
    rw [String.Pos.Raw.lt_iff, ends, ByteArray.size_append]
    change bytes.size < _
    omega
  have opens : (whole.getUTF8Byte stop within).IsUTF8FirstByte := by
    have first := ByteArray.IsValidUTF8.isUTF8FirstByte_getElem_zero (b := text.utf8Encode)
      ByteArray.isValidUTF8_utf8Encode size
    have read : whole.getUTF8Byte stop within = text.utf8Encode[0] := by
      change (bytes ++ text.utf8Encode)[bytes.size] = _
      rw [ByteArray.getElem_append_right (Nat.le_refl _)]
      simp
    rw [read]
    exact first
  have at_boundary : stop.IsValid whole := String.Pos.Raw.isValid_iff_isUTF8FirstByte.mpr (.inr ⟨within, opens⟩)
  have before := at_boundary.isValidUTF8_extract_zero
  have cut : whole.toByteArray.extract 0 stop.byteIdx = bytes := ByteArray.extract_append_eq_left rfl
  rw [cut] at before
  exact before

/-! ### `String::from_utf8_lossy` -/

/-- The bytes a lead byte allows next, and how many bytes are to follow it. -/
def lead : Option (UInt8 × UInt8 × Nat) :=
  if 0xC2 ≤ first ∧ first ≤ 0xDF then some (0x80, 0xBF, 1)
  else if first = 0xE0 then some (0xA0, 0xBF, 2)
  else if first = 0xED then some (0x80, 0x9F, 2)
  else if 0xE1 ≤ first ∧ first ≤ 0xEF then some (0x80, 0xBF, 2)
  else if first = 0xF0 then some (0x90, 0xBF, 3)
  else if 0xF1 ≤ first ∧ first ≤ 0xF3 then some (0x80, 0xBF, 3)
  else if first = 0xF4 then some (0x80, 0x8F, 3)
  else none

def isTail (byte : UInt8) : Bool := decide (0x80 ≤ byte ∧ byte ≤ 0xBF)

/-- How many bytes after the first belong to it, and whether they make a character. -/
def unit : Nat × Bool :=
  if first < 0x80 then (0, true)
  else match lead first, rest with
    | some (low, high, count), second :: later =>
      if low ≤ second ∧ second ≤ high then
        let tails := ((later.take (count - 1)).takeWhile isTail).length
        (1 + tails, tails == count - 1)
      else (0, false)
    | _, _ => (0, false)

/-- The UTF-8 of `U+FFFD`. -/
def replacement : List UInt8 := [0xEF, 0xBF, 0xBD]

/-- The text of some bytes, as the bytes of its UTF-8. -/
def fromUtf8Lossy : List UInt8 -> List UInt8
  | [] => []
  | first :: rest =>
    let (more, whole) := unit first rest
    (if whole then first :: rest.take more else replacement) ++ fromUtf8Lossy (rest.drop more)
termination_by bytes => bytes.length
decreasing_by simp only [List.length_drop, List.length_cons]; omega

theorem lead_sound (low high : UInt8) (count : Nat) (leads : lead first = some (low, high, count)) :
    0x80 ≤ low ∧ count ≤ 3 := by
  unfold lead at leads
  repeat' split at leads
  all_goals simp only [Option.some.injEq, Prod.mk.injEq, reduceCtorEq] at leads
  all_goals obtain ⟨rfl, -, rfl⟩ := leads
  all_goals decide

theorem unit_short : (unit first rest).1 ≤ rest.length ∧ ((unit first rest).2 = true ∨ (unit first rest).1 ≤ 2):= by
  unfold unit
  split
  next => simp
  next =>
    split
    next low high count second later leads =>
      split
      next =>
        have few := (lead_sound first low high count leads).2
        have taken := (List.takeWhile_sublist isTail (l := later.take (count - 1))).length_le
        rw [List.length_take] at taken
        simp only [List.length_cons, beq_iff_eq]
        omega
      next => simp
    next => simp

theorem takeWhile_tail (count : Nat) (later back : List UInt8) (byte : UInt8) (ascii : byte < 0x80) :
    ((later ++ byte :: back).take count).takeWhile isTail = (later.take count).takeWhile isTail := by
  have no_tail : isTail byte = false := by
    unfold isTail
    exact decide_eq_false (fun tail => absurd tail.1 (UInt8.not_le.mpr ascii))
  induction later generalizing count with
  | nil =>
    cases count with
    | zero => rfl
    | succ count => simp [no_tail]
  | cons first later ih =>
    cases count with
    | zero => rfl
    | succ count => simp only [List.cons_append, List.take_succ_cons, List.takeWhile_cons, ih]

/-- What comes after an ASCII byte is no part of what came before it. -/
theorem unit_append (byte : UInt8) (rest back : List UInt8) (ascii : byte < 0x80) :
    unit first (rest ++ byte :: back) = unit first rest := by
  unfold unit
  split
  next => rfl
  next =>
    cases leads : lead first with
    | none => rfl
    | some found =>
      obtain ⟨low, high, count⟩ := found
      cases rest with
      | nil =>
        have beyond : ¬ low ≤ byte := UInt8.not_le.mpr (UInt8.lt_of_lt_of_le ascii (lead_sound first low high count leads).1)
        exact if_neg (fun within => beyond within.1)
      | cons second later => simp only [List.cons_append, takeWhile_tail _ later back byte ascii]

theorem fromUtf8Lossy_cons : fromUtf8Lossy (first :: rest) =
    (if (unit first rest).2 then first :: rest.take (unit first rest).1 else replacement) ++
      fromUtf8Lossy (rest.drop (unit first rest).1) := by
  rw [fromUtf8Lossy]

/-- An ASCII byte parts a text. -/
theorem fromUtf8Lossy_append (front back : List UInt8) (byte : UInt8) (ascii : byte < 0x80) :
    fromUtf8Lossy (front ++ byte :: back) = fromUtf8Lossy front ++ byte :: fromUtf8Lossy back := by
  fun_induction fromUtf8Lossy front with
  | case1 =>
    have alone : unit byte back = (0, true) := by
      unfold unit
      exact if_pos ascii
    rw [List.nil_append, fromUtf8Lossy_cons, alone]
    simp
  | case2 first rest more whole read ih =>
    have short := (unit_short first rest).1
    rw [List.cons_append, fromUtf8Lossy_cons, unit_append first byte rest back ascii, read]
    rw [read] at short
    rw [List.take_append_of_le_length short, List.drop_append_of_le_length short, ih, List.append_assoc]

theorem fromUtf8Lossy_length (bytes : List UInt8) : bytes.length ≤ (fromUtf8Lossy bytes).length := by
  fun_induction fromUtf8Lossy bytes with
  | case1 => exact Nat.le_refl _
  | case2 first rest more whole read ih =>
    have short := unit_short first rest
    rw [read] at short
    rw [List.length_drop] at ih
    have piece : more + 1 ≤ (if whole then first :: rest.take more else replacement).length := by
      split
      next => simp [List.length_take, short.1]
      next cut =>
        have few := short.2.resolve_left cut
        change more + 1 ≤ 3
        omega
    rw [List.length_append, List.length_cons]
    omega

end Postio.Utf8

import Postio.Model.SubjectLine

set_option autoImplicit false

namespace Postio.SubjectLine

open Lines Lowercase Blanks

/-! ### A collapsed text -/

/-- Where white space is as `collapse` leaves it, and letters are in lower case. -/
structure Even (tables : Tables) (text : List Char) : Prop where
  tidy : Tidy text
  lowered : Lowered tables text

variable (tables : Tables)

variable (text before : List Char)

theorem Even.ending (after : List Char) (even : Even tables (before ++ after)) : Even tables (trimStart after) :=
  ⟨even.tidy.ending before after, fun char inside =>
    even.lowered char (List.mem_append_right before ((List.dropWhile_sublist _).mem inside))⟩

theorem Even.stripped (even : Even tables text) : Even tables (stripAll text) := by
  apply stripAll_keeps (Even tables) text even
  intro whole rest even read
  obtain ⟨before, after, rfl, rfl⟩ := stripOne_suffix whole rest read
  exact even.ending tables before after

theorem splitLeadingTag_cases :
    splitLeadingTag text = ([], text) ∨ ∃ before after, text = '[' :: (before ++ ']' :: after) ∧ ']' ∉ before ∧
      splitLeadingTag text = ('[' :: (before ++ [']']), trimStart after) := by
  unfold splitLeadingTag
  split
  next opens =>
    cases split : splitOnce ']' text with
    | none => exact .inl rfl
    | some parts =>
      obtain ⟨whole, apart⟩ := splitOnce_some ']' text parts.1 parts.2 split
      cases inside : parts.1 with
      | nil =>
        rw [whole, inside] at opens
        simp at opens
      | cons char before =>
        rw [whole, inside] at opens
        obtain rfl : char = '[' := by simpa using opens
        rw [inside] at whole apart
        refine .inr ⟨before, parts.2, whole, fun deeper => apart (List.mem_cons_of_mem _ deeper), ?_⟩
        simp only [inside]
        rfl
  next => exact .inl rfl

theorem splitLeadingTag_tag (before after : List Char) (apart : ']' ∉ before) :
    splitLeadingTag ('[' :: (before ++ ']' :: after)) = ('[' :: (before ++ [']']), trimStart after) := by
  have absent : ']' ∉ '[' :: before := by simpa using apart
  unfold splitLeadingTag
  rw [if_pos (by rfl), ← List.cons_append, splitOnce_append ']' ('[' :: before) after absent]
  rfl

theorem undecorated_plain (even : Even tables text) (plain : splitLeadingTag text = ([], text)) :
    undecorated text = stripAll text := by
  unfold undecorated
  rw [plain]
  exact trim_tidy _ (even.stripped tables text).tidy

def tagged (tag body : List Char) : List Char := if body.isEmpty then tag else tag ++ ' ' :: body

theorem undecorated_tag (before after : List Char) (apart : ']' ∉ before)
    (even : Even tables ('[' :: (before ++ ']' :: after))) :
    undecorated ('[' :: (before ++ ']' :: after)) = tagged ('[' :: (before ++ [']'])) (stripAll (trimStart after)) := by
  have tail : Even tables (trimStart after) := by
    have split : '[' :: (before ++ ']' :: after) = ('[' :: (before ++ [']'])) ++ after := by simp
    rw [split] at even
    exact even.ending tables _ after
  unfold undecorated tagged
  rw [splitLeadingTag_tag before after apart]
  simp only [trim_tidy _ (tail.stripped tables _).tidy, List.isEmpty_cons, Bool.false_eq_true, if_false]

theorem stripOne_bracket : stripOne ('[' :: text) = none := by
  cases read : stripOne ('[' :: text) with
  | none => rfl
  | some rest =>
    obtain ⟨char, first, letter⟩ := stripOne_head _ rest read
    have bracket : trimStart ('[' :: text) = '[' :: text := List.dropWhile_cons_of_neg (by decide)
    rw [bracket] at first
    obtain rfl : '[' = char := by simpa using first
    exact absurd letter (by decide)

theorem plain_of_mark (rest : List Char) (read : stripOne text = some rest) : splitLeadingTag text = ([], text) := by
  unfold splitLeadingTag
  rw [if_neg]
  intro opens
  cases text with
  | nil => cases opens
  | cons char text =>
    obtain rfl : char = '[' := by simpa using opens
    rw [stripOne_bracket] at read
    cases read

theorem tagged_even (body : List Char) (tag : Even tables ('[' :: (before ++ [']']))) (even : Even tables body)
    (space : tables.lower ' ' = [' ']) : Even tables (tagged ('[' :: (before ++ [']'])) body) := by
  unfold tagged
  split
  next => exact tag
  next filled =>
    refine ⟨Tidy.spaced _ _ tag.tidy even.tidy (by simp) (by simpa using filled), ?_⟩
    intro char inside
    rcases List.mem_append.mp inside with inside | inside
    next => exact tag.lowered char inside
    next =>
      rcases List.mem_cons.mp inside with rfl | later
      next => exact ⟨by decide, space⟩
      next => exact even.lowered char later

theorem even_tag (after : List Char) (even : Even tables ('[' :: (before ++ ']' :: after))) :
    Even tables ('[' :: (before ++ [']'])) := by
  have split : '[' :: (before ++ ']' :: after) = ('[' :: before) ++ ']' :: after := rfl
  refine ⟨?_, ?_⟩
  next =>
    rw [split] at even
    exact even.tidy.starting ('[' :: before) after ']' (by decide)
  next =>
    intro char inside
    apply even.lowered char
    rw [show '[' :: (before ++ ']' :: after) = ('[' :: (before ++ [']'])) ++ after by simp]
    exact List.mem_append_left _ inside

theorem undecorated_even (even : Even tables text) (space : tables.lower ' ' = [' ']) :
    Even tables (undecorated text) := by
  rcases splitLeadingTag_cases text with plain | ⟨before, after, rfl, apart, _⟩
  next =>
    rw [undecorated_plain tables text even plain]
    exact even.stripped tables text
  next =>
    rw [undecorated_tag tables before after apart even]
    have split : '[' :: (before ++ ']' :: after) = ('[' :: (before ++ [']'])) ++ after := by simp
    have tail := even
    rw [split] at tail
    exact tagged_even tables before _ (even_tag tables before after even)
      ((tail.ending tables _ after).stripped tables _) space

theorem undecorated_tagged (before body : List Char) (apart : ']' ∉ before)
    (even : Even tables (tagged ('[' :: (before ++ [']'])) body)) (tidy : Tidy body) (read : stripOne body = none) :
    undecorated (tagged ('[' :: (before ++ [']'])) body) = tagged ('[' :: (before ++ [']'])) body := by
  unfold tagged at even ⊢
  split at even
  next empty =>
    obtain rfl := List.isEmpty_iff.mp empty
    have whole : '[' :: (before ++ [']']) = '[' :: (before ++ ']' :: []) := rfl
    simp only [List.isEmpty_nil, if_true]
    rw [whole, undecorated_tag tables before [] apart even]
    rfl
  next filled =>
    rw [if_neg filled]
    have whole : '[' :: (before ++ [']']) ++ ' ' :: body = '[' :: (before ++ ']' :: (' ' :: body)) := by simp
    rw [whole] at even ⊢
    rw [undecorated_tag tables before (' ' :: body) apart even]
    have stripped : trimStart (' ' :: body) = body := by
      rw [show ' ' :: body = [' '] ++ body by rfl, trimStart_blanks [' '] body (forall_of_all _ (by decide)), trimStart_tidy body tidy]
    unfold tagged
    rw [stripped, stripAll_done body read, if_neg filled]
    simp

theorem undecorated_again (even : Even tables text) (space : tables.lower ' ' = [' '])
    (some_tag : splitLeadingTag text ≠ ([], text)) : undecorated (undecorated text) = undecorated text := by
  have again := undecorated_even tables text even space
  rcases splitLeadingTag_cases text with plain | ⟨before, after, rfl, apart, _⟩
  next => exact absurd plain some_tag
  next =>
    have split : '[' :: (before ++ ']' :: after) = ('[' :: (before ++ [']'])) ++ after := by simp
    have tail := even
    rw [split] at tail
    rw [undecorated_tag tables before after apart even] at again ⊢
    exact undecorated_tagged tables before _ apart again ((tail.ending tables _ after).stripped tables _).tidy (stripAll_ends _)

theorem undecorated_same_iff (even : Even tables text) (read : stripOne text = none) :
    undecorated text = text <-> settled text = true := by
  rcases splitLeadingTag_cases text with plain | ⟨before, after, rfl, apart, cut⟩
  next =>
    rw [undecorated_plain tables text even plain, stripAll_done text read]
    unfold settled
    rw [plain]
    simp
  next =>
    have split : '[' :: (before ++ ']' :: after) = ('[' :: (before ++ [']'])) ++ after := by simp
    have tail := even
    rw [split] at tail
    have behind := (tail.ending tables _ after).tidy
    rw [undecorated_tag tables before after apart even]
    unfold settled
    rw [cut]
    simp only [List.isEmpty_cons, Bool.false_or, Bool.or_eq_true, List.isEmpty_iff, Bool.and_eq_true, decide_eq_true_eq,
      Option.isNone_iff_eq_none]
    rw [split, List.append_right_inj]
    have bare : trimStart after = [] <-> after = [] := by
      constructor
      next =>
        intro blank
        rcases List.eq_nil_or_concat after with empty | ⟨earlier, last, whole⟩
        next => exact empty
        next =>
          rw [List.concat_eq_append] at whole
          have solid := tail.tidy.closes last (by rw [whole, ← List.append_assoc, List.getLast?_append]; rfl)
          have among := List.dropWhile_eq_nil_iff.mp blank last (by rw [whole]; simp)
          rw [solid] at among
          cases among
      next => rintro rfl; rfl
    constructor
    next =>
      intro same
      unfold tagged at same
      split at same
      next => exact .inl (bare.mpr (List.append_cancel_left (same.symm.trans (List.append_nil _).symm)))
      next =>
        have rest := (List.append_cancel_left same).symm
        have reads : trimStart after = stripAll (trimStart after) := by
          conv_lhs => rw [rest]
          rw [show ' ' :: stripAll (trimStart after) = [' '] ++ stripAll (trimStart after) by rfl,
            trimStart_blanks [' '] _ (forall_of_all _ (by decide))]
          exact trimStart_tidy _ ((tail.ending tables _ after).stripped tables _).tidy
        refine .inr ⟨?_, ?_⟩
        next => rw [← reads] at rest; exact rest
        next => rw [reads]; exact stripAll_ends _
    next =>
      rintro (empty | ⟨rest, stripped⟩)
      next =>
        rw [bare.mp empty, List.append_nil]
        rfl
      next =>
        unfold tagged
        rw [stripAll_done _ stripped]
        split
        next empty =>
          rw [bare.mp (List.isEmpty_iff.mp empty)] at rest
          cases rest
        next => rw [← rest]

/-! ### Marks before a text -/

theorem fixed_of_lower (lawful : tables.Lawful) (char : Char) (small : char.toNat < 128) (same : char.toLower = char) :
    tables.lower char = [char] := by
  rw [lawful.ascii char small, same]

theorem lower_of_isLower (char : Char) (letter : char.toLower.isLower = true) : char.toNat < 128 := by
  by_contra large
  have same : char.toLower = char := by
    unfold Char.toLower
    rw [dif_neg]
    rintro ⟨_, high⟩
    rw [UInt32.le_iff_toNat_le] at high
    have last : 'Z'.val.toNat = 90 := rfl
    change char.toNat ≤ _ at high
    omega
  rw [same] at letter
  unfold Char.isLower at letter
  simp only [ge_iff_le, Bool.and_eq_true, decide_eq_true_eq, UInt32.le_iff_toNat_le] at letter
  have last : 'z'.val.toNat = 122 := rfl
  have high := letter.2
  change char.toNat ≤ _ at high
  omega

theorem digit_fixed (lawful : tables.Lawful) (char : Char) (digit : char.isDigit = true) : tables.lower char = [char] := by
  unfold Char.isDigit at digit
  simp only [ge_iff_le, Bool.and_eq_true, decide_eq_true_eq, UInt32.le_iff_toNat_le] at digit
  have last : '9'.val.toNat = 57 := rfl
  have high := digit.2
  change char.toNat ≤ _ at high
  apply fixed_of_lower tables lawful char (by omega)
  unfold Char.toLower
  rw [dif_neg]
  rintro ⟨low, _⟩
  rw [ge_iff_le, UInt32.le_iff_toNat_le] at low
  have first : 'A'.val.toNat = 65 := rfl
  change _ ≤ char.toNat at low
  omega

theorem counter_fixed (lawful : tables.Lawful) (counter : List Char) (counts : Counts counter) :
    ∀ char ∈ counter, tables.lower char = [char] := by
  have bracket : ∀ sign ∈ ['[', ']', '(', ')'], tables.lower sign = [sign] := by
    intro sign inside
    have ascii : ∀ sign ∈ ['[', ']', '(', ')'], sign.toNat < 128 ∧ sign.toLower = sign :=
      forall_of_all _ (by decide +kernel)
    exact fixed_of_lower tables lawful sign (ascii sign inside).1 (ascii sign inside).2
  have between : ∀ opening closing (digits : List Char), opening ∈ ['[', ']', '(', ')'] -> closing ∈ ['[', ']', '(', ')'] ->
      digits.all Char.isDigit = true -> ∀ char ∈ opening :: (digits ++ [closing]), tables.lower char = [char] := by
    intro opening closing digits first last all_digits char inside
    rcases List.mem_cons.mp inside with rfl | inside
    next => exact bracket char first
    next =>
      rcases List.mem_append.mp inside with inside | inside
      next => exact digit_fixed tables lawful char (List.all_eq_true.mp all_digits char inside)
      next =>
        obtain rfl := List.mem_singleton.mp inside
        exact bracket char last
  rcases counts with rfl | ⟨digits, _, all_digits, rfl | rfl⟩
  next => simp
  next => exact between '[' ']' digits (by decide) (by decide) all_digits
  next => exact between '(' ')' digits (by decide) (by decide) all_digits

theorem spelled_lower (lawful : tables.Lawful) (spelled word : List Char) (known : word ∈ prefixes)
    (folded : spelled.map Char.toLower = word) : spelled.flatMap tables.lower = word := by
  have letters : ∀ char ∈ spelled, tables.lower char = [char.toLower] := by
    intro char inside
    apply lawful.ascii
    apply lower_of_isLower
    have among : char.toLower ∈ word := folded ▸ List.mem_map_of_mem inside
    exact List.all_eq_true.mp (prefixes_letters word known).2 _ among
  rw [← folded]
  clear folded
  induction spelled with
  | nil => rfl
  | cons char spelled ih =>
    rw [List.flatMap_cons, letters char List.mem_cons_self, ih (fun other inside => letters other (List.mem_cons_of_mem _ inside))]
    rfl

theorem Marker.lower_text (lawful : tables.Lawful) (marker : Marker) : marker.text.flatMap tables.lower = marker.lowered := by
  have blanks : ∀ part : List Char, (∀ char ∈ part, char ∈ marker.before ++ marker.gap ++ marker.after) ->
      part.flatMap tables.lower = part :=
    fun part among => flatMap_fixed tables part (fun char inside => (lawful.blank char (marker.blank char (among char inside))).1)
  have colon : tables.lower ':' = [':'] := fixed_of_lower tables lawful ':' (by decide) (by decide)
  unfold Marker.text Marker.lowered
  simp only [List.flatMap_append, List.flatMap_cons, colon]
  rw [blanks marker.before (fun char inside => by simp [inside]), blanks marker.gap (fun char inside => by simp [inside]),
    blanks marker.after (fun char inside => by simp [inside]),
    spelled_lower tables lawful marker.spelled marker.word marker.known marker.folded,
    flatMap_fixed tables marker.counter (counter_fixed tables lawful marker.counter marker.counts)]
  rfl

theorem Marker.text_plain (marker : Marker) : sigma ∉ marker.text := by
  have blanks : sigma ∉ marker.before ++ marker.gap ++ marker.after :=
    fun inside => absurd (marker.blank sigma inside) (by decide)
  have spelled : sigma ∉ marker.spelled := by
    intro inside
    have among : sigma.toLower ∈ marker.word := marker.folded ▸ List.mem_map_of_mem inside
    exact absurd (List.all_eq_true.mp (prefixes_letters marker.word marker.known).2 _ among) (by decide)
  have counter : sigma ∉ marker.counter := by
    have digit : ∀ digits : List Char, digits.all Char.isDigit = true -> sigma ∉ digits :=
      fun digits all_digits inside => absurd (List.all_eq_true.mp all_digits sigma inside) (by decide)
    have signs : sigma ≠ '[' ∧ sigma ≠ ']' ∧ sigma ≠ '(' ∧ sigma ≠ ')' := by decide
    rcases marker.counts with empty | ⟨digits, _, all_digits, whole | whole⟩
    next => simp [empty]
    next => simp [whole, digit digits all_digits, signs]
    next => simp [whole, digit digits all_digits, signs]
  have colon : sigma ≠ ':' := by decide
  unfold Marker.text
  simp only [List.mem_append, not_or] at blanks
  simp [blanks, spelled, counter, colon]

theorem decoration_plain (markers : List Marker) : sigma ∉ decoration markers := by
  intro inside
  obtain ⟨marker, _, deeper⟩ := List.mem_flatMap.mp inside
  exact marker.text_plain deeper

theorem decoration_lower (lawful : tables.Lawful) (markers : List Marker) :
    (decoration markers).flatMap tables.lower = markers.flatMap Marker.lowered := by
  unfold decoration
  induction markers with
  | nil => rfl
  | cons marker markers ih => rw [List.flatMap_cons, List.flatMap_append, ih, marker.lower_text tables lawful, List.flatMap_cons]

theorem stripOne_lowered (marker : Marker) (rest : List Char) :
    stripOne (collapse (marker.lowered ++ rest)) = some (collapse rest) := by
  have blanks : ∀ part : List Char, (∀ char ∈ part, char ∈ marker.before ++ marker.gap ++ marker.after) ->
      ∀ char ∈ part, isWhitespace char = true := fun part among char inside => marker.blank char (among char inside)
  have before := blanks marker.before (fun char inside => by simp [inside])
  have gap := blanks marker.gap (fun char inside => by simp [inside])
  have after := blanks marker.after (fun char inside => by simp [inside])
  have word_solid : ∀ char ∈ marker.word, isWhitespace char = false :=
    fun char inside => (isLower_solid char (List.all_eq_true.mp (prefixes_letters marker.word marker.known).2 char inside)).1
  have counter_solid : ∀ char ∈ marker.counter, isWhitespace char = false := by
    have signs : isWhitespace '[' = false ∧ isWhitespace ']' = false ∧ isWhitespace '(' = false ∧ isWhitespace ')' = false := by
      decide
    intro char inside
    rcases marker.counts with empty | ⟨digits, _, all_digits, whole | whole⟩
    next => rw [empty] at inside; cases inside
    all_goals
      rw [whole, List.mem_cons, List.mem_append, List.mem_singleton] at inside
      rcases inside with rfl | deeper | rfl
      next => simp [signs]
      next => exact Lines.digit_solid char (List.all_eq_true.mp all_digits char deeper)
      next => simp [signs]
  have kept : collapse (marker.word ++ marker.counter) = marker.word ++ marker.counter := by
    rcases List.eq_nil_or_concat (marker.word ++ marker.counter) with empty | ⟨front, last, whole⟩
    next => rw [empty]; rfl
    next =>
      have solid : ∀ char ∈ marker.word ++ marker.counter, isWhitespace char = false := by
        intro char inside
        rcases List.mem_append.mp inside with inside | inside
        next => exact word_solid char inside
        next => exact counter_solid char inside
      rw [whole] at solid ⊢
      rw [List.concat_eq_append] at solid ⊢
      have last_solid := solid last (by simp)
      rw [collapse_solid front last [] (fun char inside => solid char (List.mem_append_left _ inside)) last_solid,
        collapse_last last last_solid]
  obtain ⟨first, first_blank, joined⟩ := collapse_append (marker.word ++ marker.counter) (marker.gap ++ ':' :: (marker.after ++ rest))
  obtain ⟨second, second_blank, colon⟩ := collapse_cons ':' (marker.after ++ rest) (by decide)
  have read : collapse (marker.lowered ++ rest) =
      marker.word ++ (marker.counter ++ (first ++ ':' :: (second ++ collapse rest))) := by
    have whole : marker.lowered ++ rest =
        marker.before ++ ((marker.word ++ marker.counter) ++ (marker.gap ++ ':' :: (marker.after ++ rest))) := by
      simp [Marker.lowered]
    rw [whole, collapse_blanks _ _ before, joined, kept, collapse_blanks _ _ gap, colon, collapse_blanks _ _ after]
    simp
  rw [read, stripOne_mark marker.word marker.counter first _ marker.known marker.counts first_blank,
    trimStart_blanks second _ second_blank, trimStart_tidy _ (collapse_tidy rest)]

theorem stripAll_decoration (markers : List Marker) (rest : List Char) :
    stripAll (collapse (markers.flatMap Marker.lowered ++ rest)) = stripAll (collapse rest) := by
  induction markers with
  | nil => rfl
  | cons marker markers ih =>
    rw [List.flatMap_cons, List.append_assoc, stripAll_step _ _ (stripOne_lowered marker _), ih]

end Postio.SubjectLine

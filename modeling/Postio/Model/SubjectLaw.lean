import Postio.Model.SubjectStable

set_option autoImplicit false

namespace Postio.SubjectLine

open Lines Lowercase Blanks

variable (tables : Tables)

/-! ### The subject that is read -/

theorem read_even (lawful : tables.Lawful) (before subject : List Char) : Even tables (collapse (lowerAfter tables before subject)) := by
  refine ⟨collapse_tidy _, ?_⟩
  intro char inside
  rcases mem_collapse _ char inside with among | rfl
  next => exact lowerAfter_lowered tables before subject lawful char among
  next => exact ⟨by decide, (lawful.blank ' ' (by decide)).1⟩

theorem normalizeSubject_again (lawful : tables.Lawful) (subject : List Char) :
    normalizeSubject tables (normalizeSubject tables subject) = undecorated (normalizeSubject tables subject) := by
  have even := undecorated_even tables _ (read_even tables lawful [] subject) (lawful.blank ' ' (by decide)).1
  have whole : normalizeSubject tables subject = undecorated (collapse (lowerAfter tables [] subject)) := rfl
  rw [← whole] at even
  have lowered := toLowercase_lowered tables _ even.lowered
  have tidy := collapse_of_tidy _ even.tidy
  generalize normalizeSubject tables subject = text at lowered tidy
  unfold normalizeSubject
  rw [lowered, tidy]

theorem stripAll_marked (lawful : tables.Lawful) (markers : List Marker) (rest : List Char) (apart : opensOnSigma tables rest = false) :
    stripAll (collapse (toLowercase tables (decoration markers ++ rest))) = stripAll (collapse (toLowercase tables rest)) := by
  unfold toLowercase
  rw [lowerAfter_append tables [] _ rest (decoration_plain markers), decoration_lower tables lawful markers, stripAll_decoration,
    lowerAfter_apart tables _ [] rest lawful apart]

theorem decoration_untagged (lawful : tables.Lawful) (marker : Marker) (markers : List Marker) (rest : List Char) :
    splitLeadingTag (collapse (toLowercase tables (decoration (marker :: markers) ++ rest))) =
      ([], collapse (toLowercase tables (decoration (marker :: markers) ++ rest))) := by
  unfold toLowercase
  rw [lowerAfter_append tables [] _ rest (decoration_plain _), decoration_lower tables lawful (marker :: markers),
    List.flatMap_cons, List.append_assoc]
  exact plain_of_mark _ _ (stripOne_lowered marker _)

theorem normalizeSubject_marked (lawful : tables.Lawful) (marker : Marker) (markers : List Marker) (rest : List Char) :
    normalizeSubject tables (decoration (marker :: markers) ++ rest) =
      stripAll (collapse (toLowercase tables (decoration (marker :: markers) ++ rest))) :=
  undecorated_plain tables _ (read_even tables lawful [] _) (decoration_untagged tables lawful marker markers rest)

theorem trimStart_split (text : List Char) : ∃ blanks, (∀ char ∈ blanks, isWhitespace char = true) ∧ text = blanks ++ trimStart text :=
  ⟨text.takeWhile isWhitespace, fun _ inside => List.mem_takeWhile_imp inside, List.takeWhile_append_dropWhile.symm⟩

theorem blanks_plain (blanks : List Char) (blank : ∀ char ∈ blanks, isWhitespace char = true) : sigma ∉ blanks :=
  fun inside => absurd (blank sigma inside) (by decide)

theorem blanks_lower (lawful : tables.Lawful) (blanks : List Char) (blank : ∀ char ∈ blanks, isWhitespace char = true) :
    blanks.flatMap tables.lower = blanks :=
  flatMap_fixed tables blanks (fun char inside => (lawful.blank char (blank char inside)).1)

theorem leadingTag_split (subject tag rest : List Char) (read : leadingTag subject = some (tag, rest)) :
    subject = tag ++ rest ∧ ∃ blanks inner, (∀ char ∈ blanks, isWhitespace char = true) ∧ ']' ∉ inner ∧
      tag = blanks ++ '[' :: (inner ++ [']']) := by
  unfold leadingTag at read
  split at read
  next opens =>
    obtain ⟨parts, split, same⟩ := Option.map_eq_some_iff.mp read
    cases same
    obtain ⟨whole, apart⟩ := splitOnce_some ']' subject parts.1 parts.2 split
    refine ⟨by rw [whole]; simp, ?_⟩
    obtain ⟨blanks, blank, front⟩ := trimStart_split parts.1
    rw [whole] at opens
    cases inside : trimStart parts.1 with
    | nil =>
      rw [inside, List.append_nil] at front
      rw [front, trimStart_blanks blanks _ blank] at opens
      exact absurd opens (by rw [show trimStart (']' :: parts.2) = ']' :: parts.2 from List.dropWhile_cons_of_neg (by decide)]; simp)
    | cons char inner =>
      have solid : isWhitespace char = false := by
        have first := List.head?_dropWhile_not isWhitespace parts.1
        rw [show parts.1.dropWhile isWhitespace = char :: inner from inside] at first
        simpa using first
      rw [inside] at front
      have kept : trimStart (char :: inner ++ ']' :: parts.2) = char :: inner ++ ']' :: parts.2 :=
        List.dropWhile_cons_of_neg (by simp [solid])
      rw [front, List.append_assoc, trimStart_blanks blanks _ blank, kept] at opens
      obtain rfl : char = '[' := by simpa using opens
      refine ⟨blanks, inner, blank, ?_, ?_⟩
      next =>
        intro deeper
        apply apart
        rw [front]
        simp [deeper]
      next =>
        rw [front]
        simp
  next => cases read

theorem tag_read (lawful : tables.Lawful) (blanks inner : List Char) (blank : ∀ char ∈ blanks, isWhitespace char = true)
    (apart : ']' ∉ inner) : ∃ before, ']' ∉ before ∧ ∀ rest, ∃ gap, (∀ char ∈ gap, isWhitespace char = true) ∧
      collapse (toLowercase tables ((blanks ++ '[' :: (inner ++ [']'])) ++ rest)) =
        '[' :: (before ++ ']' :: (gap ++ collapse (toLowercase tables rest))) := by
  have opening : tables.lower '[' = ['['] := fixed_of_lower tables lawful '[' (by decide) (by decide)
  have closing : tables.lower ']' = [']'] := fixed_of_lower tables lawful ']' (by decide) (by decide)
  obtain ⟨front, lowered, sources⟩ := lowerAfter_last tables ('[' :: (blanks.reverse ++ [])) inner ']' (by decide) closing
  have front_apart : ']' ∉ front := by
    intro inside
    rcases sources ']' inside with final | middle | ⟨source, among, _, from_source⟩
    next => exact absurd final (by decide)
    next => exact absurd middle (by decide)
    next => exact apart (lower_source tables lawful source ']' (by decide) (by decide) from_source ▸ among)
  have whole : ∀ rest, toLowercase tables ((blanks ++ '[' :: (inner ++ [']'])) ++ rest) =
      blanks ++ '[' :: (front ++ ']' :: toLowercase tables rest) := by
    intro rest
    have cut := lowerAfter_barrier tables [] (blanks ++ '[' :: inner) rest ']' (lawful.brackets ']' (by decide)) (by decide)
    have split : (blanks ++ '[' :: (inner ++ [']'])) ++ rest = (blanks ++ '[' :: inner) ++ ']' :: rest := by simp
    have again : (blanks ++ '[' :: inner) ++ [']'] = blanks ++ '[' :: (inner ++ [']']) := by simp
    unfold toLowercase
    rw [split, cut, again, lowerAfter_append tables [] blanks _ (blanks_plain blanks blank), blanks_lower tables lawful blanks blank]
    simp only [lowerAfter, if_neg (show '[' ≠ sigma by decide), opening, lowered]
    simp
  obtain ⟨inside, inside_blank, first⟩ := collapse_cons '[' (front ++ [']']) (by decide)
  obtain ⟨between, between_blank, second⟩ := collapse_append front [']']
  rw [collapse_last ']' (by decide)] at second
  have blank_apart : ∀ gap : List Char, (∀ char ∈ gap, isWhitespace char = true) -> ']' ∉ gap :=
    fun gap all_blank among => absurd (all_blank ']' among) (by decide)
  refine ⟨inside ++ (collapse front ++ between), ?_, ?_⟩
  next =>
    simp only [List.mem_append, not_or]
    refine ⟨blank_apart inside inside_blank, ?_, blank_apart between between_blank⟩
    intro among
    rcases mem_collapse front ']' among with deeper | space
    next => exact front_apart deeper
    next => exact absurd space (by decide)
  next =>
    intro rest
    obtain ⟨gap, gap_blank, joined⟩ := collapse_append ('[' :: (front ++ [']'])) (toLowercase tables rest)
    refine ⟨gap, gap_blank, ?_⟩
    have split : '[' :: (front ++ ']' :: toLowercase tables rest) = ('[' :: (front ++ [']'])) ++ toLowercase tables rest := by simp
    rw [whole, collapse_blanks blanks _ blank, split, joined, first, second]
    simp

theorem untagged_read (lawful : tables.Lawful) (subject : List Char) (read : leadingTag subject = none) :
    splitLeadingTag (collapse (toLowercase tables subject)) = ([], collapse (toLowercase tables subject)) := by
  rcases splitLeadingTag_cases (collapse (toLowercase tables subject)) with plain | ⟨before, after, whole, _, _⟩
  next => exact plain
  next =>
    exfalso
    have closing : ']' ∈ subject := by
      have among : ']' ∈ collapse (toLowercase tables subject) := by rw [whole]; simp
      rcases mem_collapse _ ']' among with deeper | space
      next => exact lowerAfter_source tables [] subject lawful ']' (by decide) (by decide) deeper
      next => exact absurd space (by decide)
    have opening : (trimStart subject).head? = some '[' := by
      obtain ⟨blanks, blank, split⟩ := trimStart_split subject
      have lowered : toLowercase tables subject = blanks ++ lowerAfter tables (blanks.reverse ++ []) (trimStart subject) := by
        conv_lhs => rw [split]
        unfold toLowercase
        rw [lowerAfter_append tables [] blanks _ (blanks_plain blanks blank), blanks_lower tables lawful blanks blank]
      rw [lowered, collapse_blanks blanks _ blank] at whole
      cases inside : trimStart subject with
      | nil =>
        rw [inside] at whole
        cases whole
      | cons char rest =>
        have solid : isWhitespace char = false := by
          have first := List.head?_dropWhile_not isWhitespace subject
          rw [show subject.dropWhile isWhitespace = char :: rest from inside] at first
          simpa using first
        rw [inside, lowerAfter] at whole
        -- The first character in lower case is the bracket, and a bracket comes from a bracket.
        have first : ∀ lowered more, isWhitespace lowered = false ->
            collapse (lowered :: more) = '[' :: (before ++ ']' :: after) -> lowered = '[' := by
          intro lowered more solid same
          obtain ⟨gap, _, reads⟩ := collapse_cons lowered more solid
          rw [reads] at same
          exact (List.cons_eq_cons.mp same).1
        split at whole
        next =>
          rw [List.singleton_append] at whole
          have bracket := first _ _ (by split <;> decide) whole
          split at bracket <;> exact absurd bracket (by decide)
        next =>
          obtain ⟨lowered, more, reads⟩ := List.exists_cons_of_ne_nil (lawful.filled char)
          have among : lowered ∈ tables.lower char := by rw [reads]; exact List.mem_cons_self
          rw [reads, List.cons_append] at whole
          obtain rfl := first lowered _ (lawful.solid char solid lowered among) whole
          rw [← lower_source tables lawful char '[' (by decide) (by decide) among]
          rfl
    unfold leadingTag at read
    rw [if_pos opening, Option.map_eq_none_iff] at read
    cases split : splitOnce ']' subject with
    | none => exact splitOnce_absent ']' subject split closing
    | some parts => rw [split] at read; cases read

theorem sigma_shows (lawful : tables.Lawful) (text : List Char) (opens : opensOnSigma tables text = true) (before : List Char)
    (cased : thenCased tables before = true) :
    stripAll (collapse (lowerAfter tables before text)) ≠ stripAll (collapse (lowerAfter tables [] text)) := by
  obtain ⟨front, rest, ignored, reads⟩ := lowerAfter_opens tables text lawful opens
  have solid : ∀ char ∈ front, isWhitespace char = false := by
    intro char inside
    rw [Bool.eq_false_iff]
    intro blank
    have barrier := (lawful.blank char blank).2.2
    rw [ignored char inside] at barrier
    cases barrier
  have front_sign : ∀ char ∈ front, char.isLower = false := by
    intro char inside
    rw [Bool.eq_false_iff]
    intro letter
    have seen := (lawful.alphabetic char (by change (char.isUpper || char.isLower) = true; simp [letter])).2
    rw [ignored char inside] at seen
    cases seen
  -- Neither the sigma nor what it looks past begins a mark, so both texts are left as they are.
  have kept : ∀ mark, isWhitespace mark = false -> mark.isLower = false ->
      ∃ more, stripAll (collapse (front ++ mark :: rest)) = front ++ mark :: more := by
    intro mark mark_solid mark_sign
    obtain ⟨gap, _, first⟩ := collapse_cons mark rest mark_solid
    refine ⟨gap ++ collapse rest, ?_⟩
    rw [collapse_solid front mark rest solid mark_solid, first]
    apply stripAll_done
    cases read : stripOne (front ++ mark :: (gap ++ collapse rest)) with
    | none => rfl
    | some stripped =>
      obtain ⟨char, head, letter⟩ := stripOne_head _ stripped read
      cases front with
      | nil =>
        rw [List.nil_append, show trimStart (mark :: (gap ++ collapse rest)) = mark :: (gap ++ collapse rest) from
          List.dropWhile_cons_of_neg (by simp [mark_solid])] at head
        obtain rfl : mark = char := by simpa using head
        rw [mark_sign] at letter
        cases letter
      | cons opening front =>
        rw [show trimStart (opening :: front ++ mark :: (gap ++ collapse rest)) = opening :: front ++ mark :: (gap ++ collapse rest) from
          List.dropWhile_cons_of_neg (by simp [solid opening List.mem_cons_self])] at head
        obtain rfl : opening = char := by simpa using head
        rw [front_sign opening List.mem_cons_self] at letter
        cases letter
  obtain ⟨final_rest, final⟩ := kept finalSigma (by decide) (by decide)
  obtain ⟨middle_rest, middle⟩ := kept middleSigma (by decide) (by decide)
  rw [reads before, reads [], cased, show thenCased tables [] = false from rfl]
  simp only [if_true, Bool.false_eq_true, if_false, final, middle]
  intro same
  have marks := (List.cons_eq_cons.mp (List.append_cancel_left same)).1
  exact absurd marks (by decide)

def re : Marker :=
  { word := "re".toList, before := [], spelled := "re".toList, counter := [], gap := [], after := []
    known := by decide, folded := by decide, counts := .inl rfl
    blank := forall_of_all _ (by decide) }

theorem re_lowered (lawful : tables.Lawful) (rest : List Char) :
    collapse (toLowercase tables (decoration [re] ++ rest)) = collapse (re.lowered ++ lowerAfter tables (re.text.reverse ++ []) rest) := by
  have text : decoration [re] = re.text := by decide
  unfold toLowercase
  rw [text, lowerAfter_append tables [] _ rest re.text_plain, re.lower_text tables lawful]

theorem re_cased (lawful : tables.Lawful) : thenCased tables (re.text.reverse ++ []) = true := by
  have text : re.text.reverse ++ [] = [':', 'e', 'r'] := by decide
  have letter := lawful.alphabetic 'e' (by decide)
  rw [text, thenCased_cons, if_pos lawful.colon, thenCased_cons, letter.2, letter.1]
  rfl

theorem tagged_cancel (tag first second : List Char) (same : tagged tag first = tagged tag second) : first = second := by
  unfold tagged at same
  split at same
  next empty =>
    split at same
    next also => rw [List.isEmpty_iff.mp empty, List.isEmpty_iff.mp also]
    next => exact absurd (congrArg List.length same) (by simp)
  next =>
    split at same
    next => exact absurd (congrArg List.length same) (by simp)
    next => simpa using same

theorem normalizeSubject_tag (lawful : tables.Lawful) (before gap : List Char) (subject rest : List Char) (apart : ']' ∉ before)
    (blank : ∀ char ∈ gap, isWhitespace char = true)
    (read : collapse (toLowercase tables subject) = '[' :: (before ++ ']' :: (gap ++ collapse (toLowercase tables rest)))) :
    normalizeSubject tables subject = tagged ('[' :: (before ++ [']'])) (stripAll (collapse (toLowercase tables rest))) := by
  have even := read_even tables lawful [] subject
  have whole : toLowercase tables subject = lowerAfter tables [] subject := rfl
  rw [← whole, read] at even
  unfold normalizeSubject
  rw [read, undecorated_tag tables before _ apart even, trimStart_blanks gap _ blank, trimStart_tidy _ (collapse_tidy _)]

theorem tag_apart (lawful : tables.Lawful) (blanks more : List Char) (blank : ∀ char ∈ blanks, isWhitespace char = true) :
    opensOnSigma tables (blanks ++ '[' :: more) = false := by
  have passed : ∀ char rest, tables.caseIgnorable char = false -> char ≠ sigma -> opensOnSigma tables (char :: rest) = false := by
    intro char rest seen other
    rw [opensOnSigma_cons, seen]
    simp [other]
  cases blanks with
  | nil => exact passed '[' more (lawful.brackets '[' (by decide)).2 (by decide)
  | cons char blanks =>
    have is_blank := blank char List.mem_cons_self
    apply passed char _ (lawful.blank char is_blank).2.2
    rintro rfl
    exact absurd is_blank (by decide)

/-- Normalising is stable under replies where no sigma opens what marks stand before, and where what is
left of the subject without the marks before it has no tag with more to strip or to space behind it. -/
theorem stable_iff (lawful : tables.Lawful) (subject : List Char) : Stable tables subject <-> steady tables subject = true := by
  have space := (lawful.blank ' ' (by decide)).1
  have even := read_even tables lawful [] subject
  have left_even := even.stripped tables
  have left_ends := stripAll_ends (collapse (lowerAfter tables [] subject))
  have settled_iff := undecorated_same_iff tables _ left_even left_ends
  have again := normalizeSubject_again tables lawful subject
  unfold steady
  rw [Bool.and_eq_true, Bool.not_eq_true']
  cases read : leadingTag subject with
  | none =>
    have reads : marked subject = subject := by unfold marked; rw [read]; rfl
    have normal : normalizeSubject tables subject = stripAll (collapse (toLowercase tables subject)) :=
      undecorated_plain tables _ even (untagged_read tables lawful subject read)
    rw [reads]
    constructor
    next =>
      rintro ⟨once, replies⟩
      refine ⟨?_, ?_⟩
      next =>
        rw [Bool.eq_false_iff]
        intro opens
        have replied := (replies [re]).1
        rw [normalizeSubject_marked tables lawful, re_lowered tables lawful, stripAll_step _ _ (stripOne_lowered re _), normal] at replied
        exact sigma_shows tables lawful subject opens _ (re_cased tables lawful) replied
      next =>
        rw [again, normal] at once
        exact settled_iff.mp once
    next =>
      rintro ⟨apart, quiet⟩
      refine ⟨?_, ?_⟩
      next =>
        rw [again, normal]
        exact settled_iff.mpr quiet
      next =>
        intro markers
        refine ⟨?_, fun tag rest some_tag => absurd (read.symm.trans some_tag) (by simp)⟩
        cases markers with
        | nil => rfl
        | cons marker markers =>
          rw [normalizeSubject_marked tables lawful, stripAll_marked tables lawful _ subject apart, normal]
  | some parts =>
    obtain ⟨tag, rest⟩ := parts
    obtain ⟨rfl, blanks, inner, blank, inner_apart, rfl⟩ := leadingTag_split subject tag rest read
    obtain ⟨before, before_apart, tag_reads⟩ := tag_read tables lawful blanks inner blank inner_apart
    have reads : marked ((blanks ++ '[' :: (inner ++ [']'])) ++ rest) = rest := by unfold marked; rw [read]; rfl
    have subject_apart : opensOnSigma tables ((blanks ++ '[' :: (inner ++ [']'])) ++ rest) = false := by
      rw [List.append_assoc, List.cons_append]
      exact tag_apart tables lawful blanks _ blank
    obtain ⟨gap, gap_blank, collapsed⟩ := tag_reads rest
    have normal := normalizeSubject_tag tables lawful before gap _ rest before_apart gap_blank collapsed
    have whole : stripAll (collapse (toLowercase tables ((blanks ++ '[' :: (inner ++ [']'])) ++ rest))) =
        collapse (toLowercase tables ((blanks ++ '[' :: (inner ++ [']'])) ++ rest)) := by
      apply stripAll_done
      rw [collapsed]
      exact stripOne_bracket _
    have behind : ∀ markers, normalizeSubject tables ((blanks ++ '[' :: (inner ++ [']'])) ++ (decoration markers ++ rest)) =
        tagged ('[' :: (before ++ [']'])) (stripAll (collapse (toLowercase tables (decoration markers ++ rest)))) := by
      intro markers
      obtain ⟨later_gap, later_blank, later⟩ := tag_reads (decoration markers ++ rest)
      exact normalizeSubject_tag tables lawful before later_gap _ _ before_apart later_blank later
    have whole_after : stripAll (collapse (lowerAfter tables [] ((blanks ++ '[' :: (inner ++ [']'])) ++ rest))) =
      collapse (lowerAfter tables [] ((blanks ++ '[' :: (inner ++ [']'])) ++ rest)) := whole
    rw [whole_after] at settled_iff
    rw [reads, whole]
    constructor
    next =>
      rintro ⟨_, replies⟩
      refine ⟨?_, ?_⟩
      next =>
        rw [Bool.eq_false_iff]
        intro opens
        have replied := (replies [re]).2 _ _ read
        rw [behind, normal] at replied
        have bodies := tagged_cancel _ _ _ replied
        rw [re_lowered tables lawful, stripAll_step _ _ (stripOne_lowered re _)] at bodies
        exact sigma_shows tables lawful rest opens _ (re_cased tables lawful) bodies
      next =>
        have replied := (replies [re]).1
        rw [normalizeSubject_marked tables lawful, stripAll_marked tables lawful _ _ subject_apart, whole] at replied
        exact settled_iff.mp replied.symm
    next =>
      rintro ⟨apart, quiet⟩
      refine ⟨?_, ?_⟩
      next =>
        rw [again]
        apply undecorated_again tables _ even space
        intro plain
        have opens : splitLeadingTag (collapse (toLowercase tables ((blanks ++ '[' :: (inner ++ [']'])) ++ rest))) =
          ('[' :: (before ++ [']']), trimStart (gap ++ collapse (toLowercase tables rest))) := by
          rw [collapsed, splitLeadingTag_tag before _ before_apart]
        have both := opens.symm.trans plain
        exact absurd (congrArg (fun parts => parts.1) both) (by simp)
      next =>
        intro markers
        refine ⟨?_, ?_⟩
        next =>
          cases markers with
          | nil => rfl
          | cons marker markers =>
            rw [normalizeSubject_marked tables lawful, stripAll_marked tables lawful _ _ subject_apart, whole]
            exact (settled_iff.mpr quiet).symm
        next =>
          intro tag other same
          obtain ⟨rfl, rfl⟩ := Prod.mk.inj (Option.some.inj (read.symm.trans same))
          rw [behind, normal, stripAll_marked tables lawful markers rest apart]

theorem toLowercase_ascii (lawful : tables.Lawful) (text : List Char) (ascii : ∀ char ∈ text, char.toNat < 128) :
    toLowercase tables text = text.map Char.toLower := by
  have plain : sigma ∉ text := fun inside => absurd (ascii sigma inside) (by decide)
  unfold toLowercase
  rw [lowerAfter_plain tables [] text plain]
  clear plain
  induction text with
  | nil => rfl
  | cons char text ih =>
    rw [List.flatMap_cons, lawful.ascii char (ascii char List.mem_cons_self),
      ih (fun other inside => ascii other (List.mem_cons_of_mem _ inside))]
    rfl

/-- A reply to a reply that a mailing list has tagged keeps the mark behind the tag. -/
theorem tagged_reply_unstable : plainTables.Lawful ∧ ¬ Stable plainTables "Re: [list] Re: Contract".toList := by
  refine ⟨plainTables_lawful, fun stable => ?_⟩
  have once := stable.1
  have first : normalizeSubject plainTables "Re: [list] Re: Contract".toList = "[list] re: contract".toList := by
    unfold normalizeSubject
    rw [toLowercase_ascii plainTables plainTables_lawful _ (forall_of_all _ (by decide +kernel))]
    decide +kernel
  have second : normalizeSubject plainTables "[list] re: contract".toList = "[list] contract".toList := by
    unfold normalizeSubject
    rw [toLowercase_ascii plainTables plainTables_lawful _ (forall_of_all _ (by decide +kernel))]
    decide +kernel
  rw [first, second] at once
  exact absurd once (by decide +kernel)

theorem stable_iff_tagged : Stable plainTables "[list] Contract".toList :=
  (stable_iff plainTables plainTables_lawful "[list] Contract".toList).mpr (by decide +kernel)

end Postio.SubjectLine

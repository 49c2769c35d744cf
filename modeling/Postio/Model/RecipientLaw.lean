import Postio.Model.Recipients

set_option autoImplicit false

namespace Postio.Recipients

open Lines

/-! ### The parts of an entry -/

variable (mark : Char) (piece entry : List Char) (addresses : List EmailAddress) (name : List Char)
    (address : EmailAddress) (text before after : List Char)

theorem rsplitOnce_here (apart : mark ∉ after) :
    rsplitOnce mark (before ++ mark :: after) = some (before, after) := by
  unfold rsplitOnce
  rw [List.reverse_append, List.reverse_cons, List.append_assoc, List.singleton_append,
    splitOnce_append mark after.reverse before.reverse (by simpa using apart)]
  simp

theorem rsplitOnce_some (split : rsplitOnce mark text = some (before, after)) :
    text = before ++ mark :: after ∧ mark ∉ after := by
  unfold rsplitOnce at split
  obtain ⟨parts, cut, same⟩ := Option.map_eq_some_iff.mp split
  obtain ⟨whole, apart⟩ := splitOnce_some mark text.reverse parts.1 parts.2 cut
  cases same
  refine ⟨?_, by simpa using apart⟩
  have back := congrArg List.reverse whole
  simpa using back

theorem rsplitOnce_none : rsplitOnce mark text = none <-> mark ∉ text := by
  unfold rsplitOnce
  rw [Option.map_eq_none_iff]
  constructor
  next => exact fun none => by simpa using splitOnce_absent mark text.reverse none
  next => exact fun apart => splitOnce_none mark text.reverse (by simpa using apart)

theorem last_mark (other rest : List Char) (apart : mark ∉ after) (also : mark ∉ rest)
    (same : before ++ mark :: after = other ++ mark :: rest) : before = other ∧ after = rest := by
  have read := rsplitOnce_here mark before after apart
  rw [same, rsplitOnce_here mark other rest also] at read
  cases read
  exact ⟨rfl, rfl⟩

theorem unescape_count (escaped : Bool) (text : List Char) (char : Char) (plain : char ≠ '\\') :
    (unescape escaped text).count char = text.count char := by
  induction text generalizing escaped with
  | nil => rfl
  | cons first text ih =>
    rw [unescape]
    split
    next slash =>
      have here : first = '\\' := by
        simp only [Bool.and_eq_true, decide_eq_true_eq] at slash
        exact slash.1
      rw [ih, here, List.count_cons_of_ne (Ne.symm plain)]
    next => rw [List.count_cons, List.count_cons, ih]

theorem unescape_length (escaped : Bool) (text : List Char) : (unescape escaped text).length ≤ text.length := by
  induction text generalizing escaped with
  | nil => exact Nat.le_refl _
  | cons first text ih =>
    rw [unescape]
    split
    next => exact Nat.le_succ_of_le (ih _)
    next => exact Nat.succ_le_succ (ih _)

theorem quotedText_some (inner : List Char) (quoted : quotedText name = some inner) : name = '"' :: (inner ++ ['"']) := by
  unfold quotedText at quoted
  obtain ⟨rest, front, back⟩ := Option.bind_eq_some_iff.mp quoted
  split at back
  next ends =>
    cases back
    rw [stripFront_some _ _ _ front, List.singleton_append, List.dropLast_append_getLast? '"' ends]
  next => cases back

theorem unquote_count (char : Char) (plain : char ≠ '\\') (other : char ≠ '"') :
    (unquote name).count char = name.count char := by
  unfold unquote
  split
  next inner quoted =>
    rw [unescape_count false inner char plain, quotedText_some name inner quoted, List.count_cons_of_ne (Ne.symm other),
      List.count_append, List.count_singleton, if_neg (by simpa using Ne.symm other)]
    rfl
  next => rfl

theorem unquote_length : (unquote name).length ≤ name.length := by
  unfold unquote
  split
  next inner quoted =>
    have shorter := unescape_length false inner
    rw [quotedText_some name inner quoted]
    simp
    omega
  next => exact Nat.le_refl _

theorem trim_count (char : Char) (solid : isWhitespace char = false) : (trim text).count char = text.count char := by
  obtain ⟨lead, trail, blank, also, whole⟩ := trim_split text
  have absent : ∀ blanks : List Char, (∀ other ∈ blanks, isWhitespace other = true) -> blanks.count char = 0 := by
    intro blanks all_blank
    apply List.count_eq_zero_of_not_mem
    intro inside
    rw [all_blank char inside] at solid
    cases solid
  conv_rhs => rw [whole]
  rw [List.count_append, List.count_append, absent lead blank, absent trail also]
  omega

theorem trim_trim : trim (trim text) = trim text := trim_self _ (trim_ends text).1 (trim_ends text).2

/-- What an entry is read as. -/
inductive Reads (entry : List Char) : Option EmailAddress -> Prop where
  | empty (blank : entry = []) : Reads entry none
  | bare (filled : entry ≠ []) (plain : '<' ∉ entry) : Reads entry (some { name := none, address := entry })
  | hollow (before after : List Char) (cut : entry = before ++ '<' :: after) : Reads entry none
  | unnamed (before after : List Char) (cut : entry = before ++ '<' :: after) (apart : '<' ∉ after)
      (filled : trim (after.takeWhile (fun char => char ≠ '>')) ≠ []) :
      Reads entry (some { name := none, address := trim (after.takeWhile (fun char => char ≠ '>')) })
  | named (before after : List Char) (cut : entry = before ++ '<' :: after) (apart : '<' ∉ after)
      (filled : unquote (trim before) ≠ []) : Reads entry (some { name := some (unquote (trim before))
                                                                  address := trim (after.takeWhile (fun char => char ≠ '>')) })

theorem parseOne_reads : Reads entry (parseOne entry) := by
  unfold parseOne
  split
  next empty => exact .empty (List.isEmpty_iff.mp empty)
  next filled =>
    cases split : rsplitOnce '<' entry with
    | none => exact .bare (by simpa using filled) ((rsplitOnce_none '<' entry).mp split)
    | some parts =>
      obtain ⟨whole, apart⟩ := rsplitOnce_some '<' entry parts.1 parts.2 split
      simp only
      split
      next => exact .hollow parts.1 parts.2 whole
      next some_part =>
        by_cases nameless : unquote (trim parts.1) = []
        case pos =>
          rw [nameless]
          refine .unnamed parts.1 parts.2 whole apart ?_
          intro empty
          rw [nameless, List.isEmpty_nil, Bool.and_true, List.isEmpty_iff] at some_part
          exact some_part empty
        case neg =>
          rw [if_neg (by simpa using nameless)]
          exact .named parts.1 parts.2 whole apart nameless

theorem parseOne_bare (filled : entry ≠ []) (plain : '<' ∉ entry) :
    parseOne entry = some { name := none, address := entry } := by
  unfold parseOne
  rw [if_neg (by simpa using filled), (rsplitOnce_none '<' entry).mpr plain]

theorem parseOne_named (apart : '<' ∉ after) (filled : unquote (trim before) ≠ []) :
    parseOne (before ++ '<' :: after) =
      some { name := some (unquote (trim before)), address := trim (after.takeWhile (fun char => char ≠ '>')) } := by
  have named : (unquote (trim before)).isEmpty = false := by simpa using filled
  unfold parseOne
  rw [if_neg (by simp), rsplitOnce_here '<' before after apart]
  simp [named]

/-! ### A recipient that is read back -/

theorem bracketless (apart : '<' ∉ after) :
    '<' ∉ trim (after.takeWhile (fun char => decide (char ≠ '>'))) :=
  fun inside => apart ((List.takeWhile_sublist _).mem ((trim_sublist _).mem inside))

theorem display_named (name : List Char) (named : address.name = some name) (solid : trim name ≠ []) :
    display address = name ++ ' ' :: '<' :: (address.address ++ ['>']) := by
  unfold display
  rw [named]
  simp only
  rw [if_neg solid]

theorem trimmed_of_plain (plain : unquote (trim name) = name) : trim name = name := by
  have first := unquote_length (trim name)
  have second := trim_length name
  rw [plain] at first
  exact (trim_sublist name).eq_of_length (by omega)

theorem display_reads (read : parseOne (trim entry) = some address)
    (plain : plainName address = true) : parseOne (trim (display address)) = some address := by
  have reads := parseOne_reads (trim entry)
  rw [read] at reads
  cases reads with
  | bare filled no_bracket =>
    change parseOne (trim (trim entry)) = _
    rw [trim_trim]
    exact parseOne_bare _ filled no_bracket
  | unnamed before after cut apart filled =>
    change parseOne (trim (trim (after.takeWhile (fun char => decide (char ≠ '>'))))) = _
    rw [trim_trim]
    exact parseOne_bare _ filled (bracketless after apart)
  | named before after cut apart filled =>
    obtain ⟨name, named⟩ : ∃ name, name = unquote (trim before) := ⟨_, rfl⟩
    obtain ⟨inner, address⟩ : ∃ inner, inner = trim (after.takeWhile (fun char => decide (char ≠ '>'))) := ⟨_, rfl⟩
    rw [← named] at filled plain ⊢
    rw [← address] at plain ⊢
    simp only [plainName, Bool.and_eq_true, decide_eq_true_eq] at plain
    obtain ⟨solid, stays⟩ := plain
    have trimmed := trimmed_of_plain name stays
    rw [display_named _ name rfl solid]
    have ends := trim_ends name
    rw [trimmed] at ends
    have whole : trim (name ++ ' ' :: '<' :: (inner ++ ['>'])) = name ++ ' ' :: '<' :: (inner ++ ['>']) := by
      apply trim_self
      next =>
        intro char first
        rw [List.head?_append_of_ne_nil _ filled] at first
        exact ends.1 char first
      next =>
        intro char last
        have angle : '>' = char := by simpa [List.getLast?_append, List.getLast?_cons] using last
        rw [← angle]
        decide
    have no_open : '<' ∉ inner ++ ['>'] := by
      have absent := bracketless after apart
      rw [← address] at absent
      simp [absent]
    have no_close : ∀ char ∈ inner, decide (char ≠ '>') = true := by
      intro char inside
      rw [address] at inside
      have among := (trim_sublist _).mem inside
      exact List.mem_takeWhile_imp (p := fun char : Char => decide (char ≠ '>')) among
    have spaced : trim (name ++ [' ']) = name := by
      have cut := trim_blanks [] name [' '] (by simp) (forall_of_all _ (by decide))
      rw [List.nil_append] at cut
      rw [cut, trimmed]
    have split : name ++ ' ' :: '<' :: (inner ++ ['>']) = (name ++ [' ']) ++ '<' :: (inner ++ ['>']) := by simp
    rw [trimmed] at stays
    rw [whole, split, parseOne_named _ _ no_open (by rw [spaced, stays]; exact filled), spaced, stays,
      List.takeWhile_append_of_pos no_close]
    have stop : List.takeWhile (fun char => decide (char ≠ '>')) ['>'] = [] := by decide
    rw [stop, List.append_nil, address, trim_trim]

/-! ### A list that is read back -/

def settleAll : List EmailAddress -> Bool
  | [] => true
  | address :: rest => settles rest.isEmpty address && settleAll rest

theorem entriesSettle_read (entries : List (List Char)) :
    entriesSettle entries = settleAll (entries.filterMap (fun entry => parseOne (trim entry))) := by
  induction entries with
  | nil => rfl
  | cons entry rest ih =>
    have later : rest.all (fun other => (parseOne (trim other)).isNone) =
        (rest.filterMap (fun entry => parseOne (trim entry))).isEmpty := by
      clear ih
      induction rest with
      | nil => rfl
      | cons other rest further =>
        rw [List.all_cons, List.filterMap_cons]
        cases parseOne (trim other) with
        | none => simpa using further
        | some address => simp
    rw [entriesSettle, ih, List.filterMap_cons]
    cases parseOne (trim entry) with
    | none => simp
    | some address => simp only [later, settleAll]

theorem formatList_cons (rest : List EmailAddress) (more : rest ≠ []) :
    formatList (address :: rest) = display address ++ ',' :: ' ' :: formatList rest := by
  unfold formatList
  obtain ⟨second, others, rfl⟩ := List.exists_cons_of_ne_nil more
  rw [List.map_cons, List.map_cons, List.intercalate_cons_cons]
  simp

theorem parseList_blank : parseList (' ' :: text) = parseList text := by
  have blank : isWhitespace ' ' = true := by decide
  have step : splitList (' ' :: text) = (splitList text).modifyHead (' ' :: ·) := by
    unfold splitList
    rw [splitFrom_cons, if_neg (by decide), Scan.step_blank ' ' blank]
  unfold parseList
  rw [step]
  cases splitList text with
  | nil => rfl
  | cons first rest =>
    have same : trim (' ' :: first) = trim first := by
      have cut := trim_blanks [' '] first [] (forall_of_all _ (by decide)) (by simp)
      simpa using cut
    rw [List.modifyHead_cons, List.filterMap_cons, List.filterMap_cons, same]

theorem parseList_format (parsed : ∀ address ∈ addresses, ∃ entry, parseOne (trim entry) = some address) (settled : settleAll addresses = true) :
    parseList (formatList addresses) = addresses := by
  induction addresses with
  | nil => decide
  | cons address rest ih =>
    rw [settleAll, Bool.and_eq_true] at settled
    obtain ⟨here, later⟩ := settled
    obtain ⟨entry, read⟩ := parsed address List.mem_cons_self
    have further := ih (fun other inside => parsed other (List.mem_cons_of_mem _ inside)) later
    unfold settles at here
    rw [Bool.and_eq_true, Bool.and_eq_true, Bool.or_eq_true, decide_eq_true_eq] at here
    obtain ⟨⟨plain, one⟩, ends⟩ := here
    have reads := display_reads entry address read plain
    cases rest with
    | nil =>
      have alone : formatList [address] = display address := by simp [formatList]
      unfold parseList splitList
      rw [alone, splitFrom_one .start _ one]
      simp [reads]
    | cons second others =>
      have closed : Scan.run .start (display address) = .start := by simpa using ends
      rw [formatList_cons address _ (by simp)]
      have split := splitList_comma (display address) (' ' :: formatList (second :: others)) one closed
      have cut : parseList (display address ++ ',' :: ' ' :: formatList (second :: others)) =
          address :: parseList (' ' :: formatList (second :: others)) := by
        unfold parseList
        rw [split, List.filterMap_cons, reads]
      rw [cut, parseList_blank, further]

/-! ### The pieces of a text -/

theorem splitFrom_last (scan : Scan) (text : List Char) (front : List (List Char)) (last : List Char)
    (split : splitFrom scan text = front ++ [last]) :
    front = [] ∧ text = last ∧ whole scan text = true ∨
      ∃ before separator, text = before ++ separator :: last ∧ (separator = ',' ∨ separator = ';') ∧
        splitFrom scan before = front ∧ scan.run before = .start ∧ whole .start last = true := by
  induction text generalizing scan front last with
  | nil =>
    cases front with
    | nil => exact .inl ⟨rfl, by simpa using split, rfl⟩
    | cons first front => simp at split
  | cons char text ih =>
    rw [splitFrom_cons] at split
    by_cases cut : scan.cuts char = true
    case pos =>
      rw [if_pos cut] at split
      obtain ⟨rfl, separates⟩ := Scan.cuts_start scan char cut
      cases front with
      | nil =>
        have nothing := congrArg List.length split
        have some_piece := List.length_pos_iff.mpr (splitFrom_ne_nil .start text)
        simp at nothing
        exact absurd nothing (splitFrom_ne_nil .start text)
      | cons first front =>
        rw [List.cons_append] at split
        obtain ⟨rfl, later⟩ := List.cons_eq_cons.mp split
        rcases ih .start front last later with ⟨rfl, rfl, one⟩ | ⟨before, separator, rfl, also, inner, ends, one⟩
        next => exact .inr ⟨[], char, rfl, separates, by simp, rfl, one⟩
        next =>
          refine .inr ⟨char :: before, separator, rfl, also, ?_, ?_, one⟩
          next => rw [splitFrom_cons, if_pos cut, inner]
          next => rw [Scan.run_cons, Scan.step_separator char separates, ends]
    case neg =>
      rw [if_neg cut] at split
      rw [Bool.not_eq_true] at cut
      cases pieces : splitFrom (scan.step char) text with
      | nil => exact absurd pieces (splitFrom_ne_nil _ _)
      | cons first more =>
        rw [pieces, List.modifyHead_cons] at split
        cases front with
        | nil =>
          rw [List.nil_append] at split
          obtain ⟨rfl, rfl⟩ := List.cons_eq_cons.mp split
          rcases ih (scan.step char) [] first (by rw [pieces]; rfl) with ⟨-, rfl, one⟩ | ⟨before, separator, rfl, also, inner, ends, one⟩
          next => exact .inl ⟨rfl, rfl, by rw [whole_cons, cut, one]; rfl⟩
          next => exact absurd inner (splitFrom_ne_nil _ _)
        | cons piece front =>
          rw [List.cons_append] at split
          obtain ⟨rfl, later⟩ := List.cons_eq_cons.mp split
          rcases ih (scan.step char) (first :: front) last (by rw [pieces, later]; rfl) with
            ⟨none, -, -⟩ | ⟨before, separator, rfl, also, inner, ends, one⟩
          next => cases none
          next =>
            refine .inr ⟨char :: before, separator, rfl, also, ?_, ends, one⟩
            rw [splitFrom_cons, if_neg (by simp [cut]), inner, List.modifyHead_cons]

theorem splitList_inner (front : List (List Char)) (last : List Char) (split : splitList text = front ++ [last]) :
    ∀ piece ∈ front, whole .start piece = true ∧ Scan.run .start piece = .start := by
  induction front using List.reverseRecOn generalizing text last with
  | nil => simp
  | append_singleton front previous ih =>
    rcases splitFrom_last .start text _ last split with ⟨none, -, -⟩ | ⟨before, separator, -, -, inner, ends, -⟩
    next => simp at none
    next =>
      intro piece inside
      rcases List.mem_append.mp inside with inside | inside
      next => exact ih before previous inner piece inside
      next =>
        obtain rfl := List.mem_singleton.mp inside
        rcases splitFrom_last .start before front piece inner with ⟨-, rfl, one⟩ | ⟨earlier, mark, rfl, also, -, closed, one⟩
        next => exact ⟨one, ends⟩
        next =>
          rw [Scan.run_append, closed, Scan.run_cons, Scan.step_separator mark also] at ends
          exact ⟨one, ends⟩

theorem splitFrom_count (scan : Scan) (text : List Char) (char : Char) (other : char ≠ ',') (also : char ≠ ';') :
    ((splitFrom scan text).map (List.count char)).sum = text.count char := by
  induction text generalizing scan with
  | nil => rfl
  | cons first text ih =>
    rw [splitFrom_cons]
    split
    next cut =>
      have apart : first ≠ char := by
        rintro rfl
        rcases (Scan.cuts_start scan first cut).2 with same | same
        next => exact other same
        next => exact also same
      rw [List.map_cons, List.sum_cons, ih, List.count_cons_of_ne apart]
      simp
    next =>
      have later := ih (scan.step first)
      cases pieces : splitFrom (scan.step first) text with
      | nil => exact absurd pieces (splitFrom_ne_nil _ _)
      | cons piece more =>
        rw [pieces] at later
        rw [List.modifyHead_cons, List.map_cons, List.sum_cons, List.count_cons, List.count_cons]
        rw [List.map_cons, List.sum_cons] at later
        omega

theorem sum_within {A : Type} (values : List A) (less more : A -> Nat) (within : ∀ value ∈ values, less value ≤ more value) :
    (values.map less).sum ≤ (values.map more).sum := by
  induction values with
  | nil => exact Nat.le_refl _
  | cons first values ih =>
    have here := within first List.mem_cons_self
    have later := ih (fun value inside => within value (List.mem_cons_of_mem _ inside))
    rw [List.map_cons, List.map_cons, List.sum_cons, List.sum_cons]
    omega

theorem each_of_sum {A : Type} (values : List A) (less more : A -> Nat) (within : ∀ value ∈ values, less value ≤ more value)
    (same : (values.map more).sum ≤ (values.map less).sum) : ∀ value ∈ values, less value = more value := by
  induction values with
  | nil => simp
  | cons first values ih =>
    have here := within first List.mem_cons_self
    have later : ∀ value ∈ values, less value ≤ more value := fun value inside => within value (List.mem_cons_of_mem _ inside)
    have rest : (values.map less).sum ≤ (values.map more).sum := sum_within values less more later
    rw [List.map_cons, List.map_cons, List.sum_cons, List.sum_cons] at same
    intro value inside
    rcases List.mem_cons.mp inside with rfl | deeper
    next => omega
    next => exact ih later (by omega) value deeper

/-! ### The brackets of a list that is read back -/

def written : Nat := ((parseOne (trim piece)).elim [] display).count '<'

/-- What a piece with as many brackets as its recipient is written with may be. -/
inductive Fair (piece : List Char) : Option EmailAddress -> Prop where
  | empty (blank : trim piece = []) : Fair piece none
  | bare (filled : trim piece ≠ []) (plain : '<' ∉ piece) : Fair piece (some { name := none, address := trim piece })
  | named (name address : List Char) (before after : List Char) (cut : trim piece = before ++ '<' :: after) (apart : '<' ∉ after)
      (solid : trim name ≠ []) (reads : name = unquote (trim before))
      (inner : address = trim (after.takeWhile (fun char => char ≠ '>'))) : Fair piece (some { name := some name, address })

theorem piece_count : (trim piece).count '<' = piece.count '<' := trim_count piece '<' (by decide)

theorem name_count : (unquote (trim before)).count '<' = before.count '<' := by
  rw [unquote_count _ '<' (by decide) (by decide), trim_count before '<' (by decide)]

theorem written_within : written piece ≤ piece.count '<' := by
  unfold written
  rw [← piece_count piece]
  have reads := parseOne_reads (trim piece)
  generalize parseOne (trim piece) = address at reads ⊢
  cases reads with
  | empty blank => simp
  | bare filled plain => exact Nat.le_refl _
  | hollow before after cut => simp
  | unnamed before after cut apart filled =>
    have none := List.count_eq_zero_of_not_mem (bracketless after apart)
    simp only [Option.elim_some, display]
    rw [none]
    exact Nat.zero_le _
  | named before after cut apart filled =>
    have none := List.count_eq_zero_of_not_mem (bracketless after apart)
    have counted := name_count before
    simp only [Option.elim_some, display]
    rw [cut]
    split
    next => rw [none]; exact Nat.zero_le _
    next =>
      simp only [List.count_append, List.count_cons_self, List.count_cons_of_ne (show ' ' ≠ '<' by decide), none, counted]
      simp

theorem fair_of_written (same : written piece = piece.count '<') : Fair piece (parseOne (trim piece)) := by
  unfold written at same
  rw [← piece_count piece] at same
  have reads := parseOne_reads (trim piece)
  generalize parseOne (trim piece) = address at reads same ⊢
  cases reads with
  | empty blank => exact .empty blank
  | bare filled plain =>
    refine .bare filled ?_
    have none := List.count_eq_zero_of_not_mem plain
    rw [piece_count] at none
    exact List.count_eq_zero.mp none
  | hollow before after cut =>
    rw [cut] at same
    simp at same
  | unnamed before after cut apart filled =>
    have none := List.count_eq_zero_of_not_mem (bracketless after apart)
    simp only [Option.elim_some, display] at same
    rw [none, cut] at same
    simp at same
  | named before after cut apart filled =>
    have none := List.count_eq_zero_of_not_mem (bracketless after apart)
    simp only [Option.elim_some, display] at same
    refine .named _ _ before after cut apart ?_ rfl rfl
    intro blank
    rw [if_pos blank, none, cut] at same
    simp at same

theorem formatList_count :
    (formatList addresses).count '<' = (addresses.map (fun address => (display address).count '<')).sum := by
  induction addresses with
  | nil => rfl
  | cons address rest ih =>
    cases rest with
    | nil => simp [formatList]
    | cons second others =>
      rw [formatList_cons address _ (by simp), List.count_append, List.count_cons_of_ne (by decide), List.count_cons_of_ne (by decide),
        ih]
      rfl

theorem written_sum (pieces : List (List Char)) :
    (pieces.map written).sum =
      ((pieces.filterMap (fun entry => parseOne (trim entry))).map (fun address => (display address).count '<')).sum := by
  induction pieces with
  | nil => rfl
  | cons piece rest ih =>
    rw [List.map_cons, List.sum_cons, ih, List.filterMap_cons]
    unfold written
    cases parseOne (trim piece) with
    | none => simp
    | some address => simp

theorem fair_pieces (back : parseList (formatList addresses) = addresses) :
    ∀ piece ∈ splitList (formatList addresses), Fair piece (parseOne (trim piece)) := by
  have total : ((splitList (formatList addresses)).map (List.count '<')).sum = (formatList addresses).count '<' :=
    splitFrom_count .start _ '<' (by decide) (by decide)
  have kept := written_sum (splitList (formatList addresses))
  rw [show (splitList (formatList addresses)).filterMap (fun entry => parseOne (trim entry)) = addresses from back,
    ← formatList_count] at kept
  have each := each_of_sum (splitList (formatList addresses)) written (List.count '<') (fun piece _ => written_within piece) (by omega)
  exact fun piece inside => fair_of_written piece (each piece inside)

end Postio.Recipients

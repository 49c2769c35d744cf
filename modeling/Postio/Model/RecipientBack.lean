import Postio.Model.RecipientLaw

set_option autoImplicit false

namespace Postio.Recipients

open Lines

/-! ### Where the last piece begins -/

variable (front : List EmailAddress) (last : EmailAddress) (before : List Char)

theorem ends_comma (front lead : List Char) (separator : Char) (blank : ∀ char ∈ lead, isWhitespace char = true)
    (separates : separator = ',' ∨ separator = ';') (same : before ++ separator :: lead = front ++ [',', ' ']) :
    before = front ∧ separator = ',' ∧ lead = [' '] := by
  have split : front ++ [',', ' '] = (front ++ [',']) ++ [' '] := by simp
  rcases List.eq_nil_or_concat lead with rfl | ⟨inner, last, rfl⟩
  next =>
    rw [split] at same
    have ends := List.singleton_inj.mp (List.append_inj' same rfl).2
    rcases separates with rfl | rfl <;> exact absurd ends (by decide)
  next =>
    rw [List.concat_eq_append] at same blank ⊢
    rw [split, ← List.cons_append, ← List.append_assoc] at same
    obtain ⟨earlier, ends⟩ := List.append_inj' same rfl
    rcases List.eq_nil_or_concat inner with rfl | ⟨deeper, second, rfl⟩
    next =>
      obtain ⟨fronts, mark⟩ := List.append_inj' earlier rfl
      exact ⟨fronts, List.singleton_inj.mp mark, by rw [List.nil_append, ends]⟩
    next =>
      rw [List.concat_eq_append] at earlier blank
      rw [← List.cons_append, ← List.append_assoc] at earlier
      have comma := List.singleton_inj.mp (List.append_inj' earlier rfl).2
      have is_blank := blank second (by simp)
      rw [comma] at is_blank
      exact absurd is_blank (by decide)

namespace Scan

variable (scan : Scan) (text : List Char)

theorem step_angled (char : Char) (plain : char ≠ '<') (angled : (scan.step char).angled = true) : scan.angled = true := by
  unfold step at angled
  split at angled
  next => exact angled
  next =>
    split at angled
    next => exact angled
    next =>
      split at angled
      next => exact angled
      next =>
        split at angled
        next bracket => simp [plain] at bracket
        next =>
          split at angled
          next => cases angled
          next => exact angled

theorem run_angled (plain : '<' ∉ text) (angled : (scan.run text).angled = true) : scan.angled = true := by
  induction text generalizing scan with
  | nil => exact angled
  | cons char text ih =>
    have here : char ≠ '<' := fun same => plain (same ▸ List.mem_cons_self)
    exact step_angled scan char here (ih _ (fun inside => plain (List.mem_cons_of_mem _ inside)) angled)

theorem run_escaped (inside : scan.escaped = true -> scan.quoted = true) :
    (scan.run text).escaped = true -> (scan.run text).quoted = true := by
  induction text generalizing scan with
  | nil => exact inside
  | cons char text ih =>
    apply ih
    unfold step
    intro escaped
    split at escaped
    next => cases escaped
    next clear =>
      split at escaped
      next slash =>
        rw [if_neg clear, if_pos slash]
        simp only [Bool.and_eq_true] at slash
        exact slash.2
      next =>
        -- No other branch sets the mark of a backslash.
        split at escaped
        next => exact absurd escaped clear
        next =>
          split at escaped
          next => exact absurd escaped clear
          next => split at escaped <;> exact absurd escaped clear

theorem step_quoted (char : Char) (plain : char ≠ '"') (quoted : scan.quoted = true) : (scan.step char).quoted = true := by
  unfold step
  split
  next => exact quoted
  next =>
    split
    next => exact quoted
    next =>
      split
      next => exact quoted
      next => split <;> exact quoted

theorem run_quoted (plain : '"' ∉ text) (quoted : scan.quoted = true) : (scan.run text).quoted = true := by
  induction text generalizing scan with
  | nil => exact quoted
  | cons char text ih =>
    have here : char ≠ '"' := fun same => plain (same ▸ List.mem_cons_self)
    exact ih _ (fun inside => plain (List.mem_cons_of_mem _ inside)) (step_quoted scan char here quoted)

end Scan

theorem open_at_separator (piece front trail : List Char) (separator : Char) (separates : separator = ',' ∨ separator = ';')
    (cut : piece = front ++ separator :: trail) (blank : ∀ char ∈ trail, isWhitespace char = true) (plain : '<' ∉ piece)
    (one : whole .start piece = true) : Scan.run .start piece ≠ .start := by
  rw [cut, whole_append, Bool.and_eq_true, whole_cons, Bool.and_eq_true, Bool.not_eq_true'] at one
  obtain ⟨-, kept, -⟩ := one
  have no_quote : '"' ∉ separator :: trail := by
    rw [List.mem_cons, not_or]
    refine ⟨?_, fun inside => absurd (blank '"' inside) (by decide)⟩
    rcases separates with rfl | rfl <;> decide
  have not_angled : (Scan.run .start front).angled = false := by
    rw [Bool.eq_false_iff]
    intro angled
    have begun := Scan.run_angled .start front (fun inside => plain (by rw [cut]; exact List.mem_append_left _ inside)) angled
    cases begun
  have escapes := Scan.run_escaped .start front (fun escaped => by cases escaped)
  have quoted : (Scan.run .start front).quoted = true := by
    by_contra unquoted
    rw [Bool.not_eq_true] at unquoted
    have unescaped : (Scan.run .start front).escaped = false := by
      rw [Bool.eq_false_iff]
      intro escaped
      rw [escapes escaped] at unquoted
      cases unquoted
    have mark : (decide (separator = ',') || decide (separator = ';')) = true := by simpa using separates
    simp [Scan.cuts, mark, unquoted, not_angled, unescaped] at kept
  have ends := Scan.run_quoted _ _ no_quote quoted
  rw [cut, Scan.run_append]
  intro closed
  rw [closed] at ends
  cases ends

theorem display_last (piece : List Char) (address : EmailAddress) (fair : Fair piece (some address)) :
    ∃ front last, display address = front ++ [last] ∧ isWhitespace last = false ∧
      (last = '>' ∨ address = { name := none, address := trim piece } ∧ '<' ∉ piece) := by
  cases fair with
  | bare filled plain =>
    obtain ⟨front, last, whole⟩ := (List.eq_nil_or_concat (trim piece)).resolve_left filled
    rw [List.concat_eq_append] at whole
    have solid := (trim_ends piece).2 last (by rw [whole]; simp)
    exact ⟨front, last, whole, solid, .inr ⟨rfl, plain⟩⟩
  | named name address before after cut apart solid reads inner =>
    refine ⟨name ++ ' ' :: '<' :: address, '>', ?_, by decide, .inl rfl⟩
    rw [display_named _ name rfl solid]
    simp

def leading : List Char := if front.isEmpty then [] else formatList front ++ [',', ' ']

theorem formatList_last :
    formatList (front ++ [last]) = leading front ++ display last := by
  induction front with
  | nil => simp [formatList, leading]
  | cons first front ih =>
    rw [List.cons_append, formatList_cons first _ (by simp), ih]
    unfold leading
    cases front with
    | nil => simp [formatList]
    | cons second front =>
      rw [formatList_cons first (second :: front) (by simp)]
      simp

theorem parseList_pieces (text : List Char) (front : List (List Char)) (last : List Char) (split : splitList text = front ++ [last]) :
    parseList text = front.filterMap (fun entry => parseOne (trim entry)) ++ (parseOne (trim last)).toList := by
  unfold parseList
  rw [split, List.filterMap_append]
  cases read : parseOne (trim last) <;> simp [read]

theorem last_piece (back : parseList (formatList (front ++ [last])) = front ++ [last]) (pieces : List (List Char)) (piece : List Char)
    (split : splitList (formatList (front ++ [last])) = pieces ++ [piece]) :
    parseOne (trim piece) = some last ∧ pieces.filterMap (fun entry => parseOne (trim entry)) = front := by
  have fair := fair_pieces _ back
  rw [split] at fair
  have kept := parseList_pieces _ pieces piece split
  rw [back] at kept
  cases read : parseOne (trim piece) with
  | some address =>
    rw [read] at kept
    obtain ⟨fronts, lasts⟩ := List.append_inj' kept rfl
    exact ⟨by rw [List.singleton_inj.mp lasts], fronts.symm⟩
  | none =>
    -- Then the text ends in a separator, and what is read last cannot end so.
    exfalso
    have blank : trim piece = [] := by
      have here := fair piece (by simp)
      rw [read] at here
      cases here with
      | empty blank => exact blank
    rw [read, Option.toList_none, List.append_nil] at kept
    have inside : last ∈ pieces.filterMap (fun entry => parseOne (trim entry)) := by rw [← kept]; simp
    obtain ⟨holder, among, held⟩ := List.mem_filterMap.mp inside
    have holds := fair holder (List.mem_append_left _ among)
    rw [held] at holds
    obtain ⟨shown, final, shows, solid, kind⟩ := display_last holder last holds
    have all_blank : ∀ char ∈ piece, isWhitespace char = true := by
      obtain ⟨lead, trail, lead_blank, trail_blank, whole⟩ := trim_split piece
      rw [blank, List.nil_append] at whole
      intro char inside
      rw [whole] at inside
      rcases List.mem_append.mp inside with inside | inside
      next => exact lead_blank char inside
      next => exact trail_blank char inside
    rcases splitFrom_last .start _ pieces piece split with ⟨rfl, _, _⟩ | ⟨before, separator, text, separates, _, _, _⟩
    next => cases among
    next =>
      rw [formatList_last, shows] at text
      have ends : final = separator := by
        rcases List.eq_nil_or_concat piece with rfl | ⟨inner, char, rfl⟩
        next =>
          rw [← List.append_assoc] at text
          exact List.singleton_inj.mp (List.append_inj' text rfl).2
        next =>
          rw [List.concat_eq_append] at text all_blank
          rw [← List.append_assoc, ← List.cons_append, ← List.append_assoc] at text
          have same := List.singleton_inj.mp (List.append_inj' text rfl).2
          rw [same, all_blank char (by simp)] at solid
          cases solid
      rcases kind with angle | ⟨bare, plain⟩
      next =>
        rw [ends] at angle
        rcases separates with rfl | rfl <;> exact absurd angle (by decide)
      next =>
        have written : display last = trim holder := by rw [bare]; rfl
        obtain ⟨lead, trail, _, trail_blank, whole⟩ := trim_split holder
        rw [← written, shows, ends] at whole
        obtain ⟨one, closed⟩ := splitList_inner _ pieces piece split holder among
        exact open_at_separator holder (lead ++ shown) trail separator separates (by rw [whole]; simp) trail_blank plain one closed

theorem last_begins (lead : List Char) (separator : Char)
    (pieces : List (List Char)) (separates : separator = ',' ∨ separator = ';') (blank : ∀ char ∈ lead, isWhitespace char = true)
    (led : before ++ separator :: lead = leading front) (inner : splitFrom .start before = pieces)
    (fronts : pieces.filterMap (fun entry => parseOne (trim entry)) = front) (closed : Scan.run .start before = .start)
    (one : whole .start (lead ++ display last) = true) :
    whole .start (display last) = true ∧
      (front ≠ [] -> parseList (formatList front) = front ∧ Scan.run .start (formatList front) = .start) := by
  rw [whole_append, Bool.and_eq_true, Scan.run_blank lead blank] at one
  refine ⟨one.2, ?_⟩
  intro more
  have filled : leading front = formatList front ++ [',', ' '] := by
    unfold leading
    rw [if_neg (by simpa using more)]
  obtain ⟨rfl, -, -⟩ := ends_comma before (formatList front) lead separator blank separates (led.trans filled)
  refine ⟨?_, closed⟩
  unfold parseList splitList
  rw [inner, fronts]

theorem trail_nil (front trail : List Char) (last : Char) (text : List Char) (solid : isWhitespace last = false)
    (blank : ∀ char ∈ trail, isWhitespace char = true) (same : front ++ [last] = text ++ trail) : trail = [] := by
  rcases List.eq_nil_or_concat trail with none | ⟨inner, char, rfl⟩
  next => exact none
  next =>
    rw [List.concat_eq_append] at same blank
    rw [← List.append_assoc] at same
    have ends := List.singleton_inj.mp (List.append_inj' same rfl).2
    rw [ends, blank char (by simp)] at solid
    cases solid

theorem name_begins (lead opening name : List Char) (separator : Char)
    (reads : name = unquote (trim opening)) (filled : name ≠ []) (head : ∀ char ∈ opening.head?, isWhitespace char = false)
    (same : before ++ separator :: (lead ++ opening) = leading front ++ (name ++ [' '])) :
    opening = name ++ [' '] ∧ before ++ separator :: lead = leading front := by
  -- The name is no longer than what it is read from, which ends in a space.
  have shorter : name.length < opening.length := by
    have first : name.length ≤ (trim opening).length := by rw [reads]; exact unquote_length _
    rcases List.eq_nil_or_concat opening with rfl | ⟨inner, char, rfl⟩
    next =>
      have none := List.length_pos_iff.mpr filled
      simp [trim, trimStart] at first
      exact absurd first filled
    next =>
      rw [List.concat_eq_append] at same first ⊢
      rw [← List.append_assoc, ← List.cons_append, ← List.append_assoc, ← List.append_assoc] at same
      have space := List.singleton_inj.mp (List.append_inj' same rfl).2
      have cut := trim_blanks [] inner [char] (by simp) (by rw [space]; exact forall_of_all _ (by decide))
      rw [List.nil_append] at cut
      rw [cut] at first
      have second := trim_length inner
      simp
      omega
  obtain ⟨more, longer, rest⟩ : ∃ more, opening = more ++ (name ++ [' ']) ∧ leading front = before ++ separator :: (lead ++ more) := by
    have split : (before ++ separator :: lead) ++ opening = leading front ++ (name ++ [' ']) := by
      rw [← same]
      simp
    rcases List.append_eq_append_iff.mp split with ⟨more, longer, rest⟩ | ⟨more, longer, rest⟩
    next =>
      exact ⟨more, rest, by rw [longer]; simp⟩
    next =>
      have lengths := congrArg List.length rest
      simp only [List.length_append, List.length_singleton] at lengths
      obtain rfl : more = [] := List.eq_nil_of_length_eq_zero (by omega)
      exact ⟨[], by rw [List.nil_append, ← List.nil_append opening, ← rest], by rw [List.append_nil] at longer; rw [← longer, List.append_nil]⟩
  have commas : more.count ',' = 0 := by
    have counted : name.count ',' = opening.count ',' := by
      rw [reads, unquote_count _ ',' (by decide) (by decide), trim_count opening ',' (by decide)]
    rw [longer, List.count_append, List.count_append] at counted
    omega
  rcases List.eq_nil_or_concat more with rfl | ⟨inner, char, rfl⟩
  next => exact ⟨longer, by rw [rest, List.append_nil]⟩
  next =>
    exfalso
    rw [List.concat_eq_append] at longer rest commas
    have some_front : leading front = formatList front ++ [',', ' '] := by
      unfold leading
      rw [if_neg]
      intro none
      unfold leading at rest
      rw [if_pos none] at rest
      simp at rest
    rw [some_front] at rest
    have split : (formatList front ++ [',']) ++ [' '] = (before ++ separator :: (lead ++ inner)) ++ [char] := by simpa using rest
    obtain ⟨earlier, space⟩ := List.append_inj' split rfl
    rcases List.eq_nil_or_concat inner with rfl | ⟨deeper, second, rfl⟩
    next =>
      have blank := head char (by rw [longer]; rfl)
      rw [← List.singleton_inj.mp space] at blank
      exact absurd blank (by decide)
    next =>
      rw [List.concat_eq_append] at earlier commas
      have ends : formatList front ++ [','] = (before ++ separator :: (lead ++ deeper)) ++ [second] := by simpa using earlier
      rw [← List.singleton_inj.mp (List.append_inj' ends rfl).2] at commas
      simp at commas

theorem last_step (back : parseList (formatList (front ++ [last])) = front ++ [last]) :
    plainName last = true ∧ whole .start (display last) = true ∧
      (front ≠ [] -> parseList (formatList front) = front ∧ Scan.run .start (formatList front) = .start) := by
  obtain ⟨pieces, piece, split⟩ : ∃ pieces piece, splitList (formatList (front ++ [last])) = pieces ++ [piece] := by
    rcases List.eq_nil_or_concat (splitList (formatList (front ++ [last]))) with none | ⟨pieces, piece, split⟩
    next => exact absurd none (splitFrom_ne_nil .start _)
    next => exact ⟨pieces, piece, by rw [split, List.concat_eq_append]⟩
  obtain ⟨read, fronts⟩ := last_piece front last back pieces piece split
  have fair := fair_pieces _ back piece (by rw [split]; simp)
  rw [read] at fair
  obtain ⟨shown, final, shows, solid, _⟩ := display_last piece last fair
  obtain ⟨lead, trail, lead_blank, trail_blank, around⟩ := trim_split piece
  have text := formatList_last front last
  have cut := splitFrom_last .start _ pieces piece split
  have trailing : trail = [] := by
    rcases cut with ⟨_, same, _⟩ | ⟨before, separator, same, _, _, _, _⟩
    next =>
      rw [text, shows, ← List.append_assoc, around, ← List.append_assoc] at same
      exact trail_nil _ trail final _ solid trail_blank same
    next =>
      rw [text, shows, ← List.append_assoc, around] at same
      exact trail_nil _ trail final (before ++ separator :: (lead ++ trim piece)) solid trail_blank (by rw [same]; simp)
  rw [trailing, List.append_nil] at around
  have alone : pieces = [] -> front = [] := by
    rintro rfl
    exact fronts.symm
  cases fair with
  | bare filled plain =>
    refine ⟨rfl, ?_⟩
    rcases cut with ⟨none, same, one⟩ | ⟨before, separator, same, separates, inner, closed, one⟩
    next =>
      have empty := alone none
      rw [text, empty] at one
      exact ⟨by simpa [leading] using one, fun more => absurd empty more⟩
    next =>
      rw [text] at same
      have joined : (before ++ separator :: lead) ++ trim piece = leading front ++ trim piece := by
        rw [List.append_assoc, List.cons_append, ← around]
        exact same.symm
      have led := List.append_cancel_right joined
      rw [around] at one
      exact last_begins front _ before lead separator pieces separates lead_blank led inner fronts closed one
  | named name address opening after parts apart solid_name reads inside =>
    have filled : name ≠ [] := by
      rintro rfl
      exact solid_name rfl
    have absent : '<' ∉ address ++ ['>'] := by
      have none := bracketless after apart
      rw [← inside] at none
      simp [none]
    have written := display_named { name := some name, address } name rfl solid_name
    rw [written] at text
    rw [parts] at around
    rcases cut with ⟨none, same, one⟩ | ⟨before, separator, same, separates, inner, closed, one⟩
    next =>
      have empty := alone none
      rw [empty] at text same one
      rw [text] at one
      refine ⟨?_, ?_, fun more => absurd empty more⟩
      next =>
        have whole_text : (name ++ [' ']) ++ '<' :: (address ++ ['>']) = (lead ++ opening) ++ '<' :: after := by
          have joined := text.symm.trans (same.trans around)
          simpa [leading] using joined
        have opens := (last_mark '<' _ _ _ _ absent apart whole_text).1
        have trimmed : trim opening = trim name := by
          have left := trim_blanks lead opening [] lead_blank (by simp)
          have right := trim_blanks [] name [' '] (by simp) (forall_of_all _ (by decide))
          rw [List.append_nil] at left
          rw [List.nil_append] at right
          rw [← left, ← opens, right]
        simp only [plainName, Bool.and_eq_true, decide_eq_true_eq]
        exact ⟨solid_name, by rw [← trimmed, ← reads]⟩
      next =>
        rw [written]
        simpa [leading] using one
    next =>
      have whole_text : (leading front ++ (name ++ [' '])) ++ '<' :: (address ++ ['>']) =
          (before ++ separator :: (lead ++ opening)) ++ '<' :: after := by
        have joined := text.symm.trans same
        rw [around] at joined
        simpa using joined
      obtain ⟨opens, closes⟩ := last_mark '<' _ _ _ _ absent apart whole_text
      have head : ∀ char ∈ opening.head?, isWhitespace char = false := by
        intro char first
        apply (trim_ends piece).1 char
        rw [parts, List.head?_append, Option.mem_def.mp first]
        rfl
      obtain ⟨named, led⟩ := name_begins front before lead opening name separator reads filled head opens.symm
      refine ⟨?_, ?_⟩
      next =>
        have right := trim_blanks [] name [' '] (by simp) (forall_of_all _ (by decide))
        rw [List.nil_append, ← named] at right
        simp only [plainName, Bool.and_eq_true, decide_eq_true_eq]
        exact ⟨solid_name, by rw [← right, ← reads]⟩
      next =>
        have again : piece = lead ++ display { name := some name, address } := by
          rw [written, around, named, ← closes]
          simp
        rw [again] at one
        exact last_begins front _ before lead separator pieces separates lead_blank led inner fronts closed one

/-! ### Every list -/

theorem run_closed (addresses : List EmailAddress) (closed : ∀ address ∈ addresses, Scan.run .start (display address) = .start) :
    Scan.run .start (formatList addresses) = .start := by
  induction addresses with
  | nil => rfl
  | cons address rest ih =>
    have here := closed address List.mem_cons_self
    cases rest with
    | nil => simpa [formatList] using here
    | cons second others =>
      rw [formatList_cons address _ (by simp), Scan.run_append, here, Scan.run_cons, Scan.run_cons]
      exact ih (fun other inside => closed other (List.mem_cons_of_mem _ inside))

theorem run_leading (closed : ∀ address ∈ front, Scan.run .start (display address) = .start) :
    Scan.run .start (leading front) = .start := by
  unfold leading
  split
  next => rfl
  next =>
    rw [Scan.run_append, run_closed front closed]
    rfl

theorem settleAll_last :
    settleAll (front ++ [last]) = true <-> (∀ address ∈ front, settles false address = true) ∧ settles true last = true := by
  induction front with
  | nil => simp [settleAll]
  | cons first front ih =>
    rw [List.cons_append, settleAll, Bool.and_eq_true, ih, List.forall_mem_cons]
    have more : (front ++ [last]).isEmpty = false := by simp
    rw [more, and_assoc]

theorem settles_open (address : EmailAddress) :
    settles true address = true <-> plainName address = true ∧ whole .start (display address) = true := by
  unfold settles
  simp

theorem settles_closed (address : EmailAddress) : settles false address = true <->
    plainName address = true ∧ whole .start (display address) = true ∧ Scan.run .start (display address) = .start := by
  unfold settles
  simp [and_assoc]

theorem settled_of_back (addresses : List EmailAddress) (back : parseList (formatList addresses) = addresses) :
    settleAll addresses = true := by
  induction addresses using List.reverseRecOn with
  | nil => rfl
  | append_singleton front last ih =>
    obtain ⟨plain, one, earlier⟩ := last_step front last back
    rw [settleAll_last, settles_open]
    refine ⟨?_, plain, one⟩
    rcases List.eq_nil_or_concat front with rfl | ⟨fronts, previous, rfl⟩
    next => simp
    next =>
      rw [List.concat_eq_append] at ih earlier ⊢
      obtain ⟨front_back, closed⟩ := earlier (by simp)
      obtain ⟨settled, before⟩ := (settleAll_last fronts previous).mp (ih front_back)
      have all_closed : ∀ address ∈ fronts, Scan.run .start (display address) = .start :=
        fun address inside => ((settles_closed address).mp (settled address inside)).2.2
      rw [formatList_last, Scan.run_append, run_leading fronts all_closed] at closed
      intro address inside
      rcases List.mem_append.mp inside with inside | inside
      next => exact settled address inside
      next =>
        obtain rfl := List.mem_singleton.mp inside
        obtain ⟨previous_plain, previous_one⟩ := (settles_open address).mp before
        exact (settles_closed address).mpr ⟨previous_plain, previous_one, closed⟩

/-- Recipients survive being written out and read back exactly where each of them is read back. -/
theorem parse_format_parse_iff (input : List Char) :
    parseList (formatList (parseList input)) = parseList input <-> steady input = true := by
  have read : steady input = settleAll (parseList input) := entriesSettle_read (splitList input)
  rw [read]
  constructor
  next => exact settled_of_back _
  next =>
    apply parseList_format
    intro address inside
    obtain ⟨entry, _, found⟩ := List.mem_filterMap.mp inside
    exact ⟨entry, found⟩

/-- A quoted comma in a name comes back as a separator. -/
theorem quoted_comma_lost : parseList (formatList (parseList "\"Hopper, Grace\" <gh@example.org>".toList)) ≠
    parseList "\"Hopper, Grace\" <gh@example.org>".toList := by
  decide +kernel

end Postio.Recipients

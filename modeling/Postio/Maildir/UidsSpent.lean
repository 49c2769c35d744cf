import Mathlib.Data.Finset.Card
import Postio.Maildir.UidList

set_option autoImplicit false

namespace Postio

namespace UidList

/-! ### What a list holds -/

variable (uids : List (DeliveryName × Nat)) (list : UidList) (name : DeliveryName) (uid : Nat)

theorem get_eq_some (distinct : (uids.map Prod.fst).Nodup) (name : DeliveryName)
    (uid : Nat) : get uids name = some uid <-> (name, uid) ∈ uids := by
  unfold get
  rw [Option.map_eq_some_iff]
  constructor
  · rintro ⟨entry, found, rfl⟩
    have named : entry.1 = name := by simpa using List.find?_some found
    rw [← named]
    exact List.mem_of_find?_eq_some found
  · intro there
    cases found : uids.find? (fun entry => entry.1 = name) with
    | none => exact absurd (List.find?_eq_none.mp found _ there) (by simp)
    | some entry =>
      have named : entry.1 = name := by simpa using List.find?_some found
      have same := List.inj_on_of_nodup_map distinct (List.mem_of_find?_eq_some found) there named
      exact ⟨entry, rfl, congrArg Prod.snd same⟩

theorem get_eq_none :
    get uids name = none <-> name ∉ uids.map Prod.fst := by
  unfold get
  rw [Option.map_eq_none_iff, List.find?_eq_none]
  constructor
  · intro missing there
    obtain ⟨entry, member, named⟩ := List.mem_map.mp there
    exact absurd (missing entry member) (by simpa using named)
  · intro missing entry member
    simp only [decide_eq_true_eq]
    exact fun named => missing (List.mem_map.mpr ⟨entry, member, named⟩)

theorem insert_fresh (fresh : name ∉ uids.map Prod.fst) : insert uids name uid = uids ++ [(name, uid)] := by
  unfold insert
  rw [if_neg]
  intro held
  obtain ⟨entry, member, named⟩ := List.any_eq_true.mp held
  exact fresh (List.mem_map.mpr ⟨entry, member, by simpa using named⟩)

/-- A list each of whose numbers was handed out before `next`. -/
structure Issued (list : UidList) : Prop where
  validity : list.validity < u32Bound
  names : (list.uids.map Prod.fst).Nodup
  below : ∀ entry ∈ list.uids, entry.2 < list.next
  started : 1 ≤ list.next
  fits : list.next < u32Bound

def Apart : Prop := (list.uids.map Prod.snd).Nodup

theorem issued_new (validity : Fin u32Bound) : (new validity).Issued where
  validity := validity.isLt
  names := .nil
  below := fun _ there => absurd there List.not_mem_nil
  started := Nat.le_refl 1
  fits := by
    change 1 < u32Bound
    decide

theorem increment_ok (after : Nat) (done : increment uid = .ok after) : after = uid + 1 ∧ uid + 1 < u32Bound := by
  unfold increment at done
  split at done
  next fits =>
    cases done
    exact ⟨rfl, fits⟩
  next => cases done

theorem names_insert (names : (uids.map Prod.fst).Nodup) : ((insert uids name uid).map Prod.fst).Nodup := by
  by_cases held : name ∈ uids.map Prod.fst
  · have there : uids.any (fun entry => entry.1 = name) = true := by
      obtain ⟨entry, member, named⟩ := List.mem_map.mp held
      exact List.any_eq_true.mpr ⟨entry, member, by simpa using named⟩
    have same : (insert uids name uid).map Prod.fst = uids.map Prod.fst := by
      unfold insert
      rw [if_pos there, List.map_map]
      apply List.map_congr_left
      intro entry _
      simp only [Function.comp_apply]
      split
      next named => exact named.symm
      next => rfl
    rw [same]
    exact names
  · rw [insert_fresh uids name uid held, List.map_append, List.map_singleton]
    apply List.Nodup.append names (List.nodup_singleton name)
    intro other inside last
    rw [List.mem_singleton.mp last] at inside
    exact held inside

theorem mem_insert (entry : DeliveryName × Nat)
    (there : entry ∈ insert uids name uid) : entry = (name, uid) ∨ entry ∈ uids := by
  unfold insert at there
  split at there
  · obtain ⟨old, member, rfl⟩ := List.mem_map.mp there
    split
    · exact .inl rfl
    · exact .inr member
  · rcases List.mem_append.mp there with old | last
    · exact .inr old
    · exact .inl (List.mem_singleton.mp last)

theorem issued_addLine (read : UidList) (line : List Char) (issued : list.Issued)
    (added : list.addLine line = .ok read) : read.Issued := by
  unfold addLine at added
  split at added
  next =>
    cases added
    exact issued
  next uidText name _ =>
    split at added
    next =>
      cases added
      exact issued
    next uid _ =>
      split at added
      next =>
        cases added
        exact issued
      next =>
        cases stepped : increment uid with
        | error overflow =>
          rw [stepped] at added
          cases added
        | ok after =>
          rw [stepped] at added
          cases added
          obtain ⟨rfl, fits⟩ := increment_ok uid after stepped
          refine ⟨issued.validity, names_insert _ _ _ issued.names, ?_, ?_, ?_⟩
          · intro entry there
            rcases mem_insert _ _ _ _ there with rfl | old
            · exact Nat.lt_of_lt_of_le (Nat.lt_succ_self uid) (Nat.le_max_right _ _)
            · exact Nat.lt_of_lt_of_le (issued.below entry old) (Nat.le_max_left _ _)
          · exact Nat.le_trans issued.started (Nat.le_max_left _ _)
          · exact Nat.max_lt.mpr ⟨issued.fits, fits⟩

theorem issued_addLines (lines : List (List Char)) (list read : UidList) (issued : list.Issued)
    (added : list.addLines lines = .ok read) : read.Issued := by
  induction lines generalizing list with
  | nil =>
    cases added
    exact issued
  | cons line rest ih =>
    unfold addLines at added
    cases first : list.addLine line with
    | error overflow =>
      rw [first] at added
      cases added
    | ok after =>
      rw [first] at added
      exact ih after (issued_addLine list after line issued first) added

theorem parseDecimal_lt (bound number : Nat) (text : List Char) (read : Lines.parseDecimal bound text = some number) :
    number < bound := by
  unfold Lines.parseDecimal at read
  simp only [Option.ite_none_right_eq_some, Option.some.injEq] at read
  obtain ⟨-, fits, rfl⟩ := read
  exact fits

theorem issued_load (sidecar : Option (List Char)) (now : Fin u32Bound) (list : UidList)
    (loaded : load sidecar now = .ok list) : list.Issued := by
  unfold load at loaded
  split at loaded
  next =>
    cases loaded
    exact issued_new now
  next text =>
    unfold parse at loaded
    split at loaded
    next =>
      cases loaded
      exact issued_new now
    next first rest _ =>
      split at loaded
      next =>
        cases loaded
        exact issued_new now
      next validity known =>
        have small : validity < u32Bound := by
          unfold parseValidity at known
          split at known
          · exact parseDecimal_lt _ _ _ known
          · cases known
        cases read : (new validity).addLines rest with
        | error overflow =>
          rw [read] at loaded
          cases loaded
        | ok after =>
          rw [read] at loaded
          cases loaded
          exact issued_addLines rest _ _ (issued_new ⟨validity, small⟩) read

/-! ### Numbering what is listed -/

def unnumbered (names : List FileName) : Finset DeliveryName :=
  (names.map stripFlags).toFinset.filter (fun name => get list.uids name = none)

/-- What numbering leaves: every number given before, and for the names that had none, numbers not given before. -/
structure Grew (before after : UidList) (names : List FileName) : Prop where
  issued : after.Issued
  apart : before.Apart -> after.Apart
  validity : after.validity = before.validity
  next : before.next ≤ after.next
  kept : ∀ entry ∈ before.uids, entry ∈ after.uids
  fresh : ∀ entry ∈ after.uids, entry ∈ before.uids ∨ before.next ≤ entry.2 ∧ entry.1 ∈ names.map stripFlags
  last : after = before ∨ ∃ entry ∈ after.uids, entry.2 + 1 = after.next ∧ entry.1 ∈ names.map stripFlags

theorem Grew.refl (issued : list.Issued) (names : List FileName) : Grew list list names :=
  ⟨issued, fun apart => apart, rfl, Nat.le_refl _, fun _ there => there, fun _ there => .inl there, .inl rfl⟩

theorem Grew.cons {first second third : UidList} {name : FileName} {names : List FileName}
    (here : Grew first second [name]) (later : Grew second third names) : Grew first third (name :: names) where
  issued := later.issued
  apart := fun apart => later.apart (here.apart apart)
  validity := later.validity.trans here.validity
  next := Nat.le_trans here.next later.next
  kept := fun entry there => later.kept entry (here.kept entry there)
  fresh := by
    intro entry there
    rcases later.fresh entry there with old | ⟨above, listed⟩
    · rcases here.fresh entry old with older | ⟨above, listed⟩
      · exact .inl older
      · exact .inr ⟨above, List.mem_cons.mpr (.inl (by simpa using listed))⟩
    · exact .inr ⟨Nat.le_trans here.next above, List.mem_cons_of_mem _ listed⟩
  last := by
    rcases later.last with same | ⟨entry, there, newest, listed⟩
    · rw [same]
      rcases here.last with same | ⟨entry, there, newest, listed⟩
      · exact .inl same
      · exact .inr ⟨entry, there, newest, List.mem_cons.mpr (.inl (by simpa using listed))⟩
    · exact .inr ⟨entry, there, newest, List.mem_cons_of_mem _ listed⟩

theorem uidFor_spec (name : FileName) (issued : list.Issued)
    (room : get list.uids (stripFlags name) = none -> list.next + 1 < u32Bound) :
    ∃ uid after, list.uidFor name = .ok (uid, after) ∧ (stripFlags name, uid) ∈ after.uids ∧ Grew list after [name] ∧
      after.next = (if get list.uids (stripFlags name) = none then list.next + 1 else list.next) ∧
      ∀ other, get after.uids other = none <-> get list.uids other = none ∧ other ≠ stripFlags name := by
  unfold uidFor
  cases found : get list.uids (stripFlags name) with
  | some uid =>
    have there := (get_eq_some _ issued.names _ _).mp found
    refine ⟨uid, list, rfl, there, .refl list issued _, by simp, ?_⟩
    intro other
    constructor
    · intro missing
      refine ⟨missing, ?_⟩
      rintro rfl
      rw [found] at missing
      cases missing
    · exact fun both => both.1
  | none =>
    have fits := room found
    have fresh := (get_eq_none _ _).mp found
    have stepped : increment list.next = .ok (list.next + 1) := by
      unfold increment
      rw [if_pos fits]
    have rows := insert_fresh list.uids (stripFlags name) list.next fresh
    refine ⟨list.next,
      { list with next := list.next + 1, uids := insert list.uids (stripFlags name) list.next }, by rw [stepped]; rfl, ?_,
      ⟨⟨issued.validity, ?_, ?_, ?_, fits⟩, ?_, rfl, ?_, ?_, ?_, ?_⟩, rfl, ?_⟩
    · rw [rows]
      exact List.mem_append_right _ (List.mem_singleton.mpr rfl)
    · exact names_insert _ _ _ issued.names
    · intro entry there
      rw [rows] at there
      rcases List.mem_append.mp there with old | last
      · exact Nat.lt_succ_of_lt (issued.below entry old)
      · rw [List.mem_singleton.mp last]
        exact Nat.lt_succ_self _
    · exact Nat.le_succ_of_le issued.started
    · intro apart
      unfold Apart
      rw [rows, List.map_append, List.map_singleton]
      apply List.Nodup.append apart (List.nodup_singleton _)
      intro number inside last
      rw [List.mem_singleton.mp last] at inside
      obtain ⟨entry, there, same⟩ := List.mem_map.mp inside
      exact absurd (issued.below entry there) (by omega)
    · exact Nat.le_succ _
    · intro entry there
      rw [rows]
      exact List.mem_append_left _ there
    · intro entry there
      rw [rows] at there
      rcases List.mem_append.mp there with old | last
      · exact .inl old
      · rw [List.mem_singleton.mp last]
        exact .inr ⟨Nat.le_refl _, by simp⟩
    · refine .inr ⟨(stripFlags name, list.next), ?_, rfl, by simp⟩
      rw [rows]
      exact List.mem_append_right _ (List.mem_singleton.mpr rfl)
    · intro other
      rw [get_eq_none, get_eq_none, rows]
      simp

theorem unnumbered_cons (after : UidList) (name : FileName) (names : List FileName)
    (missing : ∀ other, get after.uids other = none <-> get list.uids other = none ∧ other ≠ stripFlags name) :
    (list.unnumbered (name :: names)).card =
      (after.unnumbered names).card + (if get list.uids (stripFlags name) = none then 1 else 0) := by
  have others : after.unnumbered names = (list.unnumbered (name :: names)).erase (stripFlags name) := by
    ext other
    simp only [unnumbered, Finset.mem_filter, List.mem_toFinset, Finset.mem_erase, missing, List.map_cons,
      List.mem_cons]
    tauto
  rw [others]
  split
  next fresh =>
    have there : stripFlags name ∈ list.unnumbered (name :: names) := by simp [unnumbered, fresh]
    exact (Finset.card_erase_add_one there).symm
  next held =>
    have apart : stripFlags name ∉ list.unnumbered (name :: names) := by simp [unnumbered, held]
    rw [Finset.erase_eq_of_notMem apart, Nat.add_zero]

theorem numberAll_spec (names : List FileName) (list : UidList) (issued : list.Issued)
    (room : list.next + (list.unnumbered names).card < u32Bound) :
    ∃ entries after, list.numberAll names = .ok (entries, after) ∧ entries.map Prod.snd = names ∧
      (∀ entry ∈ entries, (stripFlags entry.2, entry.1) ∈ after.uids) ∧ Grew list after names := by
  -- While there are numbers left, every file listed gets the one its name has or the next.
  induction names generalizing list with
  | nil => exact ⟨[], list, rfl, rfl, fun _ there => absurd there List.not_mem_nil, .refl list issued _⟩
  | cons name names ih =>
    obtain ⟨uid, second, numbered, there, grew, next, missing⟩ := uidFor_spec list name issued (by
      intro fresh
      have there : stripFlags name ∈ list.unnumbered (name :: names) := by simp [unnumbered, fresh]
      have counted := Finset.card_pos.mpr ⟨_, there⟩
      omega)
    have counted := unnumbered_cons list second name names missing
    obtain ⟨entries, after, rest, listed, placed, later⟩ := ih second grew.issued (by
      rw [next]
      split at counted
      next fresh =>
        rw [if_pos fresh]
        omega
      next held =>
        rw [if_neg held]
        omega)
    refine ⟨(uid, name) :: entries, after, ?_, by rw [List.map_cons, listed], ?_, grew.cons later⟩
    · unfold numberAll
      rw [numbered]
      simp only [bind, Except.bind, rest]
    · intro entry member
      rcases List.mem_cons.mp member with same | further
      · rw [same]
        exact later.kept _ there
      · exact placed entry further

/-! ### Written and read back -/

def Lasting : Prop := name ≠ [] ∧ Lines.Whole name

instance (name : DeliveryName) : Decidable (Lasting name) := inferInstanceAs (Decidable (_ ∧ _))

theorem entryLine_whole (entry : DeliveryName × Nat) (lasting : Lasting entry.1) : Lines.Whole (entryLine entry) := by
  obtain ⟨named, flat, ended⟩ := lasting
  unfold entryLine
  constructor
  · intro inside
    rcases List.mem_append.mp inside with digit | rest
    · exact Lines.notMem_toDigits '\n' (by decide) _ digit
    · rcases List.mem_cons.mp rest with space | inName
      · exact absurd space (by decide)
      · exact flat inName
  · rw [List.getLast?_append, List.getLast?_cons_of_ne_nil named]
    cases last : entry.1.getLast? with
    | none => exact absurd (List.getLast?_eq_none_iff.mp last) named
    | some char =>
      rw [last] at ended
      exact ended

theorem lines_renderEntries (entries : List (DeliveryName × Nat)) (lasting : ∀ entry ∈ entries, Lasting entry.1) :
    Lines.lines (renderEntries entries) = entries.map entryLine := by
  induction entries with
  | nil => rfl
  | cons entry rest ih =>
    have first := entryLine_whole entry (lasting entry List.mem_cons_self)
    calc Lines.lines (renderEntries (entry :: rest))
        = Lines.lines (entryLine entry ++ '\n' :: renderEntries rest) := by simp [renderEntries]
      _ = entryLine entry :: Lines.lines (renderEntries rest) := Lines.lines_append _ _ first
      _ = (entry :: rest).map entryLine := by
        rw [ih (fun other member => lasting other (List.mem_cons_of_mem _ member)), List.map_cons]

theorem addLine_entryLine (entry : DeliveryName × Nat) (named : entry.1 ≠ [])
    (fits : entry.2 + 1 < u32Bound) (fresh : entry.1 ∉ list.uids.map Prod.fst) :
    list.addLine (entryLine entry) =
      .ok { list with uids := list.uids ++ [entry], next := max list.next (entry.2 + 1) } := by
  have split := Lines.splitOnce_append ' ' (Nat.toDigits 10 entry.2) entry.1 (Lines.notMem_toDigits ' ' (by decide) _)
  have number := Lines.parseDecimal_toDigits u32Bound entry.2 (Nat.lt_of_succ_lt fits)
  have stepped : increment entry.2 = .ok (entry.2 + 1) := if_pos fits
  unfold addLine entryLine
  simp only [split, number, if_neg named, stepped, insert_fresh list.uids entry.1 entry.2 fresh]
  rfl

theorem addLines_entries (entries : List (DeliveryName × Nat)) (list : UidList)
    (named : ∀ entry ∈ entries, entry.1 ≠ []) (fits : ∀ entry ∈ entries, entry.2 + 1 < u32Bound)
    (fresh : ((list.uids ++ entries).map Prod.fst).Nodup) :
    ∃ read, list.addLines (entries.map entryLine) = .ok read ∧ read.validity = list.validity ∧
      read.uids = list.uids ++ entries ∧ list.next ≤ read.next ∧ (∀ entry ∈ entries, entry.2 + 1 ≤ read.next) ∧
      ∀ bound, list.next ≤ bound -> (∀ entry ∈ entries, entry.2 + 1 ≤ bound) -> read.next ≤ bound := by
  induction entries generalizing list with
  | nil =>
    exact ⟨list, rfl, rfl, (List.append_nil _).symm, Nat.le_refl _, fun _ there => absurd there List.not_mem_nil,
      fun _ below _ => below⟩
  | cons entry rest ih =>
    have apart : entry.1 ∉ list.uids.map Prod.fst := by
      intro held
      rw [List.map_append, List.map_cons] at fresh
      exact (List.disjoint_of_nodup_append fresh) held List.mem_cons_self
    have first := addLine_entryLine list entry (named entry List.mem_cons_self) (fits entry List.mem_cons_self) apart
    obtain ⟨read, added, validity, rows, above, all, least⟩ := ih
      { list with uids := list.uids ++ [entry], next := max list.next (entry.2 + 1) }
      (fun other member => named other (List.mem_cons_of_mem _ member))
      (fun other member => fits other (List.mem_cons_of_mem _ member)) (by
        rw [List.append_assoc]
        exact fresh)
    refine ⟨read, ?_, validity, by rw [rows, List.append_assoc]; rfl, ?_, ?_, ?_⟩
    · rw [List.map_cons, addLines, first]
      exact added
    · exact Nat.le_trans (Nat.le_max_left _ _) above
    · intro other member
      rcases List.mem_cons.mp member with same | further
      · rw [same]
        exact Nat.le_trans (Nat.le_max_right _ _) above
      · exact all other further
    · intro bound below others
      exact least bound (Nat.max_le.mpr ⟨below, others entry List.mem_cons_self⟩)
        (fun other member => others other (List.mem_cons_of_mem _ member))

theorem digit_notWhitespace (char : Char) (digit : char.isDigit = true) : isWhitespace char = false := by
  have between : 48 ≤ char.toNat ∧ char.toNat ≤ 57 := by
    simp only [Char.isDigit, Bool.and_eq_true, decide_eq_true_eq] at digit
    exact digit
  obtain ⟨low, high⟩ := between
  unfold isWhitespace
  simp only [Bool.or_eq_false_iff, Bool.and_eq_false_iff, decide_eq_false_iff_not, List.contains_eq_mem,
    List.mem_cons, List.not_mem_nil, or_false, not_le]
  omega

theorem trim_digits (text : List Char) (digits : text.all Char.isDigit = true) : trim text = text := by
  have plain : ∀ char ∈ text, ¬ isWhitespace char = true := by
    intro char inside
    rw [digit_notWhitespace char (List.all_eq_true.mp digits char inside)]
    exact Bool.false_ne_true
  unfold trim
  have front : text.dropWhile isWhitespace = text := by
    cases text with
    | nil => rfl
    | cons char rest => rw [List.dropWhile_cons_of_neg (plain char List.mem_cons_self)]
  rw [front, List.rdropWhile_eq_self_iff]
  intro held
  exact plain _ (List.getLast_mem held)

theorem header_whole (validity : Nat) : Lines.Whole (header ++ Nat.toDigits 10 validity) := by
  constructor
  · intro inside
    rcases List.mem_append.mp inside with letter | digit
    · exact absurd letter (by decide)
    · exact Lines.notMem_toDigits '\n' (by decide) _ digit
  · rw [List.getLast?_append]
    cases last : (Nat.toDigits 10 validity).getLast? with
    | none => exact absurd (List.getLast?_eq_none_iff.mp last) Nat.toDigits_ne_nil
    | some char =>
      simp only [Option.some_or, ne_eq, Option.some.injEq]
      rintro rfl
      exact Lines.notMem_toDigits '\r' (by decide) _ (List.mem_of_getLast? last)

theorem parseValidity_header (validity : Nat) (small : validity < u32Bound) :
    parseValidity (header ++ Nat.toDigits 10 validity) = some validity := by
  unfold parseValidity
  rw [if_pos (by simp), List.drop_left, trim_digits _ (Lines.digits_of_toDigits validity),
    Lines.parseDecimal_toDigits _ _ small]

theorem ordered_perm : (ordered uids).Perm uids := List.perm_insertionSort _ _

theorem parse_render (issued : list.Issued) (lasting : ∀ entry ∈ list.uids, Lasting entry.1) :
    ∃ read, parse list.render = .ok (some read) ∧ read.validity = list.validity ∧
      (∀ entry, entry ∈ read.uids <-> entry ∈ list.uids) ∧
      ((∃ entry ∈ list.uids, entry.2 + 1 = list.next) ∨ list.next = 1 -> read.next = list.next) := by
  -- A list of lasting names is read back as it was, but for the numbers no name in it holds any more.
  have perm := ordered_perm list.uids
  obtain ⟨read, added, validity, rows, above, all, least⟩ := addLines_entries (ordered list.uids) (new list.validity)
    (fun entry there => (lasting entry (perm.mem_iff.mp there)).1)
    (fun entry there => Nat.lt_of_le_of_lt (issued.below entry (perm.mem_iff.mp there)) issued.fits)
    ((perm.map Prod.fst).nodup_iff.mpr issued.names)
  refine ⟨read, ?_, validity, ?_, ?_⟩
  · unfold parse render
    have read := lines_renderEntries (ordered list.uids) (fun entry there => lasting entry (perm.mem_iff.mp there))
    rw [Lines.lines_append _ _ (header_whole list.validity), read]
    simp only [parseValidity_header list.validity issued.validity, added]
    rfl
  · intro entry
    rw [rows]
    exact perm.mem_iff
  · intro held
    apply Nat.le_antisymm
    · apply least list.next issued.started
      exact fun entry there => issued.below entry (perm.mem_iff.mp there)
    · rcases held with ⟨entry, there, newest⟩ | first
      · rw [← newest]
        exact all entry (perm.mem_iff.mpr there)
      · rw [first]
        exact above

theorem Issued.retain {list : UidList} (issued : list.Issued) (present : List FileName) :
    (list.retain present).Issued where
  validity := issued.validity
  names := issued.names.sublist ((List.filter_sublist).map Prod.fst)
  below := fun entry there => issued.below entry (List.mem_of_mem_filter there)
  started := issued.started
  fits := issued.fits

theorem mem_retain (present : List FileName) (entry : DeliveryName × Nat) :
    entry ∈ (list.retain present).uids <-> entry ∈ list.uids ∧ entry.1 ∈ present.map stripFlags := by
  unfold retain
  rw [List.mem_filter, List.contains_iff_mem]

theorem Grew.still {before after : UidList} {names : List FileName} (grew : Grew before after names)
    (issued : before.Issued) (known : before.unnumbered names = ∅) :
    (∀ entry ∈ after.uids, entry ∈ before.uids) ∧ after.next = before.next := by
  -- Numbering adds nothing where every name listed has a number.
  have within : ∀ entry ∈ after.uids, entry ∈ before.uids := by
    intro entry there
    rcases grew.fresh entry there with old | ⟨above, listed⟩
    · exact old
    · cases found : get before.uids entry.1 with
      | none =>
        have missing : entry.1 ∈ before.unnumbered names :=
          Finset.mem_filter.mpr ⟨List.mem_toFinset.mpr listed, found⟩
        rw [known] at missing
        exact absurd missing (Finset.notMem_empty _)
      | some uid =>
        have held := (get_eq_some _ issued.names _ _).mp found
        have same := List.inj_on_of_nodup_map grew.issued.names (grew.kept _ held) there rfl
        rwa [same] at held
  refine ⟨within, ?_⟩
  rcases grew.last with same | ⟨entry, there, newest, -⟩
  · rw [same]
  · have below := issued.below entry (within entry there)
    have above := grew.next
    omega

end UidList

namespace MaildirFolder

/-! ### Snapshots of one folder -/

/-- A snapshot that shows every message under one number, its own, which no other was ever shown under. -/
structure Shows (folder : MaildirFolder) (answer : Snapshot) : Prop where
  live : (answer.entries.map Prod.snd).Perm folder.files
  one : ∀ entry ∈ answer.entries, ∀ other ∈ answer.entries, stripFlags entry.2 = stripFlags other.2 -> entry.1 = other.1
  own : ∀ entry ∈ answer.entries, ∀ other ∈ answer.entries, entry.1 = other.1 -> stripFlags entry.2 = stripFlags other.2
  still : ∀ entry ∈ answer.entries, ∀ shown ∈ folder.shown, shown.1 = stripFlags entry.2 -> shown.2 = entry.1
  spent : ∀ earlier, .ok earlier ∈ folder.answers -> earlier.validity = answer.validity ->
    ∀ entry ∈ answer.entries, ∀ old ∈ earlier.entries, old.1 = entry.1 -> stripFlags old.2 = stripFlags entry.2
  rising : ∀ earlier, .ok earlier ∈ folder.answers -> earlier.validity = answer.validity -> earlier.next ≤ answer.next

variable (folder : MaildirFolder) (listed : List FileName) (list after : UidList) (answer : Snapshot)

def Stable : MaildirEvent -> Prop
  | .snapshot listed _ => listed.Perm folder.files ->
    ∃ taken ∈ (folder.snapshot listed).toOption, folder.Shows taken.1
  | .deliver _ | .delete _ | .rename _ _ | .restart _ => True

def NewestHeld (listed : List FileName) : Prop :=
  list.unnumbered listed ≠ ∅ ∨ list.next = 1 ∨
    ∃ name ∈ listed, ∃ uid ∈ UidList.get list.uids (stripFlags name), uid + 1 = list.next

def Replaceable (listed : List FileName) (saved : Bool) : Prop :=
  -- A list that numbers no two messages alike and has numbers left; what it is replaced by can be read back.
  list.Apart ∧ list.next + (list.unnumbered listed).card < u32Bound ∧
    if saved then (∀ name ∈ listed, UidList.Lasting (stripFlags name)) ∧ NewestHeld list listed
    else list.unnumbered listed = ∅

def Lasts : MaildirEvent -> Prop
  | .snapshot listed saved => listed.Perm folder.files ->
    ∃ list ∈ (UidList.load folder.sidecar folder.freshValidity).toOption, Replaceable list listed saved
  | .deliver _ | .delete _ | .rename _ _ | .restart _ => True

/-- A snapshot answered before is one a list does not contradict. -/
structure Matches (list : UidList) (answer : Snapshot) : Prop where
  validity : answer.validity = list.validity
  next : answer.next ≤ list.next
  below : ∀ entry ∈ answer.entries, entry.1 < list.next
  own : ∀ entry ∈ answer.entries, ∀ held ∈ list.uids, held.2 = entry.1 -> held.1 = stripFlags entry.2

def Blank : Prop := answer.entries = [] ∧ answer.next = 1

structure Covers (list : UidList) (answers : List (Except Overflow Snapshot)) (shown : List (DeliveryName × Nat)) :
    Prop where
  answered : ∀ answer ∈ answers, ∃ snapshot, answer = .ok snapshot ∧ (Blank snapshot ∨ Matches list snapshot)
  shown : ∀ entry ∈ shown, entry ∈ list.uids

def Kept : Prop :=
  -- The list on disk covers what was answered; or there is none to read, and nothing was numbered.
  (∃ text list, folder.sidecar = some text ∧ UidList.parse text = .ok (some list) ∧
    Covers list folder.answers folder.shown) ∨
    (∀ answer ∈ folder.answers, ∃ snapshot, answer = .ok snapshot ∧ Blank snapshot) ∧ folder.shown = []

theorem Kept.covers {folder : MaildirFolder} (kept : folder.Kept) (list : UidList)
    (loaded : UidList.load folder.sidecar folder.freshValidity = .ok list) : Covers list folder.answers folder.shown := by
  rcases kept with ⟨text, read, there, parsed, covers⟩ | ⟨blank, nothing⟩
  · rw [there] at loaded
    simp only [UidList.load, parsed] at loaded
    cases loaded
    exact covers
  · refine ⟨?_, by simp [nothing]⟩
    intro answer member
    obtain ⟨snapshot, same, empty⟩ := blank answer member
    exact ⟨snapshot, same, .inl empty⟩

theorem Kept.fewer {folder : MaildirFolder} (kept : folder.Kept) (files : List FileName)
    (shown : List (DeliveryName × Nat)) (fewer : ∀ entry ∈ shown, entry ∈ folder.shown) :
    ({ folder with files, shown } : MaildirFolder).Kept := by
  rcases kept with ⟨text, list, there, parsed, covers⟩ | ⟨blank, nothing⟩
  · exact .inl ⟨text, list, there, parsed, covers.answered, fun entry member => covers.shown entry (fewer entry member)⟩
  · refine .inr ⟨blank, ?_⟩
    rw [nothing] at fewer
    exact List.eq_nil_iff_forall_not_mem.mpr (fun entry member => absurd (fewer entry member) List.not_mem_nil)

theorem kept_opened (files : List FileName) (sidecar : Option (List Char)) (now : Fin u32Bound) :
    (opened files sidecar now).Kept :=
  .inr ⟨fun _ member => absurd member List.not_mem_nil, rfl⟩

theorem snapshot_spec (loaded : UidList.load folder.sidecar folder.freshValidity = .ok list)
    (room : list.next + (list.unnumbered listed).card < u32Bound) :
    ∃ answer after, folder.snapshot listed = .ok (answer, after.retain listed) ∧
      (answer.entries.map Prod.snd).Perm listed ∧ answer.validity = after.validity ∧ answer.next = after.next ∧
      (∀ entry ∈ answer.entries, (stripFlags entry.2, entry.1) ∈ after.uids) ∧ UidList.Grew list after listed := by
  -- What a snapshot answers, and the list it leaves.
  obtain ⟨entries, after, numbered, names, placed, grew⟩ :=
    UidList.numberAll_spec listed list (UidList.issued_load _ _ list loaded) room
  have sorted := List.perm_insertionSort (fun first second : Nat × FileName => first.1 ≤ second.1) entries
  refine ⟨⟨entries.insertionSort (fun first second => first.1 ≤ second.1), after.validity, after.next⟩, after, ?_, ?_,
    rfl, rfl, ?_, grew⟩
  · unfold snapshot
    rw [loaded]
    simp only [bind, Except.bind, numbered]
    rfl
  · rw [← names]
    exact sorted.map Prod.snd
  · exact fun entry there => placed entry (sorted.mem_iff.mp there)

theorem shows_of (covers : Covers list folder.answers folder.shown) (issued : list.Issued) (apart : list.Apart)
    (grew : UidList.Grew list after listed) (same : listed.Perm folder.files)
    (names : (answer.entries.map Prod.snd).Perm listed) (next : answer.next = after.next)
    (placed : ∀ entry ∈ answer.entries, (stripFlags entry.2, entry.1) ∈ after.uids) : folder.Shows answer where
  live := names.trans same
  one := by
    intro entry there other member named
    have equal := List.inj_on_of_nodup_map grew.issued.names (placed entry there) (placed other member) named
    exact congrArg Prod.snd equal
  own := by
    intro entry there other member number
    have equal := List.inj_on_of_nodup_map (grew.apart apart) (placed entry there) (placed other member) number
    exact congrArg Prod.fst equal
  still := by
    intro entry there shown member named
    have held := grew.kept shown (covers.shown shown member)
    exact congrArg Prod.snd (List.inj_on_of_nodup_map grew.issued.names held (placed entry there) named)
  spent := by
    intro earlier member generation entry there old oldThere number
    obtain ⟨snapshot, answered, blank | matching⟩ := covers.answered _ member
    · cases answered
      rw [blank.1] at oldThere
      cases oldThere
    · cases answered
      rcases grew.fresh _ (placed entry there) with before | ⟨above, -⟩
      · exact (matching.own old oldThere _ before number.symm).symm
      · have below := matching.below old oldThere
        simp only at above
        omega
  rising := by
    intro earlier member generation
    have risen := grew.next
    obtain ⟨snapshot, answered, blank | matching⟩ := covers.answered _ member
    · cases answered
      have first := issued.started
      rw [blank.2, next]
      omega
    · cases answered
      rw [next]
      exact Nat.le_trans matching.next risen

theorem Matches.later {list later : UidList} {answer : Snapshot} (matching : Matches list answer)
    (validity : later.validity = list.validity) (next : list.next ≤ later.next)
    (fresh : ∀ held ∈ later.uids, held ∈ list.uids ∨ list.next ≤ held.2) : Matches later answer where
  validity := matching.validity.trans validity.symm
  next := Nat.le_trans matching.next next
  below := fun entry there => Nat.lt_of_lt_of_le (matching.below entry there) next
  own := by
    intro entry there held member number
    rcases fresh held member with old | above
    · exact matching.own entry there held old number
    · have below := matching.below entry there
      omega

theorem newest_kept (listed : List FileName) (grew : UidList.Grew list after listed)
    (issued : list.Issued) (placed : ∀ name ∈ listed, ∃ uid, (stripFlags name, uid) ∈ after.uids)
    (newest : NewestHeld list listed) :
    (∃ entry ∈ (after.retain listed).uids, entry.2 + 1 = after.next) ∨ after.next = 1 := by
  rcases grew.last with same | ⟨entry, there, last, inside⟩
  · subst same
    rcases newest with fresh | first | ⟨name, inside, uid, held, last⟩
    · obtain ⟨name, missing⟩ := Finset.nonempty_iff_ne_empty.mpr fresh
      obtain ⟨inside, unknown⟩ := Finset.mem_filter.mp missing
      obtain ⟨file, member, rfl⟩ := List.mem_map.mp (List.mem_toFinset.mp inside)
      obtain ⟨uid, there⟩ := placed file member
      rw [(UidList.get_eq_some _ issued.names _ _).mpr there] at unknown
      cases unknown
    · exact .inr first
    · have there := (UidList.get_eq_some _ issued.names _ _).mp held
      exact .inl ⟨_, (UidList.mem_retain _ _ _).mpr ⟨there, List.mem_map_of_mem inside⟩, last⟩
  · exact .inl ⟨entry, (UidList.mem_retain _ _ _).mpr ⟨there, inside⟩, last⟩

theorem kept_saved (covers : Covers list folder.answers folder.shown) (issued : list.Issued) (apart : list.Apart)
    (grew : UidList.Grew list after listed) (names : (answer.entries.map Prod.snd).Perm listed)
    (validity : answer.validity = after.validity) (next : answer.next = after.next)
    (placed : ∀ entry ∈ answer.entries, (stripFlags entry.2, entry.1) ∈ after.uids)
    (lasting : ∀ name ∈ listed, UidList.Lasting (stripFlags name)) (newest : NewestHeld list listed) :
    ({ folder with
      sidecar := some (after.retain listed).render
      answers := .ok answer :: folder.answers
      shown := answer.entries.map (fun entry => (stripFlags entry.2, entry.1)) } : MaildirFolder).Kept := by
  have listing : ∀ entry ∈ answer.entries, stripFlags entry.2 ∈ listed.map stripFlags := by
    intro entry there
    exact List.mem_map_of_mem (names.mem_iff.mp (List.mem_map_of_mem there))
  obtain ⟨read, parsed, sameValidity, rows, kept⟩ := UidList.parse_render (after.retain listed)
    (grew.issued.retain listed) (by
      intro entry there
      obtain ⟨-, inside⟩ := (UidList.mem_retain _ _ _).mp there
      obtain ⟨name, member, same⟩ := List.mem_map.mp inside
      rw [← same]
      exact lasting name member)
  have held := newest_kept list after listed grew issued (by
    intro name member
    obtain ⟨entry, there, rfl⟩ := List.mem_map.mp (names.mem_iff.mpr member)
    exact ⟨entry.1, placed entry there⟩) newest
  have sameNext : read.next = after.next := kept held
  have readValidity : read.validity = after.validity := sameValidity
  have within : ∀ entry ∈ read.uids, entry ∈ after.uids :=
    fun entry there => ((UidList.mem_retain _ _ _).mp ((rows entry).mp there)).1
  refine .inl ⟨_, read, rfl, parsed, ?_, ?_⟩
  · intro earlier member
    rcases List.mem_cons.mp member with now | before
    · refine ⟨answer, now, .inr ⟨validity.trans readValidity.symm, ?_, ?_, ?_⟩⟩
      · rw [next, sameNext]
      · intro entry there
        rw [sameNext]
        exact grew.issued.below _ (placed entry there)
      · intro entry there other inside number
        have equal := List.inj_on_of_nodup_map (grew.apart apart) (within other inside) (placed entry there) number
        exact congrArg Prod.fst equal
    · obtain ⟨snapshot, answered, blank | matching⟩ := covers.answered earlier before
      · exact ⟨snapshot, answered, .inl blank⟩
      · refine ⟨snapshot, answered, .inr (matching.later (readValidity.trans grew.validity) ?_ ?_)⟩
        · rw [sameNext]
          exact grew.next
        · intro entry there
          rcases grew.fresh entry (within entry there) with old | ⟨above, -⟩
          · exact .inl old
          · exact .inr above
  · intro entry there
    obtain ⟨numbered, member, rfl⟩ := List.mem_map.mp there
    exact (rows _).mpr ((UidList.mem_retain _ _ _).mpr ⟨placed numbered member, listing numbered member⟩)

theorem kept_unsaved (kept : folder.Kept) (loaded : UidList.load folder.sidecar folder.freshValidity = .ok list) (apart : list.Apart)
    (grew : UidList.Grew list after listed) (validity : answer.validity = after.validity)
    (next : answer.next = after.next)
    (placed : ∀ entry ∈ answer.entries, (stripFlags entry.2, entry.1) ∈ after.uids)
    (known : list.unnumbered listed = ∅) :
    ({ folder with
      answers := .ok answer :: folder.answers
      shown := answer.entries.map (fun entry => (stripFlags entry.2, entry.1)) } : MaildirFolder).Kept := by
  have covers := kept.covers list loaded
  have issued := UidList.issued_load _ _ _ loaded
  obtain ⟨within, sameNext⟩ := grew.still issued known
  have held : ∀ entry ∈ answer.entries, (stripFlags entry.2, entry.1) ∈ list.uids :=
    fun entry there => within _ (placed entry there)
  have matching : Matches list answer := by
    refine ⟨validity.trans grew.validity, ?_, ?_, ?_⟩
    · rw [next, sameNext]
    · exact fun entry there => issued.below _ (held entry there)
    · intro entry there other inside number
      exact congrArg Prod.fst (List.inj_on_of_nodup_map apart inside (held entry there) number)
  have shown : ∀ entry ∈ answer.entries.map (fun entry => (stripFlags entry.2, entry.1)), entry ∈ list.uids := by
    intro entry there
    obtain ⟨numbered, member, rfl⟩ := List.mem_map.mp there
    exact held numbered member
  -- What is on disk stays; where it cannot be read, no message was there to be numbered.
  rcases kept with ⟨text, read, there, parsed, -⟩ | ⟨blank, nothing⟩
  · have same : read = list := by
      rw [there] at loaded
      simp only [UidList.load, parsed] at loaded
      exact Except.ok.inj loaded
    subst same
    refine .inl ⟨text, read, there, parsed, ?_, shown⟩
    intro earlier member
    rcases List.mem_cons.mp member with now | before
    · exact ⟨answer, now, .inr matching⟩
    · exact covers.answered earlier before
  · by_cases readable : ∃ text, folder.sidecar = some text ∧ UidList.parse text = .ok (some list)
    · obtain ⟨text, there, parsed⟩ := readable
      refine .inl ⟨text, list, there, parsed, ?_, shown⟩
      intro earlier member
      rcases List.mem_cons.mp member with now | before
      · exact ⟨answer, now, .inr matching⟩
      · exact covers.answered earlier before
    · have empty : list = UidList.new folder.freshValidity := by
        unfold UidList.load at loaded
        split at loaded
        next => exact (Except.ok.inj loaded).symm
        next text there =>
          cases parsed : UidList.parse text with
          | error overflowed =>
            rw [parsed] at loaded
            cases loaded
          | ok result =>
            cases result with
            | none =>
              rw [parsed] at loaded
              exact (Except.ok.inj loaded).symm
            | some read =>
              rw [parsed] at loaded
              have same : read = list := Except.ok.inj loaded
              subst same
              exact absurd ⟨text, there, parsed⟩ readable
      have nobody : answer.entries = [] := by
        apply List.eq_nil_iff_forall_not_mem.mpr
        intro entry there
        have numbered := held entry there
        rw [empty] at numbered
        exact absurd numbered List.not_mem_nil
      refine .inr ⟨?_, by simp [nobody]⟩
      intro earlier member
      rcases List.mem_cons.mp member with now | before
      · refine ⟨answer, now, nobody, ?_⟩
        rw [next, sameNext, empty]
        rfl
      · exact blank earlier before

theorem toOption_eq_some {Value : Type} (result : Except Overflow Value) (value : Value) :
    result.toOption = some value <-> result = .ok value := by
  cases result with
  | error overflowed => simp [Except.toOption]
  | ok other => simp [Except.toOption]

theorem snapshot_stable (saved : Bool) (kept : folder.Kept) (lasts : folder.Lasts (.snapshot listed saved)) :
    (folder.step (.snapshot listed saved)).Kept ∧ folder.Stable (.snapshot listed saved) := by
  by_cases same : listed.Perm folder.files
  · obtain ⟨list, read, apart, room, lasting⟩ := lasts same
    have loaded := (toOption_eq_some _ _).mp read
    have covers := kept.covers list loaded
    have issued := UidList.issued_load _ _ _ loaded
    obtain ⟨answer, after, taken, names, validity, next, placed, grew⟩ := snapshot_spec folder listed list loaded room
    have shows := shows_of folder listed list after answer covers issued apart grew same names next placed
    refine ⟨?_, fun _ => ⟨(answer, _), (toOption_eq_some _ _).mpr taken, shows⟩⟩
    simp only [step, if_pos same, takeSnapshot, taken]
    cases saved with
    | true =>
      obtain ⟨lasting, newest⟩ := lasting
      exact kept_saved folder listed list after answer covers issued apart grew names validity next placed lasting newest
    | false => exact kept_unsaved folder listed list after answer kept loaded apart grew validity next placed lasting
  · refine ⟨?_, fun listing => absurd listing same⟩
    simp only [step, if_neg same]
    exact kept

theorem step_stable (event : MaildirEvent) (kept : folder.Kept) (lasts : folder.Lasts event) :
    (folder.step event).Kept ∧ folder.Stable event := by
  cases event with
  | snapshot listed saved => exact snapshot_stable folder listed saved kept lasts
  | deliver name =>
    refine ⟨?_, trivial⟩
    simp only [step]
    split
    · exact kept
    · exact kept.fewer _ _ (fun _ member => member)
  | delete name => exact ⟨kept.fewer _ _ (fun _ member => List.mem_of_mem_filter member), trivial⟩
  | rename name other =>
    refine ⟨?_, trivial⟩
    simp only [step]
    split
    · exact kept.fewer _ _ (fun _ member => member)
    · exact kept
  | restart now => exact ⟨kept, trivial⟩

/-- Over any run of a folder, whatever list it began with: while every list saved can be read back and still holds the
last number given, every message has one number of its own, none is given again, and none overflows. -/
theorem uids_never_reused (files : List FileName) (sidecar : Option (List Char)) (now : Fin u32Bound)
    (events : List MaildirEvent) (lasts : Run.Along step Lasts (opened files sidecar now) events) :
    Run.Along step Stable (opened files sidecar now) events :=
  Run.along_invariant step Kept Lasts Stable (fun folder event kept lasts => (step_stable folder event kept lasts).1)
    (fun folder event kept lasts => (step_stable folder event kept lasts).2) _ events (kept_opened files sidecar now) lasts

instance (list : UidList) : Decidable list.Apart := inferInstanceAs (Decidable (List.Nodup _))

instance (list : UidList) (listed : List FileName) : Decidable (NewestHeld list listed) :=
  inferInstanceAs (Decidable (_ ∨ _ ∨ _))

instance (list : UidList) (listed : List FileName) (saved : Bool) : Decidable (Replaceable list listed saved) :=
  inferInstanceAs (Decidable (_ ∧ _ ∧ _))

instance (folder : MaildirFolder) (event : MaildirEvent) : Decidable (folder.Lasts event) :=
  match event with
  | .snapshot listed saved => inferInstanceAs (Decidable (listed.Perm folder.files ->
      ∃ list ∈ (UidList.load folder.sidecar folder.freshValidity).toOption, Replaceable list listed saved))
  | .deliver _ | .delete _ | .rename _ _ | .restart _ => isTrue trivial

def unread : FileName := ['a', ':', '2', ',']

def read : FileName := ['a', ':', '2', ',', 'S']

def second : FileName := ['b', ':', '2', ',']

def third : FileName := ['c', ':', '2', ',']

theorem oldest_deleted_stable : Run.Along step Stable (opened [] none 7)
    [.deliver unread, .snapshot [unread] true, .rename unread read, .deliver second, .snapshot [second, read] true,
      .restart 9, .delete read, .snapshot [second] true, .deliver third, .snapshot [third, second] true] :=
  uids_never_reused [] none 7 _ (by decide)

/-- Two messages, and the newest deleted: the next to arrive is given its number. -/
theorem newest_deleted_reused : ¬ Run.Along step Stable (opened [] none 7)
    ([.deliver unread, .deliver second, .snapshot [unread, second] true, .delete second, .snapshot [unread] true,
      .deliver third] ++ [.snapshot [unread, third] true]) := by
  rw [Run.along_append]
  rintro ⟨-, last, -⟩
  obtain ⟨taken, there, shows⟩ := last (by decide)
  have answered : taken.1 = ⟨[(1, unread), (2, third)], 7, 3⟩ := by
    cases there
    decide
  rw [answered] at shows
  exact absurd (shows.spent ⟨[(1, unread), (2, second)], 7, 3⟩ (by decide) rfl (2, third) (by decide) (2, second)
    (by decide) rfl) (by decide)

end MaildirFolder

end Postio

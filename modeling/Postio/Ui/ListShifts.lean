import Mathlib.Data.List.Infix
import Postio.Ui.ListWindow

set_option autoImplicit false

namespace Postio

variable {Row : Type}

variable (window : ListWindow Row) (pages : Pages Row) (rows inserted held : List Row)
    (page position first removed : Nat)

def OnPage (held : List Row) : Prop :=
  held.length ≤ pageSize ∧ ∀ index row, held[index]? = some row -> rows[page * pageSize + index]? = some row

namespace Pages

variable (pages : Pages Row) (rows : List Row) (page : Nat) (held : List Row)

def Agree : Prop := ∀ entry ∈ pages, OnPage rows entry.1 entry.2

theorem mem_of_get (found : pages.get page = some held) : (page, held) ∈ pages:= by
  obtain ⟨entry, there, rfl⟩ := Option.map_eq_some_iff.mp found
  have named : entry.1 = page := by simpa using List.find?_some there
  rw [← named]
  exact List.mem_of_find?_eq_some there

theorem get_put (other : Nat) (held : List Row) :
    (pages.put page held).get other = if other = page then some held else pages.get other := by
  by_cases same : other = page
  · simp [get, put, same]
  · have distinct : (pages.filter (fun entry => entry.1 ≠ page)).find? (fun entry => entry.1 = other) =
        pages.find? (fun entry => entry.1 = other) := by
      induction pages with
      | nil => rfl
      | cons entry rest ih =>
        by_cases named : entry.1 = page
        · simp only [named, ne_eq, not_true_eq_false, decide_false, Bool.false_eq_true, not_false_eq_true,
            List.filter_cons_of_neg]
          rw [ih, List.find?_cons_of_neg]
          simp [named, Ne.symm same]
        · rw [List.filter_cons_of_pos (by simpa using named)]
          by_cases wanted : entry.1 = other
          · simp [wanted]
          · simp only [List.find?_cons, wanted, decide_false]
            exact ih
    simp only [get, put, List.find?_cons, Ne.symm same, decide_false, same, if_false, distinct]

theorem agree_put (agree : pages.Agree rows) (onPage : OnPage rows page held) : (pages.put page held).Agree rows:= by
  intro entry member
  rcases List.mem_cons.mp member with own | other
  · rw [own]
    exact onPage
  · exact agree entry (List.mem_of_mem_filter other)

theorem agree_retain (keep : Nat -> Bool) (agree : pages.Agree rows) :
    (pages.retain keep).Agree rows := fun entry member => agree entry (List.mem_of_mem_filter member)

theorem onPage_get (agree : pages.Agree rows) (found : pages.get page = some held) : OnPage rows page held:= agree _ (pages.mem_of_get page held found)

end Pages

/-! ### A row removed -/

/-- Every page of the run a removal carries through is full, but the last. -/
def Pages.runFull (pages : Pages Row) : Nat -> Nat -> Bool
  | 0, _ => true
  | fuel + 1, page =>
    match pages.get (page + 1) with
    | some (_ :: _) => ListWindow.full pages page && pages.runFull fuel (page + 1)
    | _ => true

theorem full_length (full : ListWindow.full pages page = true) :
    ∃ held, pages.get page = some held ∧ held.length = pageSize := by
  cases found : pages.get page with
  | none => simp [ListWindow.full, found] at full
  | some held => exact ⟨held, rfl, by simpa [ListWindow.full, found] using full⟩

theorem carry_agree (before after : List Row) (original : Pages Row) (fuel : Nat) (pages : Pages Row) (last : Nat)
    (held : List Row) (here : pages.get last = some held)
    (lower : ∀ entry ∈ pages, entry.1 ≤ last -> OnPage after entry.1 entry.2)
    (upper : ∀ entry ∈ pages, last < entry.1 -> OnPage before entry.1 entry.2)
    (shifted : ∀ position, last * pageSize + held.length ≤ position -> after[position]? = before[position + 1]?)
    (same : ∀ page, last < page -> pages.get page = original.get page)
    (short : ∀ whole, original.get last = some whole -> whole.length = held.length + 1)
    (runFull : original.runFull fuel last = true) :
    ∀ entry ∈ (ListWindow.carry fuel pages last).1, entry.1 ≤ (ListWindow.carry fuel pages last).2 ->
      OnPage after entry.1 entry.2 := by
  -- Past the position removed, the list has moved up by one.
  induction fuel generalizing pages last held with
  | zero => exact lower
  | succ fuel ih =>
    unfold ListWindow.carry
    cases next : pages.get (last + 1) with
    | none => exact lower
    | some rows =>
      cases rows with
      | nil => exact lower
      | cons carried rest =>
        have nextRows := pages.mem_of_get (last + 1) (carried :: rest) next
        have nextPage := upper _ nextRows (Nat.lt_succ_self last)
        have unchanged := same (last + 1) (Nat.lt_succ_self last)
        simp only [Pages.runFull, ← unchanged, next, Bool.and_eq_true] at runFull
        obtain ⟨whole, wholeHere, wholeLength⟩ := full_length _ last runFull.1
        have length := short whole wholeHere
        have given : ((pages.put (last + 1) rest).get last).getD [] = held := by
          rw [Pages.get_put, if_neg (by omega), here]
          rfl
        simp only [given]
        -- The row carried is the one just past what this page keeps.
        have filled : OnPage after last (held ++ [carried]) := by
          have old := (lower _ (pages.mem_of_get last held here) (Nat.le_refl last)).2
          refine ⟨by simp only [List.length_append, List.length_singleton]; omega, fun index row found => ?_⟩
          by_cases inside : index < held.length
          · rw [List.getElem?_append_left inside] at found
            exact old index row found
          · have atEnd : index = held.length := by
              have bound := (List.getElem?_eq_some_iff.mp found).1
              simp only [List.length_append, List.length_singleton] at bound
              omega
            subst atEnd
            have moved := nextPage.2 0 carried rfl
            rw [shifted _ (Nat.le_refl _)]
            simp only [List.getElem?_concat_length, Option.some.injEq] at found
            rw [← found, ← moved]
            congr 1
            simp only [pageSize] at *
            omega
        have carriedFrom : OnPage after (last + 1) rest := by
          refine ⟨by have bound := nextPage.1; simp only [List.length_cons] at bound; omega, fun index row found => ?_⟩
          have moved := nextPage.2 (index + 1) row found
          rw [shifted _ (by simp only [pageSize] at *; omega), ← moved]
          congr 1
        apply ih _ (last + 1) rest
        · rw [Pages.get_put, if_neg (by omega), Pages.get_put, if_pos rfl]
        · intro entry member bound
          rcases List.mem_cons.mp member with own | other
          · rw [own]
            exact filled
          · rcases List.mem_cons.mp (List.mem_of_mem_filter other) with shrunk | rest
            · rw [shrunk]
              exact carriedFrom
            · obtain ⟨there, apart⟩ := List.mem_filter.mp rest
              have different : entry.1 ≠ last + 1 := by simpa using apart
              exact lower entry there (by omega)
        · intro entry member bound
          rcases List.mem_cons.mp member with own | other
          · rw [own] at bound
            simp only at bound
            omega
          · rcases List.mem_cons.mp (List.mem_of_mem_filter other) with shrunk | rest
            · rw [shrunk] at bound
              simp only at bound
              omega
            · exact upper entry (List.mem_of_mem_filter rest) (by omega)
        · intro position past
          apply shifted
          simp only [pageSize] at *
          omega
        · intro page past
          rw [Pages.get_put, if_neg (by omega), Pages.get_put, if_neg (by omega)]
          exact same page (by omega)
        · intro whole found
          rw [← unchanged, next] at found
          rw [← Option.some.inj found]
          rfl
        · exact runFull.2

theorem removeAt_agree (after : ListWindow Row) (rows : List Row) (position : Nat)
    (agree : window.pages.Agree rows) (applied : window.removeAt position = some after)
    (runFull : window.pages.runFull window.pages.length (position / pageSize) = true) :
    after.pages.Agree (rows.eraseIdx position) ∧ position < window.total ∧ after.total = window.total - 1 ∧
      after.discard = window.discard ∧ after.generation = window.generation := by
  unfold ListWindow.removeAt at applied
  simp only at applied
  split at applied
  next => cases applied
  next inside =>
    cases found : window.pages.get (position / pageSize) with
    | none => simp [found] at applied
    | some held =>
      simp only [found] at applied
      split at applied
      next => cases applied
      next clear =>
        cases applied
        simp only [Bool.or_eq_true, decide_eq_true_eq, not_or, not_le] at clear
        have whole := window.pages.onPage_get rows _ held agree found
        have start : position / pageSize * pageSize + position % pageSize = position := by
          rw [Nat.mul_comm, Nat.div_add_mod]
        have erased : (held.eraseIdx (position % pageSize)).length + 1 = held.length := by
          rw [List.length_eraseIdx_of_lt clear.2]
          omega
        have carried := carry_agree rows (rows.eraseIdx position) window.pages window.pages.length
          (window.pages.put (position / pageSize) (held.eraseIdx (position % pageSize))) (position / pageSize)
          (held.eraseIdx (position % pageSize)) (by rw [Pages.get_put, if_pos rfl])
          (by
            intro entry member bound
            rcases List.mem_cons.mp member with own | other
            · rw [own]
              change OnPage (rows.eraseIdx position) (position / pageSize) (held.eraseIdx (position % pageSize))
              refine ⟨by have length := whole.1; omega, fun index row there => ?_⟩
              rw [List.getElem?_eraseIdx] at there ⊢
              by_cases before : index < position % pageSize
              · rw [if_pos before] at there
                rw [if_pos (by omega)]
                exact whole.2 index row there
              · rw [if_neg before] at there
                rw [if_neg (by omega)]
                exact whole.2 (index + 1) row there
            · obtain ⟨there, apart⟩ := List.mem_filter.mp other
              have different : entry.1 ≠ position / pageSize := by simpa using apart
              have onPage := agree entry there
              refine ⟨onPage.1, fun index row found => ?_⟩
              have short := (List.getElem?_eq_some_iff.mp found).1
              have size := onPage.1
              rw [List.getElem?_eraseIdx, if_pos]
              · exact onPage.2 index row found
              · simp only [pageSize] at *
                omega)
          (by
            intro entry member bound
            rcases List.mem_cons.mp member with own | other
            · rw [own] at bound
              exact absurd bound (Nat.lt_irrefl _)
            · exact agree entry (List.mem_of_mem_filter other))
          (by
            intro other past
            rw [List.getElem?_eraseIdx, if_neg]
            omega)
          (by
            intro page past
            rw [Pages.get_put, if_neg (by omega)])
          (by
            intro other there
            rw [found] at there
            rw [← Option.some.inj there]
            omega)
          runFull
        refine ⟨?_, by omega, rfl, rfl, rfl⟩
        intro entry member
        obtain ⟨there, kept⟩ := List.mem_filter.mp member
        exact carried entry there (by simpa using kept)

/-! ### Rows spliced -/

theorem runStart_le (anchor : Nat) : ListWindow.runStart pages anchor ≤ anchor := by
  induction anchor with
  | zero => exact Nat.le_refl 0
  | succ anchor ih =>
    unfold ListWindow.runStart
    split
    · omega
    · exact Nat.le_refl _

theorem runStart_full (anchor page : Nat) (lower : ListWindow.runStart pages anchor ≤ page)
    (upper : page < anchor) : ListWindow.full pages page = true := by
  induction anchor with
  | zero => omega
  | succ anchor ih =>
    unfold ListWindow.runStart at lower
    split at lower
    next full =>
      by_cases last : page = anchor
      · rw [last]
        exact full
      · exact ih lower (by omega)
    next => omega

theorem runEnd_ge (fuel last : Nat) : last ≤ ListWindow.runEnd pages fuel last := by
  induction fuel generalizing last with
  | zero => exact Nat.le_refl last
  | succ fuel ih =>
    unfold ListWindow.runEnd
    split
    · have further := ih (last + 1)
      omega
    · exact Nat.le_refl last

theorem runEnd_full (fuel last page : Nat) (lower : last ≤ page)
    (upper : page < ListWindow.runEnd pages fuel last) : ListWindow.full pages page = true := by
  induction fuel generalizing last with
  | zero =>
    simp only [ListWindow.runEnd] at upper
    omega
  | succ fuel ih =>
    unfold ListWindow.runEnd at upper
    split at upper
    next held =>
      by_cases first : page = last
      · rw [first]
        exact (Bool.and_eq_true_iff.mp held).1
      · exact ih (last + 1) (by omega) upper
    next => omega

def OnRun (start : Nat) (held : List Row) : Prop :=
  ∀ index row, held[index]? = some row -> rows[start + index]? = some row

theorem rowsOf_run (agree : pages.Agree rows) (count first : Nat)
    (full : ∀ page, first ≤ page -> page < first + count -> ListWindow.full pages page = true) :
    OnRun rows (first * pageSize) (ListWindow.rowsOf pages first (first + count)) ∧
      (ListWindow.rowsOf pages first (first + count)).length ≤ (count + 1) * pageSize := by
  -- Full pages back to back are exactly the positions they cover.
  have cut : ∀ first count, ListWindow.rowsOf pages first (first + count) =
      (List.range' first (count + 1)).flatMap (fun page => (pages.get page).getD []) := by
    intro first count
    simp only [ListWindow.rowsOf]
    congr 2
    omega
  have own : ∀ page, OnRun rows (page * pageSize) ((pages.get page).getD []) ∧
      ((pages.get page).getD []).length ≤ pageSize := by
    intro page
    cases found : pages.get page with
    | none => exact ⟨fun index row there => (by simp at there), Nat.zero_le _⟩
    | some held =>
      have onPage := pages.onPage_get rows page held agree found
      exact ⟨onPage.2, onPage.1⟩
  induction count generalizing first with
  | zero =>
    rw [cut]
    simp only [Nat.zero_add, List.range'_one, List.flatMap_cons, List.flatMap_nil, List.append_nil, Nat.one_mul]
    exact own first
  | succ count ih =>
    obtain ⟨later, size⟩ := ih (first + 1) (fun page lower upper => full page (by omega) (by omega))
    rw [cut] at later size ⊢
    obtain ⟨whole, found, length⟩ := full_length pages first (full first (Nat.le_refl _) (by omega))
    obtain ⟨here, -⟩ := own first
    rw [List.range'_succ, List.flatMap_cons]
    rw [found] at here ⊢
    simp only [Option.getD_some] at here ⊢
    constructor
    · intro index row there
      by_cases inside : index < whole.length
      · rw [List.getElem?_append_left inside] at there
        exact here index row there
      · rw [List.getElem?_append_right (by omega)] at there
        have moved := later _ row there
        rw [← moved]
        congr 1
        simp only [pageSize] at *
        omega
    · simp only [List.length_append, pageSize] at *
      omega

theorem mem_rechunk (rows : List Row) (entry : Nat × List Row)
    (member : entry ∈ ListWindow.rechunk pages first rows) :
    (∃ chunk, entry = (first + chunk, (rows.drop (chunk * pageSize)).take pageSize)) ∨
      entry ∈ pages ∧ ∀ chunk < (rows.length + pageSize - 1) / pageSize, entry.1 ≠ first + chunk := by
  unfold ListWindow.rechunk at member
  generalize (rows.length + pageSize - 1) / pageSize = count at member ⊢
  induction count with
  | zero => exact .inr ⟨member, fun chunk bound => (by omega)⟩
  | succ count ih =>
    rw [List.range_succ, List.foldl_append] at member
    rcases List.mem_cons.mp member with own | other
    · exact .inl ⟨count, own⟩
    · obtain ⟨there, apart⟩ := List.mem_filter.mp other
      rcases ih there with chunk | ⟨outside, distinct⟩
      · exact .inl chunk
      · refine .inr ⟨outside, fun chunk bound => ?_⟩
        by_cases last : chunk = count
        · rw [last]
          simpa using apart
        · exact distinct chunk (by omega)

theorem chunk_onPage (chunk : Nat) (run : OnRun rows (first * pageSize) held) :
    OnPage rows (first + chunk) ((held.drop (chunk * pageSize)).take pageSize) := by
  refine ⟨List.length_take_le _ _, fun index row found => ?_⟩
  rw [List.getElem?_take] at found
  split at found
  next bound =>
    rw [List.getElem?_drop] at found
    have there := run _ row found
    rw [← there]
    congr 1
    simp only [pageSize] at *
    omega
  next => cases found

theorem agree_rechunk (run : OnRun rows (first * pageSize) held)
    (outside : ∀ entry ∈ pages, (∀ chunk < (held.length + pageSize - 1) / pageSize, entry.1 ≠ first + chunk) ->
      OnPage rows entry.1 entry.2) : (ListWindow.rechunk pages first held).Agree rows := by
  intro entry member
  rcases mem_rechunk pages first held entry member with ⟨chunk, rfl⟩ | ⟨there, apart⟩
  · exact chunk_onPage rows held first chunk run
  · exact outside entry there apart

def spliced (inserted : List Row) : List Row :=
  rows.take position ++ inserted ++ rows.drop (position + removed)

theorem spliced_row (index : Nat) (fits : position + removed ≤ rows.length) :
    (spliced rows position removed inserted)[index]? =
      if index < position then rows[index]?
      else if index < position + inserted.length then inserted[index - position]?
      else rows[index - inserted.length + removed]? := by
  have front : (rows.take position).length = position := by
    rw [List.length_take]
    omega
  unfold spliced
  by_cases before : index < position
  · rw [if_pos before, List.append_assoc, List.getElem?_append_left (by omega), List.getElem?_take, if_pos before]
  · rw [if_neg before]
    by_cases inside : index < position + inserted.length
    · rw [if_pos inside, List.getElem?_append_left (by rw [List.length_append]; omega),
        List.getElem?_append_right (by omega), front]
    · rw [if_neg inside, List.getElem?_append_right (by rw [List.length_append]; omega), List.getElem?_drop]
      congr 1
      simp only [List.length_append]
      omega

theorem spliced_length (fits : position + removed ≤ rows.length) :
    (spliced rows position removed inserted).length = rows.length - removed + inserted.length := by
  simp only [spliced, List.length_append, List.length_take, List.length_drop]
  omega

theorem spliced_run (inserted : List Row) (start position removed : Nat) (run : OnRun rows start held)
    (below : start ≤ position) (fits : position + removed ≤ rows.length)
    (inside : position - start + removed ≤ held.length) :
    OnRun (spliced rows position removed inserted) start (spliced held (position - start) removed inserted) := by
  -- Splicing a run splices the list where the run lies.
  intro index row found
  rw [spliced_row held inserted _ removed index inside] at found
  rw [spliced_row rows inserted position removed _ fits]
  by_cases before : index < position - start
  · rw [if_pos before] at found
    rw [if_pos (by omega)]
    exact run index row found
  · rw [if_neg before] at found
    rw [if_neg (by omega)]
    by_cases new : index < position - start + inserted.length
    · rw [if_pos new] at found
      rw [if_pos (by omega), ← found]
      congr 1
      omega
    · rw [if_neg new] at found
      rw [if_neg (by omega), ← run _ row found]
      congr 1
      omega

theorem onPage_below (onPage : OnPage rows page held)
    (fits : position + removed ≤ rows.length) (below : (page + 1) * pageSize ≤ position) :
    OnPage (spliced rows position removed inserted) page held := by
  refine ⟨onPage.1, fun index row found => ?_⟩
  have short := (List.getElem?_eq_some_iff.mp found).1
  have size := onPage.1
  rw [spliced_row rows inserted position removed _ fits, if_pos]
  · exact onPage.2 index row found
  · simp only [pageSize] at *
    omega

theorem onPage_past (onPage : OnPage rows page held)
    (fits : position + removed ≤ rows.length) (past : position + removed ≤ page * pageSize)
    (same : inserted.length = removed) : OnPage (spliced rows position removed inserted) page held := by
  -- A change that keeps the length leaves what is past it alone.
  refine ⟨onPage.1, fun index row found => ?_⟩
  rw [spliced_row rows inserted position removed _ fits, if_neg (by omega), if_neg (by omega),
    ← onPage.2 index row found]
  congr 1
  omega

theorem ListWindow.anchorOf_le (anchor : Nat) (found : window.anchorOf position = some anchor) :
    anchor * pageSize ≤ position := by
  have start : position / pageSize * pageSize ≤ position := Nat.div_mul_le_self position pageSize
  unfold ListWindow.anchorOf at found
  simp only at found
  split at found
  · cases found
    exact start
  · split at found
    · cases found
      simp only [pageSize] at *
      omega
    · cases found

def ListWindow.overtaken (inserted : List Row) (page : Nat) : Nat :=
  -- The answers disowned after a splice: one more for each page from its run on that is marked as asked for, when rows
  -- move.
  let moved := decide (inserted.length ≠ removed) && window.pending.contains page &&
    (window.anchorOf position).any (fun anchor => runStart window.pages anchor ≤ page)
  window.discard page + if moved then 1 else 0

theorem splice_spec (total : window.total = rows.length) (agree : window.pages.Agree rows) :
    (window.splice position removed inserted).1.generation = window.generation ∧
      if (window.splice position removed inserted).2 then
        (window.splice position removed inserted).1.pages.Agree (spliced rows position removed inserted) ∧
          (window.splice position removed inserted).1.total = (spliced rows position removed inserted).length ∧
          (window.splice position removed inserted).1.discard = window.overtaken position removed inserted
      else
        (window.splice position removed inserted).1.pages.Agree rows ∧
          (window.splice position removed inserted).1.total = rows.length ∧
          (window.splice position removed inserted).1.discard = window.discard := by
  unfold ListWindow.splice
  split
  next => exact ⟨rfl, by simpa using ⟨agree, total⟩⟩
  next fits =>
    rw [total, not_lt] at fits
    cases found : window.anchorOf position with
    | none => exact ⟨rfl, by simpa using ⟨agree, total⟩⟩
    | some anchor =>
      simp only
      have firstLe := runStart_le window.pages anchor
      have lastGe := runEnd_ge window.pages window.pages.length anchor
      have start := window.anchorOf_le position anchor found
      generalize first_ : ListWindow.runStart window.pages anchor = first at *
      generalize last_ : ListWindow.runEnd window.pages window.pages.length anchor = last at *
      obtain ⟨count, rfl⟩ : ∃ count, last = first + count := ⟨last - first, by omega⟩
      obtain ⟨run, size⟩ := rowsOf_run window.pages rows agree count first (by
        intro page lower upper
        by_cases early : page < anchor
        · exact runStart_full window.pages anchor page (by omega) early
        · exact runEnd_full window.pages window.pages.length anchor page (by omega) (by omega))
      generalize ListWindow.rowsOf window.pages first (first + count) = held at *
      have outside := window.pages.agree_retain rows (fun page => page < first || first + count < page) agree
      split
      next =>
        refine ⟨rfl, ?_⟩
        rw [if_neg Bool.false_ne_true]
        exact ⟨agree_rechunk _ rows held first run (fun entry there _ => outside entry there), total, rfl⟩
      next inside =>
        refine ⟨rfl, ?_⟩
        rw [if_pos rfl]
        have below : first * pageSize ≤ position := Nat.le_trans (Nat.mul_le_mul_right pageSize firstLe) start
        rw [not_lt] at inside
        have moved := spliced_run rows held inserted (first * pageSize) position removed run below fits inside
        have length := spliced_length held inserted (position - first * pageSize) removed inside
        constructor
        · change Pages.Agree
            (if (spliced held (position - first * pageSize) removed inserted).length ≠ held.length then _ else _) _
          split
          next grew =>
            intro entry member
            obtain ⟨there, kept⟩ := List.mem_filter.mp member
            rcases mem_rechunk _ first _ entry there with ⟨chunk, rfl⟩ | ⟨rest, apart⟩
            · exact chunk_onPage _ _ first chunk moved
            · obtain ⟨held, side⟩ := List.mem_filter.mp rest
              simp only [Bool.or_eq_true, decide_eq_true_eq] at side kept
              rcases side with early | late
              · exact onPage_below rows inserted entry.2 entry.1 position removed (agree entry held) fits
                  (Nat.le_trans (Nat.mul_le_mul_right pageSize early) below)
              -- What is held past the run is past the chunks too, and goes.
              · exfalso
                have distinct := apart (entry.1 - first) (by omega)
                omega
          next same =>
            rw [not_not, length] at same
            apply agree_rechunk _ _ _ _ moved
            intro entry rest apart
            obtain ⟨held, side⟩ := List.mem_filter.mp rest
            simp only [Bool.or_eq_true, decide_eq_true_eq] at side
            rcases side with early | late
            · exact onPage_below rows inserted entry.2 entry.1 position removed (agree entry held) fits
                (Nat.le_trans (Nat.mul_le_mul_right pageSize early) below)
            · have reach : (first + count + 1) * pageSize ≤ entry.1 * pageSize := Nat.mul_le_mul_right pageSize late
              apply onPage_past rows inserted entry.2 entry.1 position removed (agree entry held) fits
              · simp only [pageSize] at *
                omega
              · omega
        · refine ⟨by rw [spliced_length rows inserted position removed fits, total], ?_⟩
          have grew : (spliced held (position - first * pageSize) removed inserted).length ≠ held.length <->
              inserted.length ≠ removed := by omega
          funext page
          simp only [ListWindow.overtaken, found, Option.any_some, first_]
          rw [← decide_eq_decide.mpr grew]
          rfl

end Postio

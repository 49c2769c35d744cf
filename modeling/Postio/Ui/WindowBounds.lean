import Mathlib.Data.List.Nodup
import Mathlib.Data.List.Perm.Subperm
import Postio.Ui.ListRows

set_option autoImplicit false

namespace Postio

variable {Row : Type}

namespace ListWindow

/-! ### The rest of the window's operations -/

def adopt (_ : ListWindow Row) (total generation : Nat) : ListWindow Row :=
  { total, pages := [], recent := [], pending := [], generation, discard := fun _ => 0 }

variable (window : ListWindow Row)

def renumber (generation : Nat) : ListWindow Row :=
  { window with pending := [], discard := fun _ => 0, generation }

def retainPages (keep : Nat -> Bool) : ListWindow Row :=
  { window with pages := window.pages.retain keep, recent := window.recent.filter keep }

/-- The answer for a page taken without delivering it, unless it is of another generation or disowned. -/
def answered (generation page : Nat) : ListWindow Row × Bool :=
  if generation ≠ window.generation then (window, false)
  else if 0 < window.discard page then
    ({ window with discard := fun other => if other = page then window.discard page - 1 else window.discard other }, false)
  else ({ window with pending := window.pending.filter (· ≠ page) }, true)

def notePending (page : Nat) : ListWindow Row × Bool :=
  if window.pending.contains page then (window, false) else ({ window with pending := page :: window.pending }, true)

/-- One row in place. Asked of the pages in whatever order they are kept. -/
def update [ListRow Row] (window : ListWindow Row) (incoming : Row) : ListWindow Row × Option Nat :=
  let found := window.pages.findSome? (fun entry =>
    (entry.2.findIdx? (fun row => (ListRow.id row).isSome && ListRow.id row = ListRow.id incoming)).map (fun index => (entry, index)))
  match found with
  | none => (window, none)
  | some ((page, rows), index) =>
    ({ window with pages := window.pages.put page (rows.set index incoming) }, some (page * pageSize + index))

end ListWindow

namespace Pages

def keys (pages : Pages Row) : List Nat := pages.map Prod.fst

def Sized (pages : Pages Row) : Prop := ∀ entry ∈ pages, entry.2.length ≤ pageSize

end Pages

inductive WindowOp (Row : Type) where
  | reset (total : Nat)
  | adopt (total generation : Nat)
  | renumber (generation : Nat)
  | invalidate
  | setTotal (total : Nat)
  | insertedAtTop (count : Nat)
  | removeAt (position : Nat)
  | splice (position removed : Nat) (inserted : List Row)
  | retainPages (keep : Nat -> Bool)
  | answered (generation page : Nat)
  | rowAt (position : Nat)
  | notePending (page : Nat)
  | abandon (generation page : Nat)
  | deliver (generation page : Nat) (rows : List Row)
  | update (row : Row)

namespace ListWindow

/-- The window after an operation, and its answer where that is yes or no. -/
def perform [ListRow Row] (window : ListWindow Row) : WindowOp Row -> ListWindow Row × Option Bool
  | .reset total => (window.reset total, none)
  | .adopt total generation => (window.adopt total generation, none)
  | .renumber generation => (window.renumber generation, none)
  | .invalidate => (window.invalidate, none)
  | .setTotal total => (window.setTotal total, none)
  | .insertedAtTop count => (window.insertedAtTop count, some (count ≠ 0))
  | .removeAt position => ((window.removeAt position).getD window, some (window.removeAt position).isSome)
  | .splice position removed inserted => (window.splice position removed inserted).map id some
  | .retainPages keep => (window.retainPages keep, none)
  | .answered generation page => (window.answered generation page).map id some
  | .rowAt position => ((window.rowAt position).1, none)
  | .notePending page => (window.notePending page).map id some
  | .abandon generation page => (window.abandon generation page, none)
  | .deliver generation page rows => (window.deliver generation page rows, none)
  | .update row => ((window.update row).1, none)

/-- The recency queue lists the resident pages, each once. -/
structure Tracked (window : ListWindow Row) : Prop where
  -- A map: at most one page an index.
  keyed : window.pages.keys.Nodup
  listed : ∀ page, page ∈ window.recent <-> (window.pages.get page).isSome
  once : window.recent.Nodup

structure Bounded (window : ListWindow Row) : Prop extends Tracked window where
  resident : window.pages.length ≤ cachePages
  sized : window.pages.Sized

structure Same (before after : ListWindow Row) : Prop where
  total : after.total = before.total
  pages : ∀ page, after.pages.get page = before.pages.get page
  recent : after.recent = before.recent
  pending : after.pending = before.pending
  generation : after.generation = before.generation
  discard : after.discard = before.discard

def Keeps [ListRow Row] (window : ListWindow Row) (op : WindowOp Row) : Prop :=
  (window.perform op).1.Bounded ∧ ((window.perform op).2 = some false -> window.Same (window.perform op).1)

/-- A splice that is refused finds a row on the last page of its run, and one that moves rows leaves no more pages than are kept. -/
def SpliceFits (window : ListWindow Row) (position removed : Nat) (inserted : List Row) : Prop :=
  position + removed ≤ window.total -> ∀ anchor, window.anchorOf position = some anchor ->
    let first := runStart window.pages anchor
    let last := runEnd window.pages window.pages.length anchor
    let held := (rowsOf window.pages first last).length
    if held < position - first * pageSize + removed then window.pages.get last ≠ some []
    else inserted.length ≠ removed ->
      (window.pages.filter (fun entry => entry.1 < first)).length + (held - removed + inserted.length + pageSize - 1) / pageSize ≤
        cachePages

/-- A page is delivered with no more rows than a page has, and no disowned answer is reported as taken. -/
def Meets (window : ListWindow Row) : WindowOp Row -> Prop
  | .splice position removed inserted => window.SpliceFits position removed inserted
  | .answered generation page => generation = window.generation -> window.discard page = 0
  | .deliver generation page rows => generation = window.generation -> window.discard page = 0 -> rows.length ≤ pageSize
  | _ => True

end ListWindow

/-! ### Pages as a map -/

namespace Pages

variable (pages : Pages Row) (keep : Nat -> Bool) (page : Nat) (rows : List Row)

theorem keys_put : (pages.put page rows).keys = page :: pages.keys.filter (· ≠ page):= by
  simp only [keys, put, List.map_cons, List.filter_map]
  rfl

theorem keys_retain : (pages.retain keep).keys = pages.keys.filter keep := by
  simp only [keys, retain, List.filter_map]
  rfl

theorem get_isSome : (pages.get page).isSome <-> page ∈ pages.keys := by
  rw [get, Option.isSome_map, List.find?_isSome, keys, List.mem_map]
  simp

theorem get_none : pages.get page = none <-> page ∉ pages.keys := by
  rw [← get_isSome, Option.isSome_iff_ne_none, not_not]

theorem get_of_mem (keyed : pages.keys.Nodup) (page : Nat) (rows : List Row) (member : (page, rows) ∈ pages) :
    pages.get page = some rows := by
  cases found : pages.get page with
  | none => exact absurd (List.mem_map_of_mem member) ((pages.get_none page).mp found)
  | some held =>
    have same : (page, held) = (page, rows) := List.inj_on_of_nodup_map keyed (pages.mem_of_get page held found) member rfl
    rw [(Prod.mk.inj same).2]

theorem keyed_put (keyed : pages.keys.Nodup) : (pages.put page rows).keys.Nodup := by
  rw [keys_put]
  exact List.nodup_cons.mpr ⟨by simp, keyed.filter _⟩

theorem keyed_retain (keyed : pages.keys.Nodup) : (pages.retain keep).keys.Nodup := by
  rw [keys_retain]
  exact keyed.filter _

theorem get_retain : (pages.retain keep).get page = if keep page then pages.get page else none:= by
  induction pages with
  | nil => simp [retain, get]
  | cons entry rest ih =>
    by_cases named : entry.1 = page
    case pos =>
      subst named
      by_cases kept : keep entry.1
      case pos => simp [retain, get, kept]
      case neg =>
        rw [if_neg kept] at ih ⊢
        rw [← ih, retain, List.filter_cons_of_neg (by simpa using kept)]
        rfl
    case neg =>
      have skip : Pages.get (entry :: rest) page = Pages.get rest page := by simp [get, named]
      rw [skip, ← ih]
      by_cases kept : keep entry.1
      case pos =>
        rw [retain, List.filter_cons_of_pos (by simpa using kept)]
        simp [get, named, retain]
      case neg =>
        rw [retain, List.filter_cons_of_neg (by simpa using kept)]
        rfl

theorem length_le (first second : Pages Row) (keyed : first.keys.Nodup)
    (within : ∀ page, (first.get page).isSome -> (second.get page).isSome) : first.length ≤ second.length := by
  have sub : first.keys ⊆ second.keys := by
    intro page member
    exact (second.get_isSome page).mp (within page ((first.get_isSome page).mpr member))
  have size := (List.subperm_of_subset keyed sub).length_le
  rwa [keys, keys, List.length_map, List.length_map] at size

theorem sized_put (sized : pages.Sized) (few : rows.length ≤ pageSize) :
    (pages.put page rows).Sized := by
  intro entry member
  rcases List.mem_cons.mp member with rfl | other
  next => exact few
  next => exact sized entry (List.mem_of_mem_filter other)

theorem sized_retain (sized : pages.Sized) : (pages.retain keep).Sized :=
  fun entry member => sized entry (List.mem_of_mem_filter member)

end Pages

/-! ### What each operation keeps -/

namespace ListWindow

theorem bounded_new : (new : ListWindow Row).Bounded where
  keyed := .nil
  resident := Nat.zero_le _
  sized := by simp [new, Pages.Sized]
  listed := by simp [new, Pages.get]
  once := .nil

variable (window : ListWindow Row) (pages : Pages Row) (first page : Nat) (rows : List Row) (count : Nat)

theorem bounded_empty (pages : window.pages = []) (recent : window.recent = []) : window.Bounded := by
  refine { keyed := ?_, listed := ?_, once := ?_, resident := ?_, sized := ?_ } <;>
    simp [pages, recent, Pages.get, Pages.keys, Pages.Sized]

theorem bounded_congr (before after : ListWindow Row) (bounded : before.Bounded) (pages : after.pages = before.pages)
    (recent : after.recent = before.recent) : after.Bounded where
  keyed := pages ▸ bounded.keyed
  resident := pages ▸ bounded.resident
  sized := pages ▸ bounded.sized
  listed := by
    rw [pages, recent]
    exact bounded.listed
  once := recent ▸ bounded.once

theorem bounded_retain (keep : Nat -> Bool) (bounded : window.Bounded) :
    (window.retainPages keep).Bounded where
  keyed := window.pages.keyed_retain keep bounded.keyed
  resident := (List.length_filter_le _ _).trans bounded.resident
  sized := window.pages.sized_retain keep bounded.sized
  listed := by
    intro page
    simp only [retainPages, List.mem_filter, Pages.get_retain, bounded.listed]
    split <;> simp [*]
  once := bounded.once.filter _

theorem bounded_touch (bounded : window.Bounded) (held : (window.pages.get page).isSome) :
    (window.touch page).Bounded where
  keyed := bounded.keyed
  resident := bounded.resident
  sized := bounded.sized
  listed := by
    intro other
    simp only [touch, List.mem_append, List.mem_filter, List.mem_singleton, bounded.listed]
    by_cases same : other = page
    case pos => simp [same, held]
    case neg => simp [same]
  once := by
    refine List.nodup_append.mpr ⟨bounded.once.filter _, List.nodup_singleton _, ?_⟩
    intro first early second own
    obtain rfl := List.mem_singleton.mp own
    simpa using (List.mem_filter.mp early).2

theorem carry_bounded (fuel : Nat) (pages : Pages Row) (last : Nat) (held : List Row) (here : pages.get last = some held)
    (room : held.length < pageSize) (keyed : pages.keys.Nodup) (sized : pages.Sized) :
    (carry fuel pages last).1.keys.Nodup ∧ (carry fuel pages last).1.Sized ∧
      ∀ page, ((carry fuel pages last).1.get page).isSome = (pages.get page).isSome := by
  induction fuel generalizing pages last held with
  | zero => exact ⟨keyed, sized, fun _ => rfl⟩
  | succ fuel ih =>
    unfold carry
    cases next : pages.get (last + 1) with
    | none => exact ⟨keyed, sized, fun _ => rfl⟩
    | some rows =>
      cases rows with
      | nil => exact ⟨keyed, sized, fun _ => rfl⟩
      | cons carried rest =>
        have size := sized _ (pages.mem_of_get _ _ next)
        rw [List.length_cons] at size
        have given : (pages.put (last + 1) rest).get last = some held := by
          rw [Pages.get_put, if_neg (by omega), here]
        simp only [given, Option.getD_some]
        have further := ih ((pages.put (last + 1) rest).put last (held ++ [carried])) (last + 1) rest
          (by rw [Pages.get_put, if_neg (by omega), Pages.get_put, if_pos rfl]) size
          (Pages.keyed_put _ _ _ (Pages.keyed_put _ _ _ keyed))
          (Pages.sized_put _ _ _ (Pages.sized_put _ _ _ sized (by omega)) (by simp only [List.length_append, List.length_singleton]; omega))
        refine ⟨further.1, further.2.1, fun page => ?_⟩
        rw [further.2.2 page, Pages.get_put, Pages.get_put]
        by_cases own : page = last
        case pos => simp [own, here]
        case neg =>
          rw [if_neg own]
          by_cases after : page = last + 1
          case pos => simp [after, next]
          case neg => rw [if_neg after]

theorem bounded_removeAt (after : ListWindow Row) (position : Nat) (bounded : window.Bounded)
    (applied : window.removeAt position = some after) : after.Bounded := by
  unfold removeAt at applied
  simp only at applied
  split at applied
  next => cases applied
  next =>
    cases found : window.pages.get (position / pageSize) with
    | none => simp [found] at applied
    | some held =>
      simp only [found] at applied
      split at applied
      next => cases applied
      next clear =>
        simp only [Bool.or_eq_true, decide_eq_true_eq, not_or, not_le] at clear
        have size := bounded.sized _ (window.pages.mem_of_get _ _ found)
        have shorter : (held.eraseIdx (position % pageSize)).length < pageSize := by
          rw [List.length_eraseIdx_of_lt clear.2]
          simp only at size
          omega
        obtain ⟨keyed, sized, same⟩ := carry_bounded window.pages.length
          (window.pages.put (position / pageSize) (held.eraseIdx (position % pageSize))) (position / pageSize) _
          (by rw [Pages.get_put, if_pos rfl]) shorter (Pages.keyed_put _ _ _ bounded.keyed)
          (Pages.sized_put _ _ _ bounded.sized (Nat.le_of_lt shorter))
        generalize carry window.pages.length _ _ = carried at keyed sized same applied
        obtain ⟨pages, last⟩ := carried
        simp only at keyed sized same
        have before : ∀ page, (pages.get page).isSome = (window.pages.get page).isSome := by
          intro page
          rw [same, Pages.get_put]
          split
          next own => rw [own, found]; rfl
          next => rfl
        have few := Pages.length_le pages window.pages keyed (fun page held => before page ▸ held)
        cases applied
        exact {
          keyed := pages.keyed_retain (fun page => page ≤ last) keyed
          resident := (List.length_filter_le _ _).trans (few.trans bounded.resident)
          sized := pages.sized_retain (fun page => page ≤ last) sized
          listed := by
            intro page
            simp only [List.mem_filter, Pages.get_retain, bounded.listed, ← before page]
            split <;> simp [*]
          once := bounded.once.filter _ }

theorem bounded_evict (tracked : window.Tracked) (sized : window.pages.Sized) : window.evict.Bounded := by
  have split : window.recent = window.recent.take (window.recent.length - cachePages) ++
      window.recent.drop (window.recent.length - cachePages) := (List.take_append_drop _ _).symm
  have apart := tracked.once
  rw [split] at apart
  have listed : ∀ page, page ∈ window.evict.recent <-> (window.evict.pages.get page).isSome := by
    intro page
    have whole := tracked.listed page
    rw [split, List.mem_append] at whole
    simp only [evict, Pages.get_retain]
    by_cases gone : page ∈ window.recent.take (window.recent.length - cachePages)
    case pos =>
      have left : page ∉ window.recent.drop (window.recent.length - cachePages) :=
        fun later => (List.nodup_append.mp apart).2.2 page gone page later rfl
      simp [gone, left]
    case neg => simp [gone, ← whole]
  let stays : Nat -> Bool := fun page => !(window.recent.take (window.recent.length - cachePages)).contains page
  have keyed : window.evict.pages.keys.Nodup := window.pages.keyed_retain stays tracked.keyed
  have small : window.evict.pages.Sized := window.pages.sized_retain stays sized
  refine { keyed, listed, once := (List.nodup_append.mp apart).2.1, resident := ?_, sized := small }
  have within : window.evict.pages.keys ⊆ window.evict.recent :=
    fun page member => (listed page).mpr ((Pages.get_isSome _ page).mpr member)
  have few := (List.subperm_of_subset keyed within).length_le
  have kept : window.evict.recent.length ≤ cachePages := by
    simp only [evict, List.length_drop]
    omega
  rw [Pages.keys, List.length_map] at few
  exact few.trans kept

theorem tracked_landed (pending : List Nat) (tracked : window.Tracked) :
    ({ window with pending, pages := window.pages.put page rows }.touch page).Tracked where
  keyed := window.pages.keyed_put page rows tracked.keyed
  listed := by
    intro other
    simp only [touch, List.mem_append, List.mem_filter, List.mem_singleton, Pages.get_put, tracked.listed]
    by_cases same : other = page <;> simp [same]
  once := by
    refine List.nodup_append.mpr ⟨tracked.once.filter _, List.nodup_singleton _, ?_⟩
    intro first early second own
    obtain rfl := List.mem_singleton.mp own
    simpa using (List.mem_filter.mp early).2

theorem evict_landed (pending : List Nat) (tracked : window.Tracked) :
    ({ window with pending, pages := window.pages.put page rows }.touch page).evict.pages.get page = some rows := by
  have own := tracked_landed window page rows pending tracked
  simp only [evict, Pages.get_retain]
  have stays : page ∉ ({ window with pending, pages := window.pages.put page rows }.touch page).recent.take
      (({ window with pending, pages := window.pages.put page rows }.touch page).recent.length - cachePages) := by
    simp only [touch, List.length_append, List.length_singleton]
    rw [List.take_append_of_le_length (by simp only [cachePages]; omega)]
    intro early
    simpa using (List.mem_filter.mp (List.mem_of_mem_take early)).2
  simp only [List.contains_eq_mem, stays, decide_false, Bool.not_false, if_true]
  simp [touch, Pages.get_put]

theorem keeps_deliver [ListRow Row] (window : ListWindow Row) (generation page : Nat) (rows : List Row) (bounded : window.Bounded) :
    window.Keeps (.deliver generation page rows) <-> window.Meets (.deliver generation page rows) := by
  unfold Keeps Meets perform
  simp only [reduceCtorEq, false_implies, and_true]
  unfold deliver
  split
  next other => simpa [other] using bounded
  next current =>
    split
    next disowned =>
      have still : ({ window with discard := fun other => if other = page then window.discard page - 1 else window.discard other } :
          ListWindow Row).Bounded := bounded_congr window _ bounded rfl rfl
      exact ⟨fun _ _ owned => absurd disowned (by omega), fun _ => still⟩
    next owned =>
      constructor
      next =>
        intro after _ _
        have there := evict_landed window page rows (window.pending.filter (· ≠ page)) bounded.toTracked
        exact after.sized _ (Pages.mem_of_get _ _ _ there)
      next =>
        intro few
        have small := few (not_not.mp current) (by omega)
        exact bounded_evict _ (tracked_landed window page rows _ bounded.toTracked)
          (window.pages.sized_put page rows bounded.sized small)

/-! ### A splice -/

def chunks (length : Nat) : Nat := (length + pageSize - 1) / pageSize

theorem get_rechunk (page : Nat) : (rechunk pages first rows).get page =
      if first ≤ page ∧ page < first + chunks rows.length then some ((rows.drop ((page - first) * pageSize)).take pageSize)
      else pages.get page := by
  unfold rechunk
  rw [show (rows.length + pageSize - 1) / pageSize = chunks rows.length from rfl]
  generalize chunks rows.length = count
  induction count with
  | zero => rw [if_neg (by omega), List.range_zero, List.foldl_nil]
  | succ count ih =>
    rw [List.range_succ, List.foldl_append, List.foldl_cons, List.foldl_nil, Pages.get_put, ih]
    by_cases last : page = first + count
    case pos => rw [if_pos last, if_pos (by omega), last, Nat.add_sub_cancel_left]
    case neg =>
      rw [if_neg last]
      by_cases inside : first ≤ page ∧ page < first + count
      case pos => rw [if_pos inside, if_pos (by omega)]
      case neg => rw [if_neg inside, if_neg (by omega)]

theorem keyed_rechunk (keyed : pages.keys.Nodup) : (rechunk pages first rows).keys.Nodup:= by
  unfold rechunk
  generalize (rows.length + pageSize - 1) / pageSize = count
  induction count with
  | zero => exact keyed
  | succ count ih =>
    rw [List.range_succ, List.foldl_append, List.foldl_cons, List.foldl_nil]
    exact Pages.keyed_put _ _ _ ih

theorem sized_rechunk (sized : pages.Sized) : (rechunk pages first rows).Sized:= by
  unfold rechunk
  generalize (rows.length + pageSize - 1) / pageSize = count
  induction count with
  | zero => exact sized
  | succ count ih =>
    rw [List.range_succ, List.foldl_append, List.foldl_cons, List.foldl_nil]
    exact Pages.sized_put _ _ _ ih (List.length_take_le _ _)

structure IsRun (pages : Pages Row) (first count : Nat) : Prop where
  full : ∀ page, first ≤ page -> page < first + count -> full pages page = true
  held : (pages.get (first + count)).isSome = true

theorem rowsOf_cons :
    rowsOf pages first (first + (count + 1)) = (pages.get first).getD [] ++ rowsOf pages (first + 1) (first + 1 + count) := by
  unfold rowsOf
  rw [show first + (count + 1) + 1 - first = count + 1 + 1 by omega, show first + 1 + count + 1 - (first + 1) = count + 1 by omega,
    List.range'_succ, List.flatMap_cons]

theorem rowsOf_chunk (chunk : Nat) (run : IsRun pages first count) (sized : pages.Sized)
    (inside : chunk ≤ count) :
    ((rowsOf pages first (first + count)).drop (chunk * pageSize)).take pageSize = (pages.get (first + chunk)).getD [] := by
  induction count generalizing first chunk with
  | zero =>
    obtain rfl := Nat.le_zero.mp inside
    have own : rowsOf pages first (first + 0) = (pages.get first).getD [] := by simp [rowsOf]
    obtain ⟨rows, found⟩ := Option.isSome_iff_exists.mp run.held
    have size := sized _ (pages.mem_of_get _ _ found)
    rw [Nat.zero_mul, List.drop_zero, own, Nat.add_zero] at *
    rw [found]
    exact List.take_of_length_le size
  | succ count ih =>
    obtain ⟨whole, found, length⟩ := full_length pages first (run.full first (Nat.le_refl _) (by omega))
    have later : IsRun pages (first + 1) count := by
      refine ⟨fun page low high => run.full page (by omega) (by omega), ?_⟩
      rw [show first + 1 + count = first + (count + 1) by omega]
      exact run.held
    rw [rowsOf_cons, found, Option.getD_some]
    cases chunk with
    | zero =>
      show ((whole ++ _).drop (0 * pageSize)).take pageSize = (pages.get first).getD []
      rw [Nat.zero_mul, List.drop_zero, found, Option.getD_some, ← length, List.take_left]
    | succ chunk =>
      have further := ih (first + 1) chunk later (by omega)
      rw [show first + 1 + chunk = first + (chunk + 1) by omega] at further
      rw [← further, show (chunk + 1) * pageSize = whole.length + chunk * pageSize by simp only [pageSize] at *; omega,
        ← List.drop_drop, List.drop_left]

theorem rowsOf_length (run : IsRun pages first count) :
    (rowsOf pages first (first + count)).length = count * pageSize + ((pages.get (first + count)).getD []).length := by
  induction count generalizing first with
  | zero => simp [rowsOf]
  | succ count ih =>
    obtain ⟨whole, found, length⟩ := full_length pages first (run.full first (Nat.le_refl _) (by omega))
    have later : IsRun pages (first + 1) count := by
      refine ⟨fun page low high => run.full page (by omega) (by omega), ?_⟩
      rw [show first + 1 + count = first + (count + 1) by omega]
      exact run.held
    rw [rowsOf_cons, found, Option.getD_some, List.length_append, ih (first + 1) later, length,
      show first + 1 + count = first + (count + 1) by omega]
    simp only [pageSize]
    omega

theorem runEnd_held (fuel last : Nat) (held : (pages.get last).isSome = true) :
    (pages.get (runEnd pages fuel last)).isSome = true := by
  induction fuel generalizing last with
  | zero => exact held
  | succ fuel ih =>
    unfold runEnd
    split
    next more => exact ih (last + 1) (Bool.and_eq_true_iff.mp more).2
    next => exact held

theorem splice_run (position anchor : Nat) (found : window.anchorOf position = some anchor) :
    ∃ count, runEnd window.pages window.pages.length anchor = runStart window.pages anchor + count ∧
      IsRun window.pages (runStart window.pages anchor) count := by
  have low := runStart_le window.pages anchor
  have high := runEnd_ge window.pages window.pages.length anchor
  refine ⟨runEnd window.pages window.pages.length anchor - runStart window.pages anchor, by omega, ?_, ?_⟩
  next =>
    intro page above below
    by_cases early : page < anchor
    case pos => exact runStart_full window.pages anchor page above early
    case neg => exact runEnd_full window.pages window.pages.length anchor page (by omega) (by omega)
  next =>
    rw [show runStart window.pages anchor + (runEnd window.pages window.pages.length anchor - runStart window.pages anchor) =
      runEnd window.pages window.pages.length anchor by omega]
    apply runEnd_held
    unfold anchorOf at found
    simp only at found
    split at found
    next own =>
      cases found
      cases there : window.pages.get (position / pageSize) with
      | none => simp [there] at own
      | some rows => rfl
    next =>
      split at found
      next before =>
        cases found
        simp only [Bool.and_eq_true] at before
        obtain ⟨rows, there, -⟩ := full_length _ _ before.2
        exact Option.isSome_iff_exists.mpr ⟨rows, there⟩
      next => cases found

section

variable (window : ListWindow Row) (first count : Nat) (run : IsRun window.pages first count) (bounded : window.Bounded)

def outside : Pages Row := window.pages.retain (fun page => page < first || first + count < page)

theorem get_outside (page : Nat) :
    (window.outside first count).get page =
      if page < first ∨ first + count < page then window.pages.get page else none := by
  rw [outside, Pages.get_retain]
  simp

theorem chunks_row (length : Nat) (some_row : 0 < length) (few : length ≤ pageSize) : chunks (count * pageSize + length) = count + 1 := by
  simp only [chunks, pageSize] at *
  omega

include run bounded

theorem rechunk_same (page : Nat) (filled : window.pages.get (first + count) ≠ some []) :
    (rechunk (window.outside first count) first (rowsOf window.pages first (first + count))).get page = window.pages.get page := by
  obtain ⟨last, there⟩ := Option.isSome_iff_exists.mp run.held
  have some_row : 0 < last.length := List.length_pos_iff.mpr (fun empty => filled (empty ▸ there))
  have few := bounded.sized _ (window.pages.mem_of_get _ _ there)
  have size := rowsOf_length window.pages first count run
  rw [there, Option.getD_some] at size
  rw [get_rechunk, get_outside, size, chunks_row count last.length some_row few]
  by_cases inside : first ≤ page ∧ page < first + (count + 1)
  case pos =>
    rw [if_pos inside, rowsOf_chunk window.pages first count (page - first) run bounded.sized (by omega),
      show first + (page - first) = page by omega]
    by_cases last : page = first + count
    case pos => rw [last, there, Option.getD_some]
    case neg =>
      obtain ⟨rows, found, -⟩ := full_length _ _ (run.full page inside.1 (by omega))
      rw [found, Option.getD_some]
  case neg => rw [if_neg inside, if_pos (by omega)]

omit bounded in
theorem rechunk_lost (empty : window.pages.get (first + count) = some []) :
    (rechunk (window.outside first count) first (rowsOf window.pages first (first + count))).get (first + count) = none := by
  have size := rowsOf_length window.pages first count run
  rw [empty, Option.getD_some, List.length_nil, Nat.add_zero] at size
  rw [get_rechunk, get_outside, size, if_neg, if_neg (by omega)]
  simp only [chunks, pageSize]
  omega

omit run in
theorem grown_length (rows : List Row) :
    ((rechunk (window.outside first count) first rows).retain (· < first + max (chunks rows.length) 1)).length =
      (window.pages.filter (fun entry => entry.1 < first)).length + chunks rows.length := by
  have keyed := keyed_rechunk (window.outside first count) first rows (window.pages.keyed_retain _ bounded.keyed)
  have early : ((window.pages.filter (fun entry => entry.1 < first)).map Prod.fst) = window.pages.keys.filter (· < first) :=
    (window.pages.keys_retain (· < first))
  have same : ((rechunk (window.outside first count) first rows).retain (· < first + max (chunks rows.length) 1)).keys.Perm
      (window.pages.keys.filter (· < first) ++ List.range' first (chunks rows.length)) := by
    apply (List.perm_ext_iff_of_nodup (Pages.keyed_retain _ _ keyed) _).mpr
    next =>
      intro page
      rw [← Pages.get_isSome, Pages.get_retain, List.mem_append, List.mem_filter, List.mem_range'_1, ← Pages.get_isSome, get_rechunk,
        get_outside]
      by_cases chunk : first ≤ page ∧ page < first + chunks rows.length
      case pos =>
        rw [if_pos (by simp only [decide_eq_true_eq]; omega), if_pos chunk]
        exact ⟨fun _ => .inr chunk, fun _ => rfl⟩
      case neg =>
        rw [if_neg chunk]
        by_cases before : page < first
        case pos =>
          rw [if_pos (by simp only [decide_eq_true_eq]; omega), if_pos (Or.inl before)]
          exact ⟨fun held => .inl ⟨held, decide_eq_true before⟩, fun held => (held.resolve_right chunk).1⟩
        case neg =>
          have past : ¬ (page < first + max (chunks rows.length) 1) ∨ ¬ (page < first ∨ first + count < page) := by omega
          constructor
          next =>
            intro held
            split at held
            next below =>
              simp only [decide_eq_true_eq] at below
              rw [if_neg (past.resolve_left (not_not.mpr below))] at held
              cases held
            next => cases held
          next =>
            rintro (⟨-, low⟩ | inside)
            next => exact absurd (of_decide_eq_true low) before
            next => exact absurd inside chunk
    next =>
      refine List.nodup_append.mpr ⟨bounded.keyed.filter _, List.nodup_range', ?_⟩
      intro low lowIn high highIn
      have below := of_decide_eq_true (List.mem_filter.mp lowIn).2
      have above := (List.mem_range'_1.mp highIn).1
      omega
  have sizes := same.length_eq
  rw [List.length_append, List.length_range', ← early, List.length_map, Pages.keys, List.length_map] at sizes
  exact sizes

end

theorem same_refl : window.Same window := ⟨rfl, fun _ => rfl, rfl, rfl, rfl, rfl⟩

theorem bounded_same (bounded : window.Bounded) (keyed : pages.keys.Nodup)
    (sized : pages.Sized) (same : ∀ page, pages.get page = window.pages.get page) : { window with pages }.Bounded where
  keyed := keyed
  listed := fun page => by rw [same, bounded.listed]
  once := bounded.once
  resident := (Pages.length_le pages window.pages keyed (fun page held => same page ▸ held)).trans bounded.resident
  sized := sized

theorem tracked_respread (after : ListWindow Row) (first count : Nat) (tracked : window.Tracked)
    (keyed : after.pages.keys.Nodup)
    (recent : after.recent = window.recent.filter (fun page => (after.pages.get page).isSome) ++
      (List.range' first count).filter (fun page => (after.pages.get page).isSome &&
        !(window.recent.filter (fun page => (after.pages.get page).isSome)).contains page))
    (within : ∀ page, (after.pages.get page).isSome ->
      (window.pages.get page).isSome = true ∨ first ≤ page ∧ page < first + count) : after.Tracked where
  keyed := keyed
  listed := by
    intro page
    rw [recent, List.mem_append]
    simp only [List.mem_filter, List.mem_range'_1, tracked.listed, Bool.and_eq_true, Bool.not_eq_true', List.contains_eq_mem,
      decide_eq_false_iff_not, not_and]
    constructor
    next =>
      rintro (⟨-, held⟩ | ⟨-, held, -⟩)
      next => exact held
      next => exact held
    next =>
      intro held
      by_cases before : (window.pages.get page).isSome = true
      case pos => exact .inl ⟨before, held⟩
      case neg => exact .inr ⟨(within page held).resolve_left before, held, fun there => absurd there before⟩
  once := by
    rw [recent]
    refine List.nodup_append.mpr ⟨tracked.once.filter _, (List.nodup_range').filter _, ?_⟩
    rintro page early _ late rfl
    simp only [List.mem_filter, Bool.and_eq_true, Bool.not_eq_true', List.contains_eq_mem, decide_eq_false_iff_not] at early late
    exact late.2.2 early

section

variable (window : ListWindow Row) (first count : Nat) (run : IsRun window.pages first count)

include run

theorem run_held (page : Nat) (low : first ≤ page) (high : page ≤ first + count) : (window.pages.get page).isSome = true := by
  rcases Nat.lt_or_eq_of_le high with inner | rfl
  next =>
    obtain ⟨rows, found, -⟩ := full_length _ _ (run.full page low inner)
    rw [found]
    rfl
  next => exact run.held

theorem rechunk_within (rows : List Row) (sized : window.pages.Sized)
    (same : rows.length = (rowsOf window.pages first (first + count)).length) (page : Nat)
    (held : ((rechunk (window.outside first count) first rows).get page).isSome = true) : (window.pages.get page).isSome = true := by
  rw [get_rechunk, get_outside] at held
  obtain ⟨last, there⟩ := Option.isSome_iff_exists.mp run.held
  have few := sized _ (window.pages.mem_of_get _ _ there)
  have size := rowsOf_length window.pages first count run
  rw [there, Option.getD_some, ← same] at size
  split at held
  next chunk =>
    apply run_held window first count run page chunk.1
    simp only [size, chunks, pageSize] at *
    omega
  next =>
    split at held
    next => exact held
    next => cases held

end

theorem keeps_splice [ListRow Row] (window : ListWindow Row) (position removed : Nat) (inserted : List Row) (bounded : window.Bounded) :
    window.Keeps (.splice position removed inserted) <-> window.Meets (.splice position removed inserted) := by
  unfold Keeps Meets SpliceFits
  simp only [perform, Prod.map, id]
  unfold splice
  split
  next past =>
    simp only [bounded, same_refl, implies_true, and_self, true_iff]
    intro fits
    omega
  next fits =>
    cases found : window.anchorOf position with
    | none => simp [bounded, same_refl]
    | some anchor =>
      obtain ⟨count, last, run⟩ := splice_run window position anchor found
      simp only [Option.some.injEq, forall_eq', last, not_lt.mp fits, true_implies]
      generalize runStart window.pages anchor = first at run
      rw [show window.pages.retain (fun page => page < first || first + count < page) = window.outside first count from rfl]
      have keyed (rows : List Row) : (rechunk (window.outside first count) first rows).keys.Nodup :=
        keyed_rechunk _ first rows (window.pages.keyed_retain _ bounded.keyed)
      have sized (rows : List Row) : (rechunk (window.outside first count) first rows).Sized :=
        sized_rechunk _ first rows (window.pages.sized_retain _ bounded.sized)
      by_cases short : (rowsOf window.pages first (first + count)).length < position - first * pageSize + removed
      case pos =>
        rw [if_pos short, if_pos short]
        simp only [true_implies]
        constructor
        next =>
          intro kept empty
          have gone := kept.2.pages (first + count)
          simp only at gone
          rw [rechunk_lost window first count run empty, empty] at gone
          cases gone
        next =>
          intro filled
          have same := fun page => rechunk_same window first count run bounded page filled
          exact ⟨bounded_same window _ bounded (keyed _) (sized _) same, ⟨rfl, same, rfl, rfl, rfl, rfl⟩⟩
      case neg =>
        rw [if_neg short, if_neg short]
        simp only [Bool.true_eq_false, false_implies, and_true]
        have inside := not_lt.mp short
        have length := spliced_length (rowsOf window.pages first (first + count)) inserted (position - first * pageSize) removed inside
        rw [spliced] at length
        generalize (rowsOf window.pages first (first + count)).take (position - first * pageSize) ++ inserted ++
          (rowsOf window.pages first (first + count)).drop (position - first * pageSize + removed) = rows at length
        by_cases grew : rows.length = (rowsOf window.pages first (first + count)).length
        case pos =>
          simp only [grew, ne_eq, not_true_eq_false, decide_false, Bool.false_and, Bool.false_eq_true, if_false]
          have kept : inserted.length = removed := by omega
          have within := rechunk_within window first count run rows bounded.sized grew
          refine iff_of_true ?_ (fun moved => absurd kept moved)
          exact {
            toTracked := tracked_respread window _ first _ bounded.toTracked (keyed rows) rfl (fun page held => .inl (within page held))
            resident := (Pages.length_le _ window.pages (keyed rows) within).trans bounded.resident
            sized := sized rows }
        case neg =>
          simp only [grew, ne_eq, not_false_eq_true, decide_true, Bool.true_and, if_true]
          have moved : ¬ inserted.length = removed := by omega
          have grown := grown_length window first count bounded rows
          rw [← length]
          constructor
          next =>
            intro after _
            exact Nat.le_trans (Nat.le_of_eq grown.symm) after.resident
          next =>
            intro few
            refine { toTracked := ?_, resident := ?_, sized := ?_ }
            next =>
              refine tracked_respread window _ first _ bounded.toTracked
                (Pages.keyed_retain _ (· < first + max (chunks rows.length) 1) (keyed rows)) rfl ?_
              intro page held
              simp only [Pages.get_retain, decide_eq_true_eq] at held
              split at held
              next below =>
                rw [get_rechunk, get_outside] at held
                split at held
                next chunk => exact .inr ⟨chunk.1, by omega⟩
                next =>
                  split at held
                  next => exact .inl held
                  next => cases held
              next => cases held
            next => exact Nat.le_trans (Nat.le_of_eq grown) (few moved)
            next => exact Pages.sized_retain _ (· < first + max (chunks rows.length) 1) (sized rows)

theorem keeps_answered [ListRow Row] (window : ListWindow Row) (generation page : Nat) (bounded : window.Bounded) :
    window.Keeps (.answered generation page) <-> window.Meets (.answered generation page) := by
  unfold Keeps Meets
  simp only [perform, Prod.map, id]
  unfold answered
  split
  next other => simp [other, bounded, same_refl]
  next current =>
    split
    next disowned =>
      refine iff_of_false ?_ (fun clear => absurd (clear (not_not.mp current)) (Nat.ne_of_gt disowned))
      intro kept
      have counted := congrFun (kept.2 rfl).discard page
      simp only [if_true] at counted
      omega
    next clear =>
      have still : ({ window with pending := window.pending.filter (· ≠ page) } : ListWindow Row).Bounded :=
        bounded_congr window _ bounded rfl rfl
      simp only [still, true_and, Option.some.injEq, Bool.true_eq_false, false_implies, true_iff]
      intro _
      omega

theorem bounded_setTotal (total : Nat) (bounded : window.Bounded) : (window.setTotal total).Bounded := by
  unfold setTotal
  split
  next => exact bounded
  next =>
    split
    next => exact bounded_congr window _ bounded rfl rfl
    next => exact bounded_congr _ _ (bounded_retain window (· < (total + pageSize - 1) / pageSize) bounded) rfl rfl

theorem bounded_rowAt (position : Nat) (bounded : window.Bounded) : (window.rowAt position).1.Bounded := by
  have wanted : ∀ window : ListWindow Row, ∀ page index, window.Bounded -> (window.want page index).1.Bounded := by
    intro window page index bounded
    unfold want
    simp only
    split
    next => exact bounded
    next => exact bounded_congr window _ bounded rfl rfl
  unfold rowAt
  split
  next => exact bounded
  next =>
    simp only
    split
    next row found =>
      obtain ⟨rows, held, -⟩ := Option.bind_eq_some_iff.mp found
      exact bounded_touch window _ bounded (Option.isSome_iff_exists.mpr ⟨rows, held⟩)
    next =>
      refine wanted _ _ _ ?_
      split
      next => exact wanted _ _ _ (wanted _ _ _ bounded)
      next => exact wanted _ _ _ bounded

theorem bounded_update [ListRow Row] (window : ListWindow Row) (row : Row) (bounded : window.Bounded) :
    (window.update row).1.Bounded := by
  unfold update
  dsimp only
  split
  next => exact bounded
  next page rows index found =>
    obtain ⟨entry, member, same⟩ := List.exists_of_findSome?_eq_some found
    obtain ⟨_, -, equal⟩ := Option.map_eq_some_iff.mp same
    cases equal
    have held := window.pages.get_of_mem bounded.keyed page rows member
    exact {
      keyed := Pages.keyed_put _ _ _ bounded.keyed
      listed := by
        intro other
        rw [Pages.get_put, bounded.listed]
        by_cases own : other = page
        case pos => simp [own, held]
        case neg => rw [if_neg own]
      once := bounded.once
      resident := by
        refine (Pages.length_le _ window.pages (Pages.keyed_put _ _ _ bounded.keyed) ?_).trans bounded.resident
        intro other
        rw [Pages.get_put]
        by_cases own : other = page
        case pos => simp [own, held]
        case neg => simp [own]
      sized := by
        refine Pages.sized_put _ _ _ bounded.sized ?_
        rw [List.length_set]
        exact bounded.sized _ member }

theorem keeps_iff [ListRow Row] (window : ListWindow Row) (op : WindowOp Row) (bounded : window.Bounded) :
    window.Keeps op <-> window.Meets op := by
  cases op with
  | splice position removed inserted => exact keeps_splice window position removed inserted bounded
  | answered generation page => exact keeps_answered window generation page bounded
  | deliver generation page rows => exact keeps_deliver window generation page rows bounded
  | reset total => exact iff_of_true ⟨bounded_empty _ rfl rfl, by simp [perform]⟩ trivial
  | adopt total generation => exact iff_of_true ⟨bounded_empty _ rfl rfl, by simp [perform]⟩ trivial
  | renumber generation => exact iff_of_true ⟨bounded_congr window _ bounded rfl rfl, by simp [perform]⟩ trivial
  | invalidate => exact iff_of_true ⟨bounded_empty _ rfl rfl, by simp [perform]⟩ trivial
  | setTotal total => exact iff_of_true ⟨bounded_setTotal window total bounded, by simp [perform]⟩ trivial
  | insertedAtTop count =>
    refine iff_of_true ?_ trivial
    by_cases none_in : count = 0
    case pos => simp [Keeps, perform, insertedAtTop, none_in, bounded, same_refl]
    case neg =>
      refine ⟨?_, by simp [perform, none_in]⟩
      rw [perform, insertedAtTop, if_neg none_in]
      exact bounded_empty _ rfl rfl
  | removeAt position =>
    refine iff_of_true ?_ trivial
    cases applied : window.removeAt position with
    | none => simp [Keeps, perform, applied, bounded, same_refl]
    | some after => simpa [Keeps, perform, applied] using bounded_removeAt window after position bounded applied
  | retainPages keep => exact iff_of_true ⟨bounded_retain window keep bounded, by simp [perform]⟩ trivial
  | rowAt position => exact iff_of_true ⟨bounded_rowAt window position bounded, by simp [perform]⟩ trivial
  | notePending page =>
    refine iff_of_true ?_ trivial
    unfold Keeps
    simp only [perform, Prod.map, id, notePending]
    split
    next => exact ⟨bounded, fun _ => same_refl window⟩
    next => exact ⟨bounded_congr window _ bounded rfl rfl, fun no => by cases no⟩
  | abandon generation page =>
    refine iff_of_true ⟨?_, by simp [perform]⟩ trivial
    simp only [perform, abandon]
    split
    next => exact bounded
    next => split <;> exact bounded_congr window _ bounded rfl rfl
  | update row => exact iff_of_true ⟨bounded_update window row bounded, by simp [perform]⟩ trivial

/-! ### Runs -/

def after [ListRow Row] (ops : List (WindowOp Row)) : ListWindow Row := ops.foldl (fun window op => (window.perform op).1) new

theorem after_append [ListRow Row] (ops : List (WindowOp Row)) (op : WindowOp Row) : after (ops ++ [op]) = ((after ops).perform op).1 := by
  rw [after, List.foldl_append]
  rfl

/-- Every operation of a run leaves the window bounded, and as it was where it answers no, exactly when every one meets its
condition. -/
theorem bounded_exact [ListRow Row] (ops : List (WindowOp Row)) :
    (∀ prior op, (prior ++ [op]) <+: ops -> (after prior).Keeps op) <->
      ∀ prior op, (prior ++ [op]) <+: ops -> (after prior).Meets op := by
  constructor
  next =>
    intro keeps prior op within
    have bounded : (after prior).Bounded := by
      rcases List.eq_nil_or_concat prior with rfl | ⟨before, last, rfl⟩
      next => exact bounded_new
      next =>
        rw [List.concat_eq_append] at within ⊢
        rw [after_append]
        exact (keeps before last ((List.prefix_append _ _).trans within)).1
    exact (keeps_iff _ op bounded).mp (keeps prior op within)
  next =>
    intro meets
    have bounded (prior : List (WindowOp Row)) (within : prior <+: ops) : (after prior).Bounded := by
      induction prior using List.reverseRecOn with
      | nil => exact bounded_new
      | append_singleton before last ih =>
        rw [after_append]
        have early := ih ((List.prefix_append _ _).trans within)
        exact ((keeps_iff _ last early).mpr (meets before last within)).1
    intro prior op within
    exact (keeps_iff _ op (bounded prior ((List.prefix_append _ _).trans within))).mpr (meets prior op within)

def ninthPage : List (WindowOp MessageId) :=
  .setTotal 450 :: (List.range 8).map (fun page => .deliver 0 page (List.replicate pageSize ⟨1⟩)) ++ [.splice 0 0 [⟨2⟩]]

theorem ninthPage_unbounded : ¬ (after ninthPage).Bounded := by
  intro bounded
  exact absurd bounded.resident (by decide +kernel)

end ListWindow

end Postio

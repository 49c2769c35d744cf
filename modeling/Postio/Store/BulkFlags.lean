import Postio.Lib.Table
import Postio.Lib.Words
import Postio.Model.SpelledFlag
import Postio.Store.MessageSet

set_option autoImplicit false

namespace Postio

/-! The two ways one flag is set or cleared across messages: one statement over the text of their flags, or a read and a write
for each. -/

open SpelledFlags

def ColumnFlag.spelled : ColumnFlag -> SpelledFlag
  | .seen => .seen
  | .flagged => .flagged

inductive FlagSource where
  | locally
  | server
  deriving DecidableEq

/-- A message's flags: their text, and the columns that shadow it. No statement here writes the other columns. -/
structure FlagRow (Other : Type) where
  id : MessageId
  flags : List Char
  seen : Bool
  answered : Bool
  flagged : Bool
  deleted : Bool
  draft : Bool
  flagsDirty : Bool
  other : Other
  deriving DecidableEq

abbrev FlagTable (Other : Type) := Table (FlagRow Other) (fun row => row.id.get)

namespace FlagRow

variable {Other : Type}

variable (flag : ColumnFlag) (present : Bool) (row : FlagRow Other)

def column : SpelledFlag -> Bool
  | .seen => row.seen
  | .answered => row.answered
  | .flagged => row.flagged
  | .deleted => row.deleted
  | .draft => row.draft
  | _ => false

/-- `set_flags` on the one row it names. -/
def setFlags (flags : SpelledFlags) (source : FlagSource) (row : FlagRow Other) : FlagRow Other :=
  { row with
    flags := flagText flags.persistable
    seen := flags.persistable.contains .seen
    flagged := flags.persistable.contains .flagged
    answered := flags.persistable.contains .answered
    draft := flags.persistable.contains .draft
    deleted := flags.persistable.contains .deleted
    flagsDirty := source = .locally }

def rest (text : List Char) : List Char :=
  system.foldl (fun text flag => Words.replace (' ' :: flag.asStr ++ [' ']) [' '] text) (' ' :: text ++ [' '])

def flagsExpression (columns : SpelledFlag -> Bool) (row : FlagRow Other) : List Char :=
  let head := system.flatMap (fun flag => if columns flag then flag.asStr ++ [' '] else [])
  Words.trim (head ++ Words.ltrim (rest row.flags))

/-- `SET` reads the row as it was, so the value that is written is spliced in. -/
def spliced (other : SpelledFlag) : Bool :=
  if other = flag.spelled then present else row.column other

/-- `set_flag_on_set` on one of the rows it names. -/
def setFlagOnSet : FlagRow Other :=
  { row with
    flags := row.flagsExpression (row.spliced flag present)
    seen := if flag = .seen then present else row.seen
    flagged := if flag = .flagged then present else row.flagged
    flagsDirty := true }

def setFlag : FlagRow Other :=
  row.setFlags ((parseFlags row.flags).edit flag.spelled present) .locally

end FlagRow

namespace FlagTable

variable {Other : Type}

/-- None is its `NotFound`. -/
def setFlags (table : FlagTable Other) (id : MessageId) (flags : SpelledFlags) (source : FlagSource) :
    Option (FlagTable Other) :=
  (table.get id.get).map (fun _ => table.updateAt id.get (FlagRow.setFlags flags source) (fun _ => rfl))

def setFlag (table : FlagTable Other) (rows : List (FlagRow Other)) (flag : ColumnFlag) (present : Bool) :
    Option (FlagTable Other) :=
  rows.foldlM
    (fun table row => setFlags table row.id ((parseFlags row.flags).edit flag.spelled present) .locally) table

/-- One `UPDATE` over the rows a predicate names. -/
def setFlagOnSet (table : FlagTable Other) (named : FlagRow Other -> Bool) (flag : ColumnFlag) (present : Bool) :
    FlagTable Other :=
  table.update (fun row => if named row then row.setFlagOnSet flag present else row) (fun row => by
    split
    next => rfl
    next => rfl)

end FlagTable

namespace FlagRow

variable {Other : Type}

variable (text : List Char) (columns : SpelledFlag -> Bool) (flags : SpelledFlags) (flag : ColumnFlag)
    (word : List Char) (present : Bool) (row : FlagRow Other)

def unmarked : List (List Char) :=
  system.foldl (fun words flag => Words.thinned flag.asStr words) (Words.words text)

def keywords : List (List Char) :=
  (flags.persistable.flags.filter (fun flag => !columned flag)).map SpelledFlag.asStr

structure Faithful (flag : ColumnFlag) (row : FlagRow Other) : Prop where
  columns : ∀ other ∈ system, other ≠ flag.spelled -> row.column other = (parseFlags row.flags).contains other
  others : Words.inner (unmarked row.flags) = keywords (parseFlags row.flags)

instance (flag : ColumnFlag) (row : FlagRow Other) : Decidable (Faithful flag row) :=
  decidable_of_iff
    ((∀ other ∈ system, other ≠ flag.spelled -> row.column other = (parseFlags row.flags).contains other) ∧
      Words.inner (unmarked row.flags) = keywords (parseFlags row.flags))
    ⟨fun both => ⟨both.1, both.2⟩, fun faithful => ⟨faithful.columns, faithful.others⟩⟩

theorem system_spelled : ∀ flag ∈ system, flag.asStr ≠ [] ∧ ' ' ∉ flag.asStr := by decide

theorem thinned_spelled (flags : List SpelledFlag) (known : flags ⊆ system) (words : List (List Char))
    (apart : ∀ word ∈ words, ' ' ∉ word) :
    flags.foldl (fun text flag => Words.replace (' ' :: flag.asStr ++ [' ']) [' '] text) (Words.spaced words) =
        Words.spaced (flags.foldl (fun words flag => Words.thinned flag.asStr words) words) ∧
      ∀ word ∈ flags.foldl (fun words flag => Words.thinned flag.asStr words) words, ' ' ∉ word := by
  induction flags generalizing words with
  | nil => exact ⟨rfl, apart⟩
  | cons flag flags ih =>
    have here := Words.replace_spaced flag.asStr words (system_spelled flag (known List.mem_cons_self)).2 apart
    rw [List.foldl_cons, List.foldl_cons, here]
    apply ih (fun _ inside => known (List.mem_cons_of_mem _ inside))
    exact fun word inside => apart word ((Words.thinned_sublist _ _).subset inside)

theorem rest_spaced : rest text = Words.spaced (unmarked text) := by
  unfold rest unmarked
  rw [Words.spaced_words]
  exact (thinned_spelled system (List.Subset.refl _) _ (Words.words_apart text)).1

theorem unmarked_apart (inside : word ∈ unmarked text) : ' ' ∉ word :=
  (thinned_spelled system (List.Subset.refl _) _ (Words.words_apart text)).2 word inside

def marks : List (List Char) := (system.filter columns).map SpelledFlag.asStr

theorem marks_spelled (inside : word ∈ marks columns) :
    word ≠ [] ∧ ' ' ∉ word := by
  obtain ⟨flag, among, rfl⟩ := List.mem_map.mp inside
  exact system_spelled flag (List.mem_filter.mp among).1

theorem flagsExpression_eq :
    row.flagsExpression columns = Words.join (marks columns ++ Words.inner (unmarked row.flags)) := by
  have head : system.flatMap (fun flag => if columns flag then flag.asStr ++ [' '] else []) = Words.trailed (marks columns) := by
    unfold marks Words.trailed
    induction system with
    | nil => rfl
    | cons flag flags ih =>
      rw [List.flatMap_cons, ih, List.filter_cons]
      split <;> simp
  have apart : ∀ word ∈ marks columns ++ (unmarked row.flags).dropWhile List.isEmpty, ' ' ∉ word := by
    intro word inside
    rcases List.mem_append.mp inside with mark | left
    next => exact (marks_spelled columns word mark).2
    next => exact unmarked_apart row.flags word ((List.dropWhile_sublist _).subset left)
  change Words.trim (system.flatMap _ ++ Words.ltrim (rest row.flags)) = _
  rw [head, rest_spaced, Words.ltrim_spaced, Words.ltrim_trailed _ (unmarked_apart row.flags), ← Words.trailed_append,
    Words.trim_trailed _ apart, Words.inner_append _ _ (fun word inside => (marks_spelled columns word inside).1)]

theorem flagText_eq : flagText flags.persistable = Words.join (marks flags.contains ++ keywords flags) := by
  have columns : system.filter (fun flag => flag ∈ flags.persistable.flags) = system.filter flags.contains := by
    apply List.filter_congr
    intro flag inside
    have known := (mem_system flag).mp inside
    rw [← persistable_contains flags flag known]
    exact Bool.eq_iff_iff.mpr (by rw [decide_eq_true_iff, contains_named _ _ (by omega)])
  unfold flagText Words.join marks keywords
  rw [← List.map_append, ← columns, ← flags_apart]

theorem keywords_edit :
    keywords (flags.edit flag.spelled present) = keywords flags := by
  have known : flag.spelled.rank < 5 := by cases flag <;> decide
  have others := edit_others flags flag.spelled present known
  have swapped : ∀ set : SpelledFlags, set.persistable.flags.filter (fun flag => !columned flag) =
      (set.flags.filter (fun flag => !columned flag)).filter (fun flag => flag ≠ .recent) :=
    fun set => List.filter_comm _ _ _
  unfold keywords
  rw [swapped, swapped, others]

theorem keywords_spelled (inside : word ∈ keywords (parseFlags text)) : word ≠ [] ∧ ' ' ∉ word := by
  obtain ⟨flag, among, rfl⟩ := List.mem_map.mp inside
  exact parseFlags_filled text flag (List.mem_filter.mp (List.mem_filter.mp among).1).1

theorem words_equal (same : Words.join (marks columns ++ Words.inner (unmarked row.flags)) =
      Words.join (marks columns ++ keywords (parseFlags row.flags))) :
    Words.inner (unmarked row.flags) = keywords (parseFlags row.flags) := by
  apply (List.append_right_inj (marks columns)).mp
  apply Words.join_injective _ _ ?_ ?_ ?_ ?_ same
  next =>
    intro word inside
    rcases List.mem_append.mp inside with mark | left
    next => exact (marks_spelled columns word mark).2
    next => exact unmarked_apart row.flags word (Words.inner_subset _ word left)
  next =>
    intro word inside
    rcases List.mem_append.mp inside with mark | left
    next => exact (marks_spelled columns word mark).2
    next => exact (keywords_spelled row.flags word left).2
  next =>
    rw [← Words.inner_append _ _ (fun word inside => (marks_spelled columns word inside).1)]
    exact Words.inner_ne _
  next =>
    intro single
    have blank : [] ∈ marks columns ++ keywords (parseFlags row.flags) := by simp [single]
    rcases List.mem_append.mp blank with mark | left
    next => exact (marks_spelled columns [] mark).1 rfl
    next => exact (keywords_spelled row.flags [] left).1 rfl

theorem ext_columns (first second : FlagRow Other) (id : first.id = second.id) (flags : first.flags = second.flags)
    (columns : ∀ flag ∈ system, first.column flag = second.column flag) (dirty : first.flagsDirty = second.flagsDirty)
    (other : first.other = second.other) : first = second := by
  have seen := columns .seen (by decide)
  have answered := columns .answered (by decide)
  have flagged := columns .flagged (by decide)
  have deleted := columns .deleted (by decide)
  have draft := columns .draft (by decide)
  cases first
  cases second
  simp_all [column]

theorem setFlagOnSet_column (other : SpelledFlag) :
    (row.setFlagOnSet flag present).column other = row.spliced flag present other := by
  cases flag <;> cases other <;> rfl

theorem setFlag_column (other : SpelledFlag) (known : other ∈ system) :
    (row.setFlag flag present).column other = ((parseFlags row.flags).edit flag.spelled present).contains other := by
  have low := (mem_system other).mp known
  rw [← persistable_contains _ other low]
  cases other <;> first | rfl | exact absurd low (by simp [SpelledFlag.rank])

theorem setFlagOnSet_eq_iff :
    row.setFlag flag present = row.setFlagOnSet flag present <-> Faithful flag row := by
  let edited := (parseFlags row.flags).edit flag.spelled present
  have own : flag.spelled.rank < 9 := by cases flag <;> decide
  have text : (row.setFlag flag present).flags = Words.join (marks edited.contains ++ keywords (parseFlags row.flags)) :=
    (flagText_eq edited).trans (by rw [keywords_edit])
  have bulk : (row.setFlagOnSet flag present).flags =
      Words.join (marks (row.spliced flag present) ++ Words.inner (unmarked row.flags)) := flagsExpression_eq _ row
  have contains : ∀ other ∈ system, edited.contains other =
      if other = flag.spelled then present else (parseFlags row.flags).contains other := by
    intro other known
    have low := (mem_system other).mp known
    exact edit_contains _ flag.spelled other present own (by omega)
  have marked : (∀ other ∈ system, edited.contains other = row.spliced flag present other) ->
      marks edited.contains = marks (row.spliced flag present) :=
    fun columns => congrArg (List.map _) (List.filter_congr columns)
  constructor
  next =>
    intro same
    have columns : ∀ other ∈ system, edited.contains other = row.spliced flag present other := by
      intro other known
      rw [← setFlag_column flag present row other known, same, setFlagOnSet_column]
    constructor
    next =>
      intro other known apart
      have shown := columns other known
      rw [contains other known, if_neg apart, spliced, if_neg apart] at shown
      exact shown.symm
    next =>
      have texts := congrArg FlagRow.flags same
      rw [text, bulk, marked columns] at texts
      exact words_equal _ row texts.symm
  next =>
    intro faithful
    have columns : ∀ other ∈ system, edited.contains other = row.spliced flag present other := by
      intro other known
      rw [contains other known, spliced]
      split
      next => rfl
      next apart => exact (faithful.columns other known apart).symm
    apply ext_columns
    next => rfl
    next => rw [text, bulk, marked columns, faithful.others]
    next =>
      intro other known
      rw [setFlag_column flag present row other known, columns other known, setFlagOnSet_column]
    next => rfl
    next => rfl

end FlagRow

namespace FlagRow

variable {Other : Type}

structure Stores (flags : SpelledFlags) (row : FlagRow Other) : Prop where
  text : row.flags = flagText flags.persistable
  columns : ∀ flag ∈ system, row.column flag = flags.contains flag

theorem setFlags_stores (flags : SpelledFlags) (source : FlagSource) (row : FlagRow Other) :
    Stores flags (row.setFlags flags source) := by
  refine ⟨rfl, ?_⟩
  intro flag inside
  have low := (mem_system flag).mp inside
  rw [← persistable_contains flags flag low]
  cases flag <;> first | rfl | exact absurd low (by simp [SpelledFlag.rank])

end FlagRow

namespace FlagTable

variable {Other : Type}

theorem setFlag_id (flag : ColumnFlag) (present : Bool) (ids : List MessageId) (row : FlagRow Other) :
    (if row.id ∈ ids then row.setFlag flag present else row).id.get = row.id.get := by
  split
  next => rfl
  next => rfl

variable (table : FlagTable Other)

theorem setFlag_run (rows : List (FlagRow Other)) (flag : ColumnFlag) (present : Bool)
    (within : rows ⊆ table.rows) (distinct : (rows.map FlagRow.id).Nodup) :
    setFlag table rows flag present = some (table.update
      (fun row => if row.id ∈ rows.map FlagRow.id then row.setFlag flag present else row)
      (setFlag_id flag present (rows.map FlagRow.id))) := by
  induction rows generalizing table with
  | nil =>
    refine congrArg some (table.update_self _ _ ?_).symm
    intro row _
    simp
  | cons first rows ih =>
    have there := within List.mem_cons_self
    have found : table.get first.id.get = some first := (table.get_eq_some _ _).mpr ⟨there, rfl⟩
    let change : FlagRow Other -> FlagRow Other :=
      FlagRow.setFlags ((parseFlags first.flags).edit flag.spelled present) .locally
    have apart : first.id ∉ rows.map FlagRow.id := (List.nodup_cons.mp distinct).1
    have own : ∀ row ∈ table.rows, row.id = first.id -> row = first :=
      fun row inside same => table.key_injective row first inside there (congrArg MessageId.get same)
    have remaining : rows ⊆ (table.updateAt first.id.get change (fun _ => rfl)).rows := by
      intro row inside
      refine List.mem_map.mpr ⟨row, within (List.mem_cons_of_mem _ inside), if_neg ?_⟩
      intro same
      have equal : row.id = first.id := congrArg MessageId.mk same
      exact apart (equal ▸ List.mem_map_of_mem inside)
    have further := ih (table.updateAt first.id.get change (fun _ => rfl)) remaining (List.nodup_cons.mp distinct).2
    unfold setFlag at further ⊢
    rw [List.foldlM_cons, setFlags, found]
    refine further.trans (congrArg some ?_)
    unfold Table.updateAt
    rw [Table.update_update]
    apply (Table.update_eq_iff table _ _ _ _).mpr
    intro row inside
    by_cases same : row.id = first.id
    next =>
      cases own row inside same
      have left : (change first).id ∉ rows.map FlagRow.id := apart
      simp only [if_true, List.map_cons, List.mem_cons, true_or]
      exact if_neg left
    next =>
      have other : ¬ row.id.get = first.id.get := fun equal => same (congrArg MessageId.mk equal)
      simp only [if_neg other, List.map_cons, List.mem_cons, same, false_or]

theorem setFlag_named (flag : ColumnFlag) (present : Bool) (named : FlagRow Other -> Bool) (row : FlagRow Other) :
    (if named row then row.setFlag flag present else row).id.get = row.id.get := by
  split
  next => rfl
  next => rfl

theorem setFlag_filter (named : FlagRow Other -> Bool) (flag : ColumnFlag) (present : Bool) :
    setFlag table (table.rows.filter named) flag present =
      some (table.update (fun row => if named row then row.setFlag flag present else row) (setFlag_named flag present named)) := by
  have distinct : ((table.rows.filter named).map FlagRow.id).Nodup := by
    have keys : ((table.rows.map FlagRow.id).map MessageId.get).Nodup := by
      rw [List.map_map]
      exact table.keys_nodup
    exact keys.of_map.sublist (List.Sublist.map _ List.filter_sublist)
  have picked : ∀ row ∈ table.rows, row.id ∈ (table.rows.filter named).map FlagRow.id <-> named row = true := by
    intro row inside
    rw [List.mem_map]
    constructor
    next =>
      rintro ⟨other, among, same⟩
      have both := List.mem_filter.mp among
      cases table.key_injective other row both.1 inside (congrArg MessageId.get same)
      exact both.2
    next => exact fun chosen => ⟨row, List.mem_filter.mpr ⟨inside, chosen⟩, rfl⟩
  rw [setFlag_run table _ flag present (List.filter_subset_self _) distinct, Option.some_inj, Table.update_eq_iff]
  intro row inside
  exact if_congr (picked row inside) rfl rfl

/-- A flag set or cleared in one statement leaves what doing it row by row leaves where each row named has in its other columns
what its text reads as, and a text that is spelled as the flags read from it are; and there only. -/
theorem setFlagOnSet_exact (named : FlagRow Other -> Bool) (flag : ColumnFlag) (present : Bool) :
    setFlag table (table.rows.filter named) flag present = some (setFlagOnSet table named flag present) <->
      ∀ row ∈ table.rows, named row = true -> FlagRow.Faithful flag row := by
  rw [setFlag_filter, Option.some_inj, setFlagOnSet, Table.update_eq_iff]
  apply forall₂_congr
  intro row _
  cases chosen : named row with
  | false => simp
  | true => simpa using FlagRow.setFlagOnSet_eq_iff flag present row

def labelled : FlagTable Unit :=
  (Table.empty _).insert (fun id => FlagRow.setFlags (collect [.keyword ['T', 'o', ' ', 'D', 'o']]) .locally
    { id := ⟨id⟩, flags := [], seen := false, answered := false, flagged := false, deleted := false, draft := false,
      flagsDirty := false, other := () }) (fun _ => rfl)

theorem labelled_stored : ∀ row ∈ labelled.rows, ∃ flags, FlagRow.Stores flags row := by
  intro row inside
  cases List.mem_singleton.mp inside
  exact ⟨_, FlagRow.setFlags_stores _ _ _⟩

/-- Marked read in bulk, its label keeps its spelling; row by row it becomes two keywords. -/
theorem labelled_differs :
    ¬ ∀ (table : FlagTable Unit) (named : FlagRow Unit -> Bool) (flag : ColumnFlag) (present : Bool),
      (∀ row ∈ table.rows, ∃ flags, FlagRow.Stores flags row) ->
      setFlag table (table.rows.filter named) flag present = some (setFlagOnSet table named flag present) := by
  intro always
  have same := always labelled (fun _ => true) .seen true labelled_stored
  have texts := congrArg (Option.map (fun table => table.rows.map FlagRow.flags)) same
  exact absurd texts (by decide)

end FlagTable

end Postio

import Mathlib.Data.Char
import Mathlib.Data.List.Lex
import Mathlib.Data.List.Sort
import Postio.Lib.Separated

set_option autoImplicit false

namespace Postio.Maildir

/-- A path on disk. No component of a path holds the separator. -/
structure Directory where
  components : List (List Char)
  apart : ∀ component ∈ components, '/' ∉ component
  deriving DecidableEq

def pieces (text : List Char) : List (List Char) :=
  (text.splitOn '/').filter (fun piece => piece ≠ [] ∧ piece ≠ ['.'])

def Directory.join (directory : Directory) (text : List Char) : Directory where
  components := directory.components ++ pieces text
  apart := by
    intro component inside
    rcases List.mem_append.mp inside with here | added
    next => exact directory.apart component here
    next => exact Separated.split_apart '/' text component (List.mem_of_mem_filter added)

structure LocalStore where
  root : Directory
  maildirpp : Bool

/-- One folder of a maildir, as it is named to a caller. -/
structure Folder where
  path : List Char
  directory : Directory
  deriving DecidableEq

inductive CreateError where
  | rejected (command reason : String)
  deriving DecidableEq

namespace LocalStore

def inbox : List Char := "INBOX".toList

variable (store : LocalStore) (text : List Char) (relative : List (List Char)) (path : List Char)
    (listed : List Directory) (other : List (List Char))

def lower : List Char := text.map Char.toLower

/-- `eq_ignore_ascii_case("inbox")` -/
def isInbox (name : List Char) : Bool := lower name = lower inbox

def refuse (reason : String) : CreateError := .rejected "CREATE" reason

def mainSeparator : Char := '/'

/-- Maildir++ spells nesting with dots inside one flat, dot-prefixed name; the other layout nests directories. -/
def directoryFor : Except CreateError Directory :=
  let parts := (path.splitOn '/').filter (fun part => part ≠ [])
  if parts.isEmpty then .error (refuse "a folder with no name cannot be made")
  else if parts.any (fun part => part = ['.'] || part = ['.', '.'] || part.contains mainSeparator) then
    .error (refuse "a folder name that walks out of the maildir will not be made")
  else if store.maildirpp then .ok (store.root.join ('.' :: Separated.join '.' parts))
  else .ok (parts.foldl Directory.join store.root)

def create : Except CreateError Folder :=
  (store.directoryFor path).map (fun directory => { path, directory })

def dropDot : List Char -> List Char
  | '.' :: rest => rest
  | part => part

def levels : List (List Char) :=
  relative.flatMap (fun part => (dropDot part).splitOn '.')

def nameOfRelative : List Char :=
  let parts := levels relative
  if parts.isEmpty || parts.all List.isEmpty then inbox
  else match parts with
    | [only] => if isInbox only then inbox else only
    | _ => Separated.join '/' parts

def relativeTo (root directory : Directory) : Option (List (List Char)) :=
  if root.components.isPrefixOf directory.components then
    some (directory.components.drop root.components.length)
  else none

def nameOf (directory : Directory) : Option (List Char) :=
  (relativeTo store.root directory).map nameOfRelative

def comesFirst (left right : Folder) : Bool :=
  left.path = inbox || (right.path ≠ inbox && left.path ≤ right.path)

/-- `dedup_by` on the path: of neighbours of one name the first is kept. -/
def dedupFrom (kept : Folder) : List Folder -> List Folder
  | [] => [kept]
  | next :: rest => if next.path = kept.path then dedupFrom kept rest else kept :: dedupFrom next rest

def dedup : List Folder -> List Folder
  | [] => []
  | first :: rest => dedupFrom first rest

def folders : List Folder :=
  dedup ((listed.filterMap (fun directory =>
    (store.nameOf directory).map (fun path => { path, directory }))).mergeSort comesFirst)

/-- What names promise of the directories on disk: one name each, and each one shown. -/
structure Shown (store : LocalStore) (listed : List Directory) : Prop where
  distinct : ∀ directory ∈ listed, ∀ other ∈ listed, store.nameOf directory = store.nameOf other ->
    store.nameOf directory ≠ none -> directory = other
  kept : ∀ directory ∈ listed, store.nameOf directory ≠ none ->
    ∃ folder ∈ store.folders listed, folder.directory = directory

def Plain : Prop :=
  '.' ∉ path ∧ [] ∉ path.splitOn '/' ∧ (isInbox path -> path = inbox)

def undotted : List Char := Separated.join '/' (relative.map dropDot)

def isSeparator (char : Char) : Bool := char = '.' || char = '/'

/-- Nothing but separators, or `inbox` in any case. -/
def InboxLike : Prop :=
  (∀ char ∈ undotted relative, isSeparator char) ∨ isInbox (undotted relative)

def Respelled : Prop :=
  List.Forall₂ (fun char another => char = another ∨ isSeparator char ∧ isSeparator another)
    (undotted relative) (undotted other)

def Unconfused : Prop :=
  ∀ directory ∈ listed, ∀ other ∈ listed, ∀ relative further,
    directory.components = store.root.components ++ relative -> other.components = store.root.components ++ further ->
      InboxLike relative ∧ InboxLike further ∨ Respelled relative further -> directory = other

theorem relativeTo_some (root directory : Directory) (relative : List (List Char)) :
    relativeTo root directory = some relative ↔ directory.components = root.components ++ relative := by
  unfold relativeTo
  split
  next inside =>
    obtain ⟨rest, whole⟩ := List.isPrefixOf_iff_prefix.mp inside
    rw [← whole, List.drop_left, Option.some.injEq, List.append_cancel_left_eq]
  next outside =>
    constructor
    next => rintro ⟨⟩
    next =>
      intro whole
      exact absurd (List.isPrefixOf_iff_prefix.mpr ⟨relative, whole.symm⟩) outside

theorem join_levels :
    Separated.join '/' (levels relative) = (undotted relative).map (Separated.respell '.' '/') := by
  induction relative with
  | nil => rfl
  | cons part relative ih =>
    have first := Separated.join_split_other '.' '/' (dropDot part)
    cases relative with
    | nil => simpa [levels, undotted] using first
    | cons next rest =>
      have some_first : (dropDot part).splitOn '.' ≠ [] := List.splitOn_ne_nil '.' _
      have some_rest : levels (next :: rest) ≠ [] := by
        simp [levels, List.splitOn_ne_nil]
      have cut : levels (part :: next :: rest) = (dropDot part).splitOn '.' ++ levels (next :: rest) := rfl
      rw [cut, Separated.join_append '/' _ _ some_first some_rest, first, ih]
      have shape : undotted (part :: next :: rest) = dropDot part ++ '/' :: undotted (next :: rest) :=
        Separated.join_cons '/' (dropDot part) ((next :: rest).map dropDot) (by simp)
      rw [shape, List.map_append, List.map_cons]
      rfl

theorem dropDot_subset (part : List Char) : ∀ char ∈ dropDot part, char ∈ part := by
  intro char inside
  unfold dropDot at inside
  split at inside
  next => exact List.mem_cons_of_mem _ inside
  next => exact inside

theorem split_subset (part : List Char) (separator char : Char) (among : part ∈ text.splitOn separator)
    (inside : char ∈ part) : char ∈ text := by
  rw [← Separated.join_split separator text]
  exact Separated.mem_join_of_mem separator _ part char among inside

theorem levels_apart (apart : ∀ component ∈ relative, '/' ∉ component) (level : List Char)
    (inside : level ∈ levels relative) : '.' ∉ level ∧ '/' ∉ level := by
  obtain ⟨part, among, here⟩ := List.mem_flatMap.mp inside
  refine ⟨Separated.split_apart '.' _ level here, ?_⟩
  intro slash
  exact apart part among (dropDot_subset part '/' (split_subset _ level '.' '/' here slash))

theorem toLower_separator (char : Char) : isSeparator char.toLower = isSeparator char := by
  by_cases upper : char.val ≥ 'A'.val ∧ char.val ≤ 'Z'.val
  case pos =>
    have letter : isSeparator char = false := by
      unfold isSeparator
      rw [Bool.or_eq_false_iff, decide_eq_false_iff_not, decide_eq_false_iff_not]
      constructor <;> rintro rfl <;> exact absurd upper (by decide)
    rw [letter]
    have lowered : char.toLower.val = char.val + 32 := by
      unfold Char.toLower
      rw [dif_pos upper]
      rfl
    unfold isSeparator
    rw [Bool.or_eq_false_iff, decide_eq_false_iff_not, decide_eq_false_iff_not]
    simp only [UInt32.le_iff_toNat_le, ge_iff_le] at upper
    constructor <;> intro same <;> rw [same] at lowered <;> have value := congrArg UInt32.toNat lowered <;>
      simp at value upper <;> omega
  case neg =>
    unfold Char.toLower
    rw [dif_neg upper]

theorem isInbox_solid (reads : isInbox text) : ∀ char ∈ text, isSeparator char = false := by
  intro char inside
  have same : lower text = lower inbox := of_decide_eq_true reads
  have lowered : char.toLower ∈ lower inbox := same ▸ List.mem_map_of_mem inside
  rw [← toLower_separator]
  have letters : ∀ letter ∈ lower inbox, isSeparator letter = false := by
    simp [lower, inbox, isSeparator]
  exact letters char.toLower lowered

theorem solid_levels (solid : ∀ char ∈ text, isSeparator char = false) : '.' ∉ text ∧ '/' ∉ text := by
  constructor <;> intro inside <;> exact absurd (solid _ inside) (by decide)

theorem all_separators (apart : ∀ component ∈ relative, '/' ∉ component) :
    (levels relative).all List.isEmpty = true ↔ ∀ char ∈ undotted relative, isSeparator char := by
  have joined := join_levels relative
  constructor
  next =>
    intro blank char inside
    have respelled : Separated.respell '.' '/' char ∈ Separated.join '/' (levels relative) := by
      rw [joined]
      exact List.mem_map_of_mem inside
    rcases Separated.mem_join '/' _ _ respelled with slash | ⟨level, among, deeper⟩
    next =>
      unfold Separated.respell at slash
      split at slash
      next dot => simp [isSeparator, dot]
      next => simp [isSeparator, slash]
    next =>
      have none := List.isEmpty_iff.mp (List.all_eq_true.mp blank level among)
      simp [none] at deeper
  next =>
    intro separators
    apply List.all_eq_true.mpr
    intro level among
    cases level with
    | nil => rfl
    | cons char rest =>
      have inside : char ∈ (undotted relative).map (Separated.respell '.' '/') :=
        joined ▸ Separated.mem_join_of_mem '/' _ _ char among List.mem_cons_self
      obtain ⟨before, here, same⟩ := List.mem_map.mp inside
      have separates := separators before here
      have slash : char = '/' := by
        rw [← same]
        unfold Separated.respell
        split
        next => rfl
        next notDot => simpa [isSeparator, notDot] using separates
      exact absurd (slash ▸ List.mem_cons_self) (levels_apart relative apart (char :: rest) among).2

theorem levels_single (apart : ∀ component ∈ relative, '/' ∉ component) (only : List Char)
    (single : levels relative = [only]) : only = undotted relative := by
  have joined := join_levels relative
  rw [single, Separated.join_singleton] at joined
  have solid := levels_apart relative apart only (by simp [single])
  rw [joined]
  apply Separated.map_respell
  intro dot
  have slash : '/' ∈ only := by
    rw [joined]
    exact List.mem_map.mpr ⟨'.', dot, rfl⟩
  exact solid.2 slash

theorem nameOfRelative_eq (apart : ∀ component ∈ relative, '/' ∉ component) :
    (InboxLike relative -> nameOfRelative relative = inbox) ∧
      (¬ InboxLike relative -> nameOfRelative relative = (undotted relative).map (Separated.respell '.' '/')) := by
  have blank := all_separators relative apart
  constructor
  next =>
    intro like
    unfold nameOfRelative
    rcases like with separators | reads
    next => rw [if_pos (by rw [blank.mpr separators, Bool.or_true])]
    next =>
      have solid := solid_levels _ (isInbox_solid _ reads)
      have joined := join_levels relative
      rw [Separated.map_respell '.' '/' _ solid.1] at joined
      cases some_level : levels relative with
      | nil => rfl
      | cons first rest =>
        have single : levels relative = [undotted relative] := by
          rw [← Separated.split_join '/' (levels relative) (by simp [some_level])
            (fun level among => (levels_apart relative apart level among).2), joined]
          exact List.splitOn_eq_singleton solid.2
        simp only [← some_level, single, reads, if_true, ite_self]
  next =>
    intro other
    have notBlank : ((levels relative).isEmpty || (levels relative).all List.isEmpty) = false := by
      rw [Bool.or_eq_false_iff]
      constructor
      next =>
        cases some_level : levels relative with
        | nil => exact absurd (.inl (blank.mp (by simp [some_level]))) other
        | cons => rfl
      next => exact Bool.eq_false_iff.mpr (fun all => other (.inl (blank.mp all)))
    unfold nameOfRelative
    simp only [notBlank, Bool.false_eq_true, if_false]
    split
    next only single =>
      have whole := levels_single relative apart only single
      rw [if_neg (fun reads => other (.inr (whole ▸ reads)))]
      have joined := join_levels relative
      rwa [single, Separated.join_singleton] at joined
    next => exact join_levels relative

theorem respelled_iff :
    Respelled relative other ↔
      (undotted relative).map (Separated.respell '.' '/') = (undotted other).map (Separated.respell '.' '/') := by
  have chars : ∀ char another : Char, (char = another ∨ isSeparator char ∧ isSeparator another) ↔
      Separated.respell '.' '/' char = Separated.respell '.' '/' another := by
    intro char another
    by_cases dot : char = '.' <;> by_cases also : another = '.' <;>
      simp_all [Separated.respell, isSeparator, eq_comm]
  have equal : ∀ first second : List Char, first = second ↔ List.Forall₂ (fun char another => char = another) first second :=
    fun first second => by rw [List.forall₂_eq_eq_eq]
  unfold Respelled
  simp only [chars]
  rw [equal, List.forall₂_map_left_iff, List.forall₂_map_right_iff]

theorem nameOfRelative_same (apart : ∀ component ∈ relative, '/' ∉ component)
    (also : ∀ component ∈ other, '/' ∉ component) :
    nameOfRelative relative = nameOfRelative other ↔
      InboxLike relative ∧ InboxLike other ∨ Respelled relative other := by
  -- A path spelled like the inbox's name is the inbox.
  have capitals : ∀ relative, (undotted relative).map (Separated.respell '.' '/') = inbox → InboxLike relative := by
    intro relative same
    right
    have solid : '.' ∉ undotted relative := by
      intro dot
      have slash : '/' ∈ inbox := by
        rw [← same]
        exact List.mem_map.mpr ⟨'.', dot, rfl⟩
      simp [inbox] at slash
    rw [Separated.map_respell '.' '/' _ solid] at same
    simp [isInbox, same]
  have likeAlike : ∀ relative other, (∀ component ∈ relative, '/' ∉ component) → (∀ component ∈ other, '/' ∉ component) →
      (undotted relative).map (Separated.respell '.' '/') = (undotted other).map (Separated.respell '.' '/') →
      InboxLike relative → InboxLike other := by
    intro relative other apart also same like
    rcases like with separators | reads
    next =>
      left
      intro char inside
      have respelled : Separated.respell '.' '/' char ∈ (undotted relative).map (Separated.respell '.' '/') :=
        same ▸ List.mem_map_of_mem inside
      obtain ⟨before, here, spelled⟩ := List.mem_map.mp respelled
      have separates := separators before here
      unfold Separated.respell at spelled
      simp only [isSeparator, Bool.or_eq_true, decide_eq_true_eq] at separates ⊢
      grind
    next =>
      have solid := (solid_levels _ (isInbox_solid _ reads)).1
      rw [Separated.map_respell '.' '/' _ solid] at same
      right
      have slashless : '.' ∉ undotted other := by
        intro dot
        have slash : '/' ∈ undotted relative := by
          rw [same]
          exact List.mem_map.mpr ⟨'.', dot, rfl⟩
        exact (solid_levels _ (isInbox_solid _ reads)).2 slash
      rw [Separated.map_respell '.' '/' _ slashless] at same
      rwa [← same]
  rw [respelled_iff]
  by_cases like : InboxLike relative <;> by_cases beside : InboxLike other
  next =>
    rw [(nameOfRelative_eq relative apart).1 like, (nameOfRelative_eq other also).1 beside]
    exact iff_of_true rfl (.inl ⟨like, beside⟩)
  next =>
    rw [(nameOfRelative_eq relative apart).1 like, (nameOfRelative_eq other also).2 beside]
    refine iff_of_false (fun same => beside (capitals other same.symm)) ?_
    rintro (⟨-, both⟩ | same)
    next => exact beside both
    next => exact beside (likeAlike relative other apart also same like)
  next =>
    rw [(nameOfRelative_eq relative apart).2 like, (nameOfRelative_eq other also).1 beside]
    refine iff_of_false (fun same => like (capitals relative same)) ?_
    rintro (⟨both, -⟩ | same)
    next => exact like both
    next => exact like (likeAlike other relative also apart same.symm beside)
  next =>
    rw [(nameOfRelative_eq relative apart).2 like, (nameOfRelative_eq other also).2 beside]
    simp [like]

theorem dedupFrom_path (kept : Folder) (rest : List Folder) (folder : Folder)
    (inside : folder ∈ kept :: rest) : ∃ shown ∈ dedupFrom kept rest, shown.path = folder.path := by
  induction rest generalizing kept folder with
  | nil => exact ⟨kept, List.mem_singleton.mpr rfl, by rw [List.mem_singleton.mp inside]⟩
  | cons next rest ih =>
    unfold dedupFrom
    split
    next same =>
      rcases List.mem_cons.mp inside with rfl | later
      next => exact ih folder folder List.mem_cons_self
      next =>
        rcases List.mem_cons.mp later with rfl | further
        next =>
          obtain ⟨shown, among, called⟩ := ih kept kept List.mem_cons_self
          exact ⟨shown, among, called.trans same.symm⟩
        next => exact ih kept folder (List.mem_cons_of_mem _ further)
    next =>
      rcases List.mem_cons.mp inside with rfl | later
      next => exact ⟨folder, List.mem_cons_self, rfl⟩
      next =>
        obtain ⟨shown, among, called⟩ := ih next folder later
        exact ⟨shown, List.mem_cons_of_mem _ among, called⟩

theorem dedupFrom_subset (kept : Folder) (rest : List Folder) :
    dedupFrom kept rest ⊆ kept :: rest := by
  induction rest generalizing kept with
  | nil => exact fun _ inside => inside
  | cons next rest ih =>
    unfold dedupFrom
    intro folder inside
    split at inside
    next =>
      rcases List.mem_cons.mp (ih kept inside) with rfl | later
      next => exact List.mem_cons_self
      next => exact List.mem_cons_of_mem _ (List.mem_cons_of_mem _ later)
    next =>
      rcases List.mem_cons.mp inside with rfl | later
      next => exact List.mem_cons_self
      next => exact List.mem_cons_of_mem _ (ih next later)

theorem folders_path (directory : Directory) (path : List Char)
    (inside : directory ∈ listed) (called : store.nameOf directory = some path) :
    ∃ folder ∈ store.folders listed, folder.path = path ∧ folder.directory ∈ listed ∧
      store.nameOf folder.directory = some path := by
  have entries : ∀ folder : Folder, folder ∈ (listed.filterMap (fun directory =>
      (store.nameOf directory).map (fun path => ({ path, directory } : Folder)))).mergeSort comesFirst ↔
        folder.directory ∈ listed ∧ store.nameOf folder.directory = some folder.path := by
    rintro ⟨path, directory⟩
    rw [List.mem_mergeSort, List.mem_filterMap]
    constructor
    next =>
      rintro ⟨source, among, named⟩
      obtain ⟨spelled, read, same⟩ := Option.map_eq_some_iff.mp named
      cases same
      exact ⟨among, read⟩
    next =>
      rintro ⟨among, read⟩
      exact ⟨directory, among, by rw [read]; rfl⟩
  unfold folders dedup
  have here := (entries { path, directory }).mpr ⟨inside, called⟩
  cases sorted : (listed.filterMap (fun directory =>
      (store.nameOf directory).map (fun path => ({ path, directory } : Folder)))).mergeSort comesFirst with
  | nil => simp [sorted] at here
  | cons first rest =>
    rw [sorted] at here entries
    obtain ⟨shown, among, same⟩ := dedupFrom_path first rest _ here
    have source := (entries shown).mp (dedupFrom_subset first rest among)
    exact ⟨shown, among, same, source.1, source.2.trans (congrArg some same)⟩

theorem shown_iff : Shown store listed ↔ Unconfused store listed := by
  have relativeApart : ∀ directory : Directory, ∀ relative, directory.components = store.root.components ++ relative →
      ∀ component ∈ relative, '/' ∉ component := by
    intro directory relative whole component inside
    exact directory.apart component (whole ▸ List.mem_append_right _ inside)
  constructor
  next =>
    intro shown directory inside other among relative further whole also confused
    have named := (relativeTo_some store.root directory relative).mpr whole
    have beside := (relativeTo_some store.root other further).mpr also
    apply shown.distinct directory inside other among
    next =>
      unfold nameOf
      rw [named, beside]
      exact congrArg some ((nameOfRelative_same relative further (relativeApart directory relative whole)
        (relativeApart other further also)).mpr confused)
    next => simp [nameOf, named]
  next =>
    intro unconfused
    have distinct : ∀ directory ∈ listed, ∀ other ∈ listed, store.nameOf directory = store.nameOf other →
        store.nameOf directory ≠ none → directory = other := by
      intro directory inside other among same some_name
      obtain ⟨path, called⟩ := Option.ne_none_iff_exists'.mp some_name
      obtain ⟨relative, named, rfl⟩ := Option.map_eq_some_iff.mp called
      obtain ⟨further, beside, alike⟩ := Option.map_eq_some_iff.mp (same.symm.trans called)
      have whole := (relativeTo_some store.root directory relative).mp named
      have also := (relativeTo_some store.root other further).mp beside
      exact unconfused directory inside other among relative further whole also
        ((nameOfRelative_same relative further (relativeApart directory relative whole)
          (relativeApart other further also)).mp alike.symm)
    refine ⟨distinct, ?_⟩
    intro directory inside some_name
    obtain ⟨path, called⟩ := Option.ne_none_iff_exists'.mp some_name
    obtain ⟨folder, among, -, source, read⟩ := folders_path store listed directory path inside called
    exact ⟨folder, among, (distinct directory inside folder.directory source (called.trans read.symm) some_name).symm⟩

def partsOf : List (List Char) := (path.splitOn '/').filter (fun part => part ≠ [])

theorem partsOf_apart (part : List Char) (inside : part ∈ partsOf path) : '/' ∉ part ∧ part ≠ [] := by
  obtain ⟨among, filled⟩ := List.mem_filter.mp inside
  exact ⟨Separated.split_apart '/' path part among, of_decide_eq_true filled⟩

theorem pieces_solid (solid : '/' ∉ text) (filled : text ≠ []) (walks : text ≠ ['.']) :
    pieces text = [text] := by
  unfold pieces
  rw [List.splitOn_eq_singleton solid]
  simp [filled, walks]

theorem foldl_join (directory : Directory) (parts : List (List Char))
    (solid : ∀ part ∈ parts, '/' ∉ part ∧ part ≠ [] ∧ part ≠ ['.']) :
    (parts.foldl Directory.join directory).components = directory.components ++ parts := by
  induction parts generalizing directory with
  | nil => simp
  | cons part parts ih =>
    obtain ⟨apart, filled, walks⟩ := solid part List.mem_cons_self
    rw [List.foldl_cons, ih _ (fun other inside => solid other (List.mem_cons_of_mem _ inside))]
    simp [Directory.join, pieces_solid part apart filled walks]

def created : List (List Char) :=
  if store.maildirpp then ['.' :: Separated.join '.' (partsOf path)] else partsOf path

theorem create_ok (folder : Folder) (made : store.create path = .ok folder) :
    partsOf path ≠ [] ∧ (∀ part ∈ partsOf path, part ≠ ['.']) ∧
      folder.directory.components = store.root.components ++ created store path := by
  unfold create directoryFor at made
  change Except.map _ (if (partsOf path).isEmpty then _ else _) = _ at made
  split at made
  next => cases made
  next some_part =>
    split at made
    next => cases made
    next steady =>
      have filled : partsOf path ≠ [] := by simpa using some_part
      have walks : ∀ part ∈ partsOf path, part ≠ ['.'] := by
        rintro part inside rfl
        exact steady (List.any_eq_true.mpr ⟨['.'], inside, by simp⟩)
      refine ⟨filled, walks, ?_⟩
      unfold created
      split at made
      next layout =>
        cases made
        rw [if_pos layout]
        have slashless : '/' ∉ '.' :: Separated.join '.' (partsOf path) := by
          intro inside
          rcases List.mem_cons.mp inside with same | later
          next => exact absurd same (by decide)
          next =>
            rcases Separated.mem_join '.' _ _ later with same | ⟨part, among, here⟩
            next => exact absurd same (by decide)
            next => exact (partsOf_apart path part among).1 here
        have longer : '.' :: Separated.join '.' (partsOf path) ≠ ['.'] := by
          intro same
          obtain ⟨part, rest, shape⟩ := List.exists_cons_of_ne_nil filled
          obtain ⟨char, more, letters⟩ := List.exists_cons_of_ne_nil
            (partsOf_apart path part (shape ▸ List.mem_cons_self)).2
          have inside : char ∈ Separated.join '.' (partsOf path) :=
            Separated.mem_join_of_mem '.' _ part char (shape ▸ List.mem_cons_self) (letters ▸ List.mem_cons_self)
          injection same with _ none
          simp [none] at inside
        exact congrArg (store.root.components ++ ·)
          (pieces_solid _ slashless (List.cons_ne_nil _ _) longer)
      next layout =>
        cases made
        rw [if_neg layout]
        apply foldl_join
        intro part inside
        exact ⟨(partsOf_apart path part inside).1, (partsOf_apart path part inside).2, walks part inside⟩

theorem created_undotted (dotless : ∀ part ∈ partsOf path, '.' ∉ part) :
    (undotted (created store path)).map (Separated.respell '.' '/') = Separated.join '/' (partsOf path) := by
  unfold created undotted
  split
  next =>
    cases parts : partsOf path with
    | nil => rfl
    | cons part rest =>
      rw [List.map_singleton, Separated.join_singleton]
      change (Separated.join '.' (part :: rest)).map _ = _
      rw [← Separated.join_split_other, Separated.split_join '.' _ (by simp)]
      rw [← parts]
      exact dotless
  next =>
    have kept : (partsOf path).map dropDot = partsOf path := by
      apply (List.map_congr_left _).trans (List.map_id' _)
      intro part inside
      unfold dropDot
      split
      next rest => exact absurd List.mem_cons_self (dotless _ inside)
      next => rfl
    rw [kept]
    apply Separated.map_respell
    intro dot
    rcases Separated.mem_join '/' _ _ dot with same | ⟨part, among, here⟩
    next => exact absurd same (by decide)
    next => exact dotless part among here

theorem partsOf_dotless (dotless : '.' ∉ path) : ∀ part ∈ partsOf path, '.' ∉ part := by
  intro part inside dot
  exact dotless (split_subset path part '/' '.' (List.mem_of_mem_filter inside) dot)

theorem create_named (folder : Folder)
    (made : store.create path = .ok folder) : store.nameOf folder.directory = some path ↔ Plain path := by
  obtain ⟨some_part, -, whole⟩ := create_ok store path folder made
  have apart : ∀ component ∈ created store path, '/' ∉ component := by
    intro component inside
    exact folder.directory.apart component (whole ▸ List.mem_append_right _ inside)
  have called : store.nameOf folder.directory = some (nameOfRelative (created store path)) := by
    unfold nameOf
    rw [(relativeTo_some store.root folder.directory _).mpr whole]
    rfl
  rw [called, Option.some.injEq]
  have partsSplit : '.' ∉ path → Separated.join '/' (partsOf path) = path → [] ∉ path.splitOn '/' := by
    intro _ same
    rw [← same, Separated.split_join '/' _ some_part (fun part inside => (partsOf_apart path part inside).1)]
    exact fun inside => (partsOf_apart path [] inside).2 rfl
  constructor
  next =>
    intro named
    by_cases like : InboxLike (created store path)
    case pos =>
      rw [(nameOfRelative_eq _ apart).1 like] at named
      rw [← named]
      refine ⟨by simp [inbox], ?_, fun _ => rfl⟩
      rw [List.splitOn_eq_singleton (by simp [inbox])]
      simp [inbox]
    case neg =>
      rw [(nameOfRelative_eq _ apart).2 like] at named
      have dotless : '.' ∉ path := by
        rw [← named]
        intro inside
        obtain ⟨char, -, same⟩ := List.mem_map.mp inside
        exact Separated.respell_ne '.' '/' char (by decide) same
      have spelled := created_undotted store path (partsOf_dotless path dotless)
      refine ⟨dotless, partsSplit dotless (spelled.symm.trans named), ?_⟩
      intro reads
      have slashless := (solid_levels _ (isInbox_solid _ reads)).2
      have undottedDotless : '.' ∉ undotted (created store path) := by
        intro dot
        apply slashless
        rw [← named]
        exact List.mem_map.mpr ⟨'.', dot, rfl⟩
      rw [Separated.map_respell '.' '/' _ undottedDotless] at named
      have inside : isInbox (undotted (created store path)) := by
        rw [named]
        exact reads
      exact absurd (.inr inside) like
  next =>
    rintro ⟨dotless, filled, capitals⟩
    have parts : partsOf path = path.splitOn '/' := by
      unfold partsOf
      rw [List.filter_eq_self]
      intro part inside
      apply decide_eq_true
      rintro rfl
      exact filled inside
    have spelled := created_undotted store path (partsOf_dotless path dotless)
    rw [parts, Separated.join_split] at spelled
    by_cases like : InboxLike (created store path)
    case pos =>
      rw [(nameOfRelative_eq _ apart).1 like]
      rcases like with separators | reads
      next =>
        -- A part that names something has a letter that is neither separator.
        obtain ⟨part, rest, shape⟩ := List.exists_cons_of_ne_nil some_part
        have first : part ∈ partsOf path := shape ▸ List.mem_cons_self
        obtain ⟨char, more, letters⟩ := List.exists_cons_of_ne_nil (partsOf_apart path part first).2
        have inside : char ∈ path :=
          split_subset path part '/' char (List.mem_of_mem_filter first) (letters ▸ List.mem_cons_self)
        rw [← spelled] at inside
        obtain ⟨before, here, same⟩ := List.mem_map.mp inside
        have slash : char = '/' := by
          rw [← same]
          have separates := separators before here
          unfold Separated.respell
          split
          next => rfl
          next notDot => simpa [isSeparator, notDot] using separates
        exact absurd (letters ▸ slash ▸ List.mem_cons_self) (partsOf_apart path part first).1
      next =>
        rw [Separated.map_respell '.' '/' _ (solid_levels _ (isInbox_solid _ reads)).1] at spelled
        exact (capitals (spelled ▸ reads)).symm
    case neg =>
      rw [(nameOfRelative_eq _ apart).2 like]
      exact spelled

theorem naming_exact : (∀ path folder, store.create path = .ok folder ->
      (store.nameOf folder.directory = some path ↔ Plain path)) ∧
    ∀ listed : List Directory, Shown store listed ↔ Unconfused store listed :=
  ⟨create_named store, shown_iff store⟩

def nested : LocalStore := { root := { components := [], apart := by simp }, maildirpp := false }

/-- `a.b` is created as one directory and called `a/b`, which is what the directory `a/b` is called. -/
theorem dotted_misnamed :
    (nested.create "a.b".toList).toOption.bind (fun folder => nested.nameOf folder.directory) = some "a/b".toList ∧
      (nested.create "a/b".toList).toOption.bind (fun folder => nested.nameOf folder.directory) = some "a/b".toList ∧
      (nested.create "a.b".toList).toOption.map Folder.directory ≠
        (nested.create "a/b".toList).toOption.map Folder.directory := by
  decide

end LocalStore

end Postio.Maildir

import Mathlib.Algebra.GroupWithZero.Nat
import Mathlib.Data.List.Basic

set_option autoImplicit false

namespace Postio

/-! Words cut out of a sequence by a scanner that may hold a word open. -/

structure Scanner (A State : Type) where
  blank : A -> Bool
  start : State
  next : State -> A -> State
  -- Whether a blank ends a word in this state.
  closed : State -> Bool
  -- How far an item reaches.
  weight : A -> Nat

namespace Scanner

variable {A State : Type} (scanner : Scanner A State)

structure Taken (A State : Type) where
  word : List A
  rest : List A
  state : State

/-- A word from a state on: up to the first blank that ends it. -/
def take (state : State) : List A -> Taken A State
  | [] => { word := [], rest := [], state }
  | item :: rest =>
    if scanner.blank item && scanner.closed state then { word := [], rest := item :: rest, state }
    else
      let taken := take (scanner.next state item) rest
      { taken with word := item :: taken.word }

def weigh (items : List A) : Nat := (items.map scanner.weight).sum

def wordsFrom : Nat -> Nat -> List A -> List (Nat × List A)
  | 0, _, _ => []
  | _ + 1, _, [] => []
  | turns + 1, offset, item :: rest =>
    if scanner.blank item then wordsFrom turns (offset + scanner.weight item) rest
    else
      let taken := scanner.take (scanner.next scanner.start item) rest
      (offset, item :: taken.word) :: wordsFrom turns (offset + scanner.weigh (item :: taken.word)) taken.rest

def words (items : List A) : List (Nat × List A) := scanner.wordsFrom items.length 0 items

def state (items : List A) : State := items.foldl scanner.next scanner.start

def Unbroken : State -> List A -> Prop
  | _, [] => True
  | state, item :: rest => (scanner.blank item && scanner.closed state) = false ∧ Unbroken (scanner.next state item) rest

def IsWord : List A -> Prop
  | [] => False
  | item :: rest => scanner.blank item = false ∧ scanner.Unbroken (scanner.next scanner.start item) rest

def Ends (state : State) (rest : List A) : Prop :=
  rest = [] ∨ ∃ item after, rest = item :: after ∧ scanner.blank item = true ∧ scanner.closed state = true

@[simp] theorem weigh_nil : scanner.weigh [] = 0 := rfl

@[simp] theorem weigh_cons (item : A) (items : List A) :
    scanner.weigh (item :: items) = scanner.weight item + scanner.weigh items := by
  simp [weigh]

@[simp] theorem weigh_append (front back : List A) : scanner.weigh (front ++ back) = scanner.weigh front + scanner.weigh back := by
  simp [weigh]

theorem take_exact (state : State) (items : List A) :
    (scanner.take state items).word ++ (scanner.take state items).rest = items ∧
      scanner.Unbroken state (scanner.take state items).word ∧
      (scanner.take state items).state = (scanner.take state items).word.foldl scanner.next state ∧
      scanner.Ends (scanner.take state items).state (scanner.take state items).rest := by
  induction items generalizing state with
  | nil => exact ⟨rfl, trivial, rfl, .inl rfl⟩
  | cons item rest ih =>
    unfold take
    by_cases ended : (scanner.blank item && scanner.closed state) = true
    case pos =>
      rw [if_pos ended]
      obtain ⟨blank, closed⟩ := Bool.and_eq_true_iff.mp ended
      exact ⟨rfl, trivial, rfl, .inr ⟨item, rest, rfl, blank, closed⟩⟩
    case neg =>
      rw [if_neg ended]
      obtain ⟨whole, unbroken, state, ends⟩ := ih (scanner.next state item)
      exact ⟨by simp [whole], ⟨by simpa using ended, unbroken⟩, state, ends⟩

theorem take_unbroken (state : State) (word rest : List A) (unbroken : scanner.Unbroken state word)
    (ends : scanner.Ends (word.foldl scanner.next state) rest) :
    scanner.take state (word ++ rest) = { word, rest, state := word.foldl scanner.next state } := by
  induction word generalizing state with
  | nil =>
    rcases ends with rfl | ⟨item, after, rfl, blank, closed⟩
    next => rfl
    next =>
      rw [List.nil_append, take, if_pos]
      next => rfl
      next => rw [Bool.and_eq_true_iff]; exact ⟨blank, closed⟩
  | cons item word ih =>
    obtain ⟨here, later⟩ := unbroken
    rw [List.cons_append, take, here]
    simp only [Bool.false_eq_true, if_false]
    rw [ih (scanner.next state item) later ends]
    rfl

theorem Unbroken.append (state : State) (front back : List A) (first : scanner.Unbroken state front)
    (second : scanner.Unbroken (front.foldl scanner.next state) back) : scanner.Unbroken state (front ++ back) := by
  induction front generalizing state with
  | nil => exact second
  | cons item front ih => exact ⟨first.1, ih (scanner.next state item) first.2 second⟩

theorem unbroken_iff (state : State) (items : List A) :
    scanner.Unbroken state items <-> ∀ front item back, items = front ++ item :: back →
      (scanner.blank item && scanner.closed (front.foldl scanner.next state)) = false := by
  induction items generalizing state with
  | nil => simp [Unbroken]
  | cons first rest ih =>
    rw [Unbroken, ih]
    constructor
    next =>
      rintro ⟨here, behind⟩ front item back whole
      cases front with
      | nil =>
        obtain ⟨rfl, -⟩ := List.cons.inj whole
        exact here
      | cons other front =>
        obtain ⟨rfl, same⟩ := List.cons.inj whole
        exact behind front item back same
    next =>
      intro all
      exact ⟨all [] first rest rfl, fun front item back whole => all (first :: front) item back (by rw [whole]; rfl)⟩

theorem unbroken_solid (state : State) (items : List A) (solid : ∀ item ∈ items, scanner.blank item = false) :
    scanner.Unbroken state items := by
  induction items generalizing state with
  | nil => trivial
  | cons item rest ih =>
    refine ⟨by rw [solid item List.mem_cons_self]; rfl, ih _ ?_⟩
    exact fun other inside => solid other (List.mem_cons_of_mem item inside)

/-- A sequence laid out as blanks and words, with where the words start. -/
inductive Rendered : Nat -> List A -> List (Nat × List A) -> Prop where
  | done (offset : Nat) (gap : List A) (blanks : ∀ item ∈ gap, scanner.blank item = true) : Rendered offset gap []
  | word (offset : Nat) (gap word rest : List A) (found : List (Nat × List A))
      (blanks : ∀ item ∈ gap, scanner.blank item = true) (isWord : scanner.IsWord word)
      (ends : scanner.Ends (scanner.state word) rest)
      (further : Rendered (offset + scanner.weigh gap + scanner.weigh word) rest found) :
      Rendered offset (gap ++ word ++ rest) ((offset + scanner.weigh gap, word) :: found)

theorem Rendered.blank (offset : Nat) (item : A) (rest : List A) (found : List (Nat × List A))
    (blank : scanner.blank item = true) (rendered : scanner.Rendered (offset + scanner.weight item) rest found) :
    scanner.Rendered offset (item :: rest) found := by
  have shift : ∀ (gap : List A), offset + scanner.weight item + scanner.weigh gap = offset + scanner.weigh (item :: gap) := by
    intro gap
    rw [weigh_cons]
    omega
  cases rendered with
  | done _ gap blanks => exact .done offset (item :: rest) (List.forall_mem_cons.mpr ⟨blank, blanks⟩)
  | word _ gap word rest found blanks isWord ends further =>
    rw [shift] at further ⊢
    exact .word offset (item :: gap) word rest found (List.forall_mem_cons.mpr ⟨blank, blanks⟩) isWord ends further

theorem wordsFrom_rendered (turns offset : Nat) (items : List A) (enough : items.length ≤ turns) :
    scanner.Rendered offset items (scanner.wordsFrom turns offset items) := by
  induction turns generalizing offset items with
  | zero =>
    obtain rfl : items = [] := List.length_eq_zero_iff.mp (by omega)
    exact .done offset [] (by simp)
  | succ turns ih =>
    cases items with
    | nil => exact .done offset [] (by simp)
    | cons item rest =>
      rw [List.length_cons] at enough
      unfold wordsFrom
      by_cases blank : scanner.blank item = true
      case pos =>
        rw [if_pos blank]
        exact Rendered.blank scanner offset item rest _ blank (ih _ rest (by omega))
      case neg =>
        rw [if_neg blank]
        obtain ⟨whole, unbroken, state, ends⟩ := scanner.take_exact (scanner.next scanner.start item) rest
        simp only
        generalize shape : scanner.take (scanner.next scanner.start item) rest = taken at whole unbroken state ends ⊢
        have shorter : taken.rest.length ≤ turns := by
          have lengths := congrArg List.length whole
          rw [List.length_append] at lengths
          omega
        have further := ih (offset + scanner.weigh (item :: taken.word)) taken.rest shorter
        rw [state] at ends
        have laid := Rendered.word offset [] (item :: taken.word) taken.rest _ (by simp)
          ⟨by simpa using blank, unbroken⟩ ends further
        rw [List.nil_append, List.cons_append, whole] at laid
        exact laid

theorem words_rendered (items : List A) : scanner.Rendered 0 items (scanner.words items) :=
  scanner.wordsFrom_rendered items.length 0 items (Nat.le_refl _)

theorem wordsFrom_gap (turns offset : Nat) (gap rest : List A) (blanks : ∀ item ∈ gap, scanner.blank item = true) :
    scanner.wordsFrom (gap.length + turns) offset (gap ++ rest) = scanner.wordsFrom turns (offset + scanner.weigh gap) rest := by
  induction gap generalizing offset with
  | nil => simp
  | cons item gap ih =>
    obtain ⟨blank, more⟩ := List.forall_mem_cons.mp blanks
    rw [List.length_cons, List.cons_append, show gap.length + 1 + turns = (gap.length + turns) + 1 by omega, wordsFrom,
      if_pos blank, ih _ more, weigh_cons, Nat.add_assoc offset]

variable {offset : Nat} {items : List A} {found : List (Nat × List A)}

theorem Rendered.wordsFrom (rendered : scanner.Rendered offset items found) (turns : Nat) (enough : items.length ≤ turns) :
    scanner.wordsFrom turns offset items = found := by
  induction rendered generalizing turns with
  | done offset gap blanks =>
    obtain ⟨more, rfl⟩ := Nat.exists_eq_add_of_le enough
    have skipped := scanner.wordsFrom_gap more offset gap [] blanks
    rw [List.append_nil] at skipped
    rw [skipped]
    cases more <;> rfl
  | word offset gap word rest found blanks isWord ends further ih =>
    cases word with
    | nil => exact isWord.elim
    | cons item word =>
      obtain ⟨more, rfl⟩ := Nat.exists_eq_add_of_le (Nat.le_trans (by simp [List.length_append]) enough :
        gap.length + 1 ≤ turns)
      rw [List.length_append, List.length_append, List.length_cons] at enough
      rw [List.append_assoc, show gap.length + 1 + more = gap.length + (more + 1) by omega,
        scanner.wordsFrom_gap (more + 1) offset gap _ blanks, List.cons_append, Scanner.wordsFrom,
        if_neg (by simp [isWord.1]), scanner.take_unbroken _ word rest isWord.2 ends]
      simp only
      rw [ih more (by omega)]

theorem Rendered.words (rendered : scanner.Rendered 0 items found) :
    scanner.words items = found := rendered.wordsFrom scanner items.length (Nat.le_refl _)

def raws (items : List A) : List (List A) := (scanner.words items).map Prod.snd

theorem Rendered.shift (rendered : scanner.Rendered offset items found) (base : Nat) :
    ∃ moved, scanner.Rendered base items moved ∧ moved.map Prod.snd = found.map Prod.snd := by
  induction rendered generalizing base with
  | done _ gap blanks => exact ⟨[], .done base gap blanks, rfl⟩
  | word _ gap word rest found blanks isWord ends _ ih =>
    obtain ⟨moved, rendered, same⟩ := ih (base + scanner.weigh gap + scanner.weigh word)
    exact ⟨_, .word base gap word rest moved blanks isWord ends rendered, by simp [same]⟩

theorem raws_word (word rest : List A) (isWord : scanner.IsWord word) (ends : scanner.Ends (scanner.state word) rest) :
    scanner.raws (word ++ rest) = word :: scanner.raws rest := by
  obtain ⟨moved, rendered, same⟩ := Rendered.shift scanner (scanner.words_rendered rest) (0 + scanner.weigh [] + scanner.weigh word)
  have laid := Rendered.word 0 [] word rest moved (by simp) isWord ends rendered
  have found := Rendered.words scanner laid
  rw [List.nil_append] at found
  rw [raws, found, List.map_cons, same]
  rfl

theorem raws_nil : scanner.raws [] = [] := rfl

theorem raws_blank (item : A) (rest : List A) (blank : scanner.blank item = true) :
    scanner.raws (item :: rest) = scanner.raws rest := by
  obtain ⟨moved, rendered, same⟩ := Rendered.shift scanner (scanner.words_rendered rest) (0 + scanner.weight item)
  rw [raws, (Rendered.blank scanner 0 item rest moved blank rendered).words, same]
  rfl

theorem raws_single (word : List A) (isWord : scanner.IsWord word) : scanner.raws word = [word] := by
  have alone := scanner.raws_word word [] isWord (.inl rfl)
  rwa [List.append_nil, raws_nil] at alone

def Words : List (List A) -> Prop
  | [] => True
  | [last] => scanner.IsWord last
  | word :: rest => scanner.IsWord word ∧ scanner.closed (scanner.state word) = true ∧ Words rest

theorem Rendered.nil (rendered : scanner.Rendered offset items found) (empty : items = []) : found = [] := by
  cases rendered with
  | done => rfl
  | word _ gap word rest found blanks isWord =>
    obtain ⟨front, -⟩ := List.append_eq_nil_iff.mp empty
    obtain ⟨-, rfl⟩ := List.append_eq_nil_iff.mp front
    exact isWord.elim

theorem Rendered.isWords (rendered : scanner.Rendered offset items found) : scanner.Words (found.map Prod.snd) := by
  induction rendered with
  | done => trivial
  | word offset gap word rest found blanks isWord ends further ih =>
    cases found with
    | nil => exact isWord
    | cons second found =>
      refine ⟨isWord, ?_, ih⟩
      rcases ends with rfl | ⟨item, after, -, -, closed⟩
      next => cases Rendered.nil scanner further rfl
      next => exact closed

theorem Rendered.stands (rendered : scanner.Rendered offset items found) : ∀ word ∈ found, ∃ before after,
      items = before ++ (word.2 ++ after) ∧ offset + scanner.weigh before = word.1 ∧ scanner.IsWord word.2 := by
  induction rendered with
  | done => simp
  | word offset gap word rest found blanks isWord ends further ih =>
    intro other inside
    rcases List.mem_cons.mp inside with rfl | inside
    next => exact ⟨gap, rest, List.append_assoc _ _ _, rfl, isWord⟩
    next =>
      obtain ⟨before, after, rfl, reached, also⟩ := ih other inside
      refine ⟨gap ++ word ++ before, after, by simp, ?_, also⟩
      rw [weigh_append, weigh_append, ← reached]
      omega

theorem Rendered.later (rendered : scanner.Rendered offset items found) : ∀ word ∈ found, offset ≤ word.1 := by
  intro word inside
  obtain ⟨before, after, -, reached, -⟩ := rendered.stands scanner word inside
  omega

theorem Rendered.apart (rendered : scanner.Rendered offset items found) :
    found.Pairwise (fun first second => first.1 + scanner.weigh first.2 ≤ second.1) := by
  induction rendered with
  | done => exact .nil
  | word offset gap word rest found blanks isWord ends further ih =>
    exact List.pairwise_cons.mpr ⟨further.later scanner, ih⟩

theorem Rendered.between (rendered : scanner.Rendered offset items found) (heavy : ∀ item, 0 < scanner.weight item) (front back : List A) (item : A)
    (whole : items = front ++ item :: back) : scanner.blank item = true ∨ ∃ word ∈ found,
      word.1 ≤ offset + scanner.weigh front ∧ offset + scanner.weigh front < word.1 + scanner.weigh word.2 ∧ item ∈ word.2 := by
  induction rendered generalizing front with
  | done offset gap blanks => exact .inl (blanks item (by simp [whole]))
  | word offset gap word rest found blanks isWord ends further ih =>
    -- The item stands in the gap, in the word, or behind it.
    rw [List.append_assoc] at whole
    rcases List.append_eq_append_iff.mp whole with ⟨more, rfl, behind⟩ | ⟨more, rfl, inside⟩
    next =>
      rcases List.append_eq_append_iff.mp behind with ⟨later, rfl, beyond⟩ | ⟨later, rfl, within⟩
      next =>
        rcases ih later beyond with blank | ⟨other, among, low, high, stands⟩
        next => exact .inl blank
        next =>
          refine .inr ⟨other, List.mem_cons_of_mem _ among, ?_, ?_, stands⟩
          next => simp only [weigh_append]; omega
          next => simp only [weigh_append]; omega
      next =>
        cases later with
        | nil =>
          rw [List.nil_append] at within
          rcases ih [] (by simpa using within.symm) with blank | ⟨other, among, low, high, stands⟩
          next => exact .inl blank
          next =>
            refine .inr ⟨other, List.mem_cons_of_mem _ among, ?_, ?_, stands⟩
            next => simp only [weigh_append, weigh_nil, List.append_nil] at low ⊢; omega
            next => simp only [weigh_append, weigh_nil, List.append_nil] at high ⊢; omega
        | cons first later =>
          rw [List.cons_append, List.cons.injEq] at within
          obtain ⟨rfl, -⟩ := within
          refine .inr ⟨(_, more ++ item :: later), List.mem_cons_self, ?_, ?_, by simp⟩
          next => simp only [weigh_append]; omega
          next =>
            have further := heavy item
            simp only [weigh_append, weigh_cons]
            omega
    next =>
      cases more with
      | nil =>
        rw [List.nil_append] at inside
        cases word with
        | nil => exact isWord.elim
        | cons first word =>
          rw [List.cons_append, List.cons.injEq] at inside
          obtain ⟨rfl, -⟩ := inside
          refine .inr ⟨(_, item :: word), List.mem_cons_self, ?_, ?_, by simp⟩
          next => simp
          next =>
            have further := heavy item
            simp only [List.append_nil, weigh_cons]
            omega
      | cons first more =>
        rw [List.cons_append, List.cons.injEq] at inside
        obtain ⟨rfl, -⟩ := inside
        exact .inl (blanks item (by simp))

end Scanner

end Postio

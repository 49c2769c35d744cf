import Postio.Lib.Lines

set_option autoImplicit false

namespace Postio.Lowercase

/-! Text in lower case, as Unicode tables have it. A capital sigma looks at what stands around it. -/

structure Tables where
  lower : Char -> List Char
  cased : Char -> Bool
  caseIgnorable : Char -> Bool

def sigma : Char := 'Σ'

def middleSigma : Char := 'σ'

def finalSigma : Char := 'ς'

def Tables.Barrier (tables : Tables) (char : Char) : Prop := tables.cased char = false ∧ tables.caseIgnorable char = false

/-- What every version of the tables has, as far as ASCII text and white space need it. -/
structure Tables.Lawful (tables : Tables) : Prop where
  ascii : ∀ char, char.toNat < 128 -> tables.lower char = [char.toLower]
  stable : ∀ char, ∀ lowered ∈ tables.lower char, tables.lower lowered = [lowered]
  filled : ∀ char, tables.lower char ≠ []
  lower_sigma : tables.lower sigma = [middleSigma]
  lower_final : tables.lower finalSigma = [finalSigma]
  blank : ∀ char, Lines.isWhitespace char = true -> tables.lower char = [char] ∧ tables.Barrier char
  solid : ∀ char, Lines.isWhitespace char = false -> ∀ lowered ∈ tables.lower char, Lines.isWhitespace lowered = false
  -- The Kelvin sign is a letter in lower case, and a dotted capital I is two.
  letters : ∀ char, 128 ≤ char.toNat -> ∀ lowered ∈ tables.lower char, lowered.toNat < 128 -> lowered.isAlpha = true
  ignorable : ∀ char, tables.caseIgnorable char = true -> tables.lower char = [char]
  alphabetic : ∀ char, char.isAlpha = true -> tables.cased char = true ∧ tables.caseIgnorable char = false
  sigma_seen : tables.caseIgnorable sigma = false
  colon : tables.caseIgnorable ':' = true
  brackets : ∀ char ∈ ['[', ']'], tables.Barrier char

variable (tables : Tables)

variable (before : List Char) (char : Char) (text rest : List Char)

/-- `case_ignorable_then_cased`. -/
def thenCased : Bool :=
  match text.dropWhile tables.caseIgnorable with
  | [] => false
  | char :: _ => tables.cased char

/-- `str::to_lowercase`, after a text that is read backwards. -/
def lowerAfter : List Char -> List Char -> List Char
  | _, [] => []
  | before, char :: rest =>
    (if char = sigma then [if thenCased tables before && !thenCased tables rest then finalSigma else middleSigma]
      else tables.lower char) ++ lowerAfter (char :: before) rest

/-- `str::to_lowercase`. -/
def toLowercase : List Char := lowerAfter tables [] text

def opensOnSigma : Bool :=
  match text.dropWhile tables.caseIgnorable with
  | [] => false
  | char :: rest => char = sigma && !thenCased tables rest

theorem thenCased_cons :
    thenCased tables (char :: text) = if tables.caseIgnorable char then thenCased tables text else tables.cased char := by
  unfold thenCased
  rw [List.dropWhile_cons]
  by_cases ignored : tables.caseIgnorable char = true
  case pos => rw [if_pos ignored, if_pos ignored]
  case neg => rw [if_neg ignored, if_neg ignored]

theorem opensOnSigma_cons : opensOnSigma tables (char :: text) =
    if tables.caseIgnorable char then opensOnSigma tables text else (char = sigma && !thenCased tables text) := by
  unfold opensOnSigma
  rw [List.dropWhile_cons]
  by_cases ignored : tables.caseIgnorable char = true
  case pos => rw [if_pos ignored, if_pos ignored]
  case neg => rw [if_neg ignored, if_neg ignored]

theorem lowerAfter_same (other text : List Char) (same : thenCased tables before = thenCased tables other) :
    lowerAfter tables before text = lowerAfter tables other text := by
  induction text generalizing before other with
  | nil => rfl
  | cons char text ih =>
    have further : thenCased tables (char :: before) = thenCased tables (char :: other) := by
      rw [thenCased_cons, thenCased_cons, same]
    unfold lowerAfter
    rw [same, ih _ _ further]

theorem lowerAfter_apart (other text : List Char) (lawful : tables.Lawful) (apart : opensOnSigma tables text = false) :
    lowerAfter tables before text = lowerAfter tables other text := by
  induction text generalizing before other with
  | nil => rfl
  | cons char text ih =>
    rw [opensOnSigma_cons] at apart
    unfold lowerAfter
    split at apart
    next ignored =>
      have plain : char ≠ sigma := by
        rintro rfl
        rw [lawful.sigma_seen] at ignored
        cases ignored
      rw [if_neg plain, if_neg plain, ih _ (char :: other) apart]
    next seen =>
      have further : thenCased tables (char :: before) = thenCased tables (char :: other) := by
        rw [thenCased_cons, thenCased_cons, if_neg seen, if_neg seen]
      rw [lowerAfter_same tables _ _ text further]
      by_cases here : char = sigma
      next =>
        have cased : thenCased tables text = true := by simpa [here] using apart
        simp [here, cased]
      next => rw [if_neg here, if_neg here]

theorem lowerAfter_plain (plain : sigma ∉ text) :
    lowerAfter tables before text = text.flatMap tables.lower := by
  induction text generalizing before with
  | nil => rfl
  | cons char text ih =>
    have here : char ≠ sigma := fun same => plain (same ▸ List.mem_cons_self)
    unfold lowerAfter
    rw [if_neg here, ih _ (fun inside => plain (List.mem_cons_of_mem _ inside)), List.flatMap_cons]

theorem lowerAfter_append (plain : sigma ∉ text) :
    lowerAfter tables before (text ++ rest) =
      text.flatMap tables.lower ++ lowerAfter tables (text.reverse ++ before) rest := by
  induction text generalizing before with
  | nil => rfl
  | cons char text ih =>
    have here : char ≠ sigma := fun same => plain (same ▸ List.mem_cons_self)
    simp only [List.cons_append, lowerAfter, if_neg here, List.flatMap_cons, List.append_assoc]
    rw [ih _ (fun inside => plain (List.mem_cons_of_mem _ inside))]
    simp

theorem thenCased_append (seen : ∃ char ∈ text, tables.caseIgnorable char = false) :
    thenCased tables (text ++ rest) = thenCased tables text := by
  induction text with
  | nil => simp at seen
  | cons char text ih =>
    rw [List.cons_append, thenCased_cons, thenCased_cons]
    split
    next ignored =>
      obtain ⟨other, inside, counted⟩ := seen
      rcases List.mem_cons.mp inside with rfl | later
      next => rw [ignored] at counted; cases counted
      next => exact ih ⟨other, later, counted⟩
    next => rfl

theorem lowerAfter_barrier (last : Char) (barrier : tables.Barrier last) (other : last ≠ sigma) :
    lowerAfter tables before (text ++ last :: rest) =
      lowerAfter tables before (text ++ [last]) ++ lowerAfter tables [] rest := by
  induction text generalizing before with
  | nil =>
    have cut : thenCased tables (last :: before) = thenCased tables [] := by
      rw [thenCased_cons, barrier.2, barrier.1]
      rfl
    simp only [List.nil_append, lowerAfter, if_neg other, List.append_nil]
    rw [lowerAfter_same tables _ _ rest cut]
  | cons char text ih =>
    have ahead : thenCased tables (text ++ last :: rest) = thenCased tables (text ++ [last]) := by
      rw [List.append_cons text last rest]
      exact thenCased_append tables (text ++ [last]) rest ⟨last, by simp, barrier.2⟩
    simp only [List.cons_append, lowerAfter, ahead, ih, List.append_assoc]

def Lowered : Prop := ∀ char ∈ text, char ≠ sigma ∧ tables.lower char = [char]

theorem flatMap_fixed (fixed : ∀ char ∈ text, tables.lower char = [char]) : text.flatMap tables.lower = text := by
  induction text with
  | nil => rfl
  | cons char text ih =>
    rw [List.flatMap_cons, fixed char List.mem_cons_self, ih (fun other inside => fixed other (List.mem_cons_of_mem _ inside))]
    rfl

theorem toLowercase_lowered (lowered : Lowered tables text) : toLowercase tables text = text := by
  unfold toLowercase
  rw [lowerAfter_plain tables [] text (fun inside => (lowered _ inside).1 rfl)]
  exact flatMap_fixed tables text (fun char inside => (lowered char inside).2)

theorem lowered_of_mem (lawful : tables.Lawful) (char lowered : Char) (inside : lowered ∈ tables.lower char) :
    lowered ≠ sigma ∧ tables.lower lowered = [lowered] := by
  have stable := lawful.stable char lowered inside
  refine ⟨?_, stable⟩
  rintro rfl
  rw [lawful.lower_sigma] at stable
  exact absurd (List.singleton_inj.mp stable) (by decide)

theorem lowerAfter_mem (char : Char) (inside : char ∈ lowerAfter tables before text) :
    char = finalSigma ∨ char = middleSigma ∨ ∃ source ∈ text, source ≠ sigma ∧ char ∈ tables.lower source := by
  induction text generalizing before with
  | nil => cases inside
  | cons source text ih =>
    rw [lowerAfter, List.mem_append] at inside
    rcases inside with here | later
    next =>
      split at here
      next =>
        have read := List.mem_singleton.mp here
        split at read
        next => exact .inl read
        next => exact .inr (.inl read)
      next plain => exact .inr (.inr ⟨source, List.mem_cons_self, plain, here⟩)
    next =>
      rcases ih _ later with final | middle | ⟨other, among, plain, from_other⟩
      next => exact .inl final
      next => exact .inr (.inl middle)
      next => exact .inr (.inr ⟨other, List.mem_cons_of_mem _ among, plain, from_other⟩)

theorem lowerAfter_lowered (lawful : tables.Lawful) : Lowered tables (lowerAfter tables before text) := by
  intro char inside
  rcases lowerAfter_mem tables before text char inside with rfl | rfl | ⟨source, _, _, from_source⟩
  next => exact ⟨by decide, lawful.lower_final⟩
  next => exact lowered_of_mem tables lawful sigma middleSigma (by rw [lawful.lower_sigma]; exact List.mem_singleton_self _)
  next => exact lowered_of_mem tables lawful source char from_source

theorem lowerAfter_opens (lawful : tables.Lawful) (opens : opensOnSigma tables text = true) :
    ∃ front rest, (∀ char ∈ front, tables.caseIgnorable char = true) ∧ ∀ before,
      lowerAfter tables before text = front ++ (if thenCased tables before then finalSigma else middleSigma) :: rest := by
  induction text with
  | nil => cases opens
  | cons char text ih =>
    rw [opensOnSigma_cons] at opens
    split at opens
    next ignored =>
      obtain ⟨front, rest, passed, reads⟩ := ih opens
      refine ⟨char :: front, rest, List.forall_mem_cons.mpr ⟨ignored, passed⟩, ?_⟩
      intro before
      have plain : char ≠ sigma := by
        rintro rfl
        rw [lawful.sigma_seen] at ignored
        cases ignored
      unfold lowerAfter
      rw [if_neg plain, reads, lawful.ignorable char ignored, thenCased_cons, if_pos ignored]
      rfl
    next seen =>
      obtain ⟨rfl, word_ends⟩ : char = sigma ∧ thenCased tables text = false := by simpa using opens
      refine ⟨[], lowerAfter tables [sigma] text, by simp, ?_⟩
      intro before
      have same : thenCased tables (sigma :: before) = thenCased tables [sigma] := by
        rw [thenCased_cons, thenCased_cons, if_neg seen, if_neg seen]
      rw [lowerAfter, if_pos rfl, word_ends, lowerAfter_same tables _ _ text same]
      simp

theorem toLower_capital : char.toLower = char ∨ ∃ number : Fin 26, char = Char.ofNat (65 + number.val) := by
  by_cases upper : 'A'.val ≤ char.val ∧ char.val ≤ 'Z'.val
  case neg =>
    left
    unfold Char.toLower
    rw [dif_neg]
    exact fun ⟨low, high⟩ => upper ⟨low, high⟩
  case pos =>
    right
    have low : 65 ≤ char.toNat := UInt32.le_iff_toNat_le.mp upper.1
    have high : char.toNat ≤ 90 := UInt32.le_iff_toNat_le.mp upper.2
    refine ⟨⟨char.toNat - 65, by omega⟩, ?_⟩
    rw [Nat.add_sub_cancel' low, Char.ofNat_toNat]

theorem toLower_cases : char.toLower = char ∨ char.toLower.isAlpha = true := by
  rcases toLower_capital char with same | ⟨number, rfl⟩
  next => exact .inl same
  next =>
    have every : ∀ number : Fin 26, (Char.ofNat (65 + number.val)).toLower.isAlpha = true := by decide
    exact .inr (every number)

theorem lower_source (lawful : tables.Lawful) (char lowered : Char) (small : lowered.toNat < 128) (sign : lowered.isAlpha = false)
    (inside : lowered ∈ tables.lower char) : lowered = char := by
  by_cases ascii : char.toNat < 128
  case pos =>
    rw [lawful.ascii char ascii] at inside
    obtain rfl := List.mem_singleton.mp inside
    rcases toLower_cases char with same | letter
    next => exact same
    next => rw [sign] at letter; cases letter
  case neg =>
    rw [lawful.letters char (by omega) lowered inside small] at sign
    cases sign

theorem lowerAfter_source (lawful : tables.Lawful) (lowered : Char) (small : lowered.toNat < 128)
    (sign : lowered.isAlpha = false) (inside : lowered ∈ lowerAfter tables before text) : lowered ∈ text := by
  rcases lowerAfter_mem tables before text lowered inside with rfl | rfl | ⟨source, among, _, from_source⟩
  next => exact absurd small (by decide)
  next => exact absurd small (by decide)
  next => rwa [lower_source tables lawful source lowered small sign from_source]

theorem lowerAfter_last (last : Char) (other : last ≠ sigma) (fixed : tables.lower last = [last]) :
    ∃ front, lowerAfter tables before (text ++ [last]) = front ++ [last] ∧
      ∀ char ∈ front, char = finalSigma ∨ char = middleSigma ∨ ∃ source ∈ text, source ≠ sigma ∧ char ∈ tables.lower source := by
  induction text generalizing before with
  | nil =>
    refine ⟨[], ?_, by simp⟩
    simp only [List.nil_append, lowerAfter, if_neg other, fixed, List.append_nil]
  | cons char text ih =>
    obtain ⟨front, reads, sources⟩ := ih (char :: before)
    simp only [List.cons_append, lowerAfter, reads]
    refine ⟨_, (List.append_assoc _ _ _).symm, ?_⟩
    intro lowered inside
    rcases List.mem_append.mp inside with here | later
    next =>
      split at here
      next =>
        have read := List.mem_singleton.mp here
        split at read
        next => exact .inl read
        next => exact .inr (.inl read)
      next plain => exact .inr (.inr ⟨char, List.mem_cons_self, plain, here⟩)
    next =>
      rcases sources lowered later with final | middle | ⟨source, among, plain, from_source⟩
      next => exact .inl final
      next => exact .inr (.inl middle)
      next => exact .inr (.inr ⟨source, List.mem_cons_of_mem _ among, plain, from_source⟩)

/-! ### Tables for ASCII text and the sigma -/

def plainTables : Tables :=
  { lower := fun char => if char = sigma then [middleSigma] else [char.toLower]
    cased := fun char => char.isAlpha || [sigma, middleSigma, finalSigma].contains char
    caseIgnorable := fun char => ['\'', '.', ':', '^', (Char.ofNat 96)].contains char }

theorem isAlpha_range (letter : char.isAlpha = true) :
    65 ≤ char.toNat ∧ char.toNat ≤ 90 ∨ 97 ≤ char.toNat ∧ char.toNat ≤ 122 := by
  unfold Char.isAlpha Char.isUpper Char.isLower at letter
  simp only [ge_iff_le, Bool.or_eq_true, Bool.and_eq_true, decide_eq_true_eq, UInt32.le_iff_toNat_le] at letter
  exact letter

theorem isWhitespace_sign (blank : Lines.isWhitespace char = true) : char.isAlpha = false := by
  rw [Bool.eq_false_iff]
  intro letter
  have range := isAlpha_range char letter
  unfold Lines.isWhitespace at blank
  simp only [List.contains_eq_mem, List.mem_cons, List.not_mem_nil, or_false, Bool.or_eq_true, Bool.and_eq_true,
    decide_eq_true_eq] at blank
  omega

theorem plainTables_lower (other : char ≠ sigma) : plainTables.lower char = [char.toLower] := if_neg other

theorem plainTables_lawful : plainTables.Lawful := by
  have listed : ∀ listed : List Char, ∀ char, listed.contains char = true -> char ∈ listed :=
    fun listed char inside => by simpa using inside
  have signs : ∀ char, plainTables.caseIgnorable char = true -> char.isAlpha = false ∧ plainTables.lower char = [char] ∧
      Lines.isWhitespace char = false := by
    intro char inside
    have every : ∀ char ∈ ['\'', '.', ':', '^', (Char.ofNat 96)], char.isAlpha = false ∧ plainTables.lower char = [char] ∧
      Lines.isWhitespace char = false := Lines.forall_of_all _ (by decide +kernel)
    exact every char (listed _ char inside)
  constructor
  case ascii =>
    intro char small
    apply plainTables_lower
    rintro rfl
    exact absurd small (by decide)
  case stable =>
    intro char lowered inside
    by_cases here : char = sigma
    case pos =>
      subst here
      obtain rfl := List.mem_singleton.mp inside
      decide +kernel
    case neg =>
      rw [plainTables_lower char here] at inside
      obtain rfl := List.mem_singleton.mp inside
      rcases toLower_capital char with same | ⟨number, rfl⟩
      next => rw [same, plainTables_lower char here, same]
      next =>
        have every : ∀ number : Fin 26, plainTables.lower (Char.ofNat (65 + number.val)).toLower =
          [(Char.ofNat (65 + number.val)).toLower] := by decide +kernel
        exact every number
  case filled =>
    intro char
    change (if char = sigma then [middleSigma] else [char.toLower]) ≠ []
    split <;> simp
  case lower_sigma => rfl
  case lower_final => decide +kernel
  case blank =>
    intro char blank
    have other : char ≠ sigma := by
      rintro rfl
      exact absurd blank (by decide)
    have sign := isWhitespace_sign char blank
    have same : char.toLower = char := by
      rcases toLower_capital char with same | ⟨number, rfl⟩
      next => exact same
      next =>
        have every : ∀ number : Fin 26, (Char.ofNat (65 + number.val)).isAlpha = true := by decide
        rw [every number] at sign
        cases sign
    refine ⟨by rw [plainTables_lower char other, same], ?_, ?_⟩
    next =>
      change (char.isAlpha || [sigma, middleSigma, finalSigma].contains char) = false
      rw [sign, Bool.false_or, Bool.eq_false_iff]
      intro inside
      have every : ∀ char ∈ [sigma, middleSigma, finalSigma], Lines.isWhitespace char = false :=
        Lines.forall_of_all _ (by decide)
      rw [every char (listed _ char inside)] at blank
      cases blank
    next =>
      rw [Bool.eq_false_iff]
      intro inside
      rw [(signs char inside).2.2] at blank
      cases blank
  case solid =>
    intro char solid lowered inside
    by_cases here : char = sigma
    case pos =>
      subst here
      obtain rfl := List.mem_singleton.mp inside
      decide
    case neg =>
      rw [plainTables_lower char here] at inside
      obtain rfl := List.mem_singleton.mp inside
      rcases toLower_capital char with same | ⟨number, rfl⟩
      next => rwa [same]
      next =>
        have every : ∀ number : Fin 26, Lines.isWhitespace (Char.ofNat (65 + number.val)).toLower = false := by decide
        exact every number
  case letters =>
    intro char large lowered inside small
    by_cases here : char = sigma
    case pos =>
      subst here
      obtain rfl := List.mem_singleton.mp inside
      exact absurd small (by decide)
    case neg =>
      rw [plainTables_lower char here] at inside
      obtain rfl := List.mem_singleton.mp inside
      rcases toLower_cases char with same | letter
      next => rw [same] at small; omega
      next => exact letter
  case ignorable => exact fun char inside => (signs char inside).2.1
  case alphabetic =>
    intro char letter
    refine ⟨?_, ?_⟩
    next =>
      change (char.isAlpha || [sigma, middleSigma, finalSigma].contains char) = true
      rw [letter, Bool.true_or]
    next =>
      rw [Bool.eq_false_iff]
      intro inside
      rw [(signs char inside).1] at letter
      cases letter
  case sigma_seen => decide
  case colon => decide
  case brackets =>
    intro char inside
    have every : ∀ char ∈ ['[', ']'], plainTables.cased char = false ∧ plainTables.caseIgnorable char = false :=
      Lines.forall_of_all _ (by decide)
    exact every char inside

end Postio.Lowercase

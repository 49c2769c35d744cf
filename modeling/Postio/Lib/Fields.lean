import Mathlib.Data.List.Basic

set_option autoImplicit false

namespace Postio.Fields

/-! Header sections: fields in lines, which a line that starts with a blank goes on with, up to an empty line. -/

abbrev Text := List Char

variable (front : Text) (char : Char) (fields : List Text) (field rest back body : Text)

def isBlank : Bool := char == ' ' || char == '\t'

def folds : Text -> Bool
  | [] => true
  | char :: rest => (char != '\n' || rest.head?.any isBlank) && folds rest

/-- A field with its folds, up to the line feed that ends it, and what comes after that. -/
def cutField : Text -> Text × Text
  | [] => ([], [])
  | char :: rest =>
    if char = '\n' ∧ rest.head?.any isBlank = false then ([], rest)
    else (char :: (cutField rest).1, (cutField rest).2)

def chomp (line : Text) : Text := if line.getLast? = some '\r' then line.dropLast else line

def ends : Text -> Bool
  | [] | '\n' :: _ | '\r' :: '\n' :: _ => true
  | _ => false

theorem cutField_length : (cutField (char :: rest)).2.length ≤ rest.length := by
  induction rest generalizing char with
  | nil =>
    rw [cutField]
    split
    next => exact Nat.le_refl _
    next => exact Nat.le_refl _
  | cons next rest ih =>
    rw [cutField]
    split
    next => exact Nat.le_refl _
    next => exact Nat.le_succ_of_le (ih next)

/-- The fields of the section a text starts with. -/
def readFields (text : Text) : List Text :=
  if ends text then [] else
    match text with
    | [] => []
    | char :: rest => chomp (cutField (char :: rest)).1 :: readFields (cutField (char :: rest)).2
termination_by text.length
decreasing_by exact Nat.lt_succ_of_le (cutField_length char rest)

theorem readFields_ends (text : Text) (done : ends text = true) : readFields text = [] := by
  rw [readFields.eq_def, if_pos done]

theorem readFields_more (more : ends (char :: rest) = false) :
    readFields (char :: rest) = chomp (cutField (char :: rest)).1 :: readFields (cutField (char :: rest)).2 := by
  rw [readFields.eq_def, more]
  rfl

def sectionText : Text :=
  fields.flatMap (fun field => field ++ ['\r', '\n']) ++ ['\r', '\n'] ++ body

def Opens : Prop := ∃ char rest, field = char :: rest ∧ isBlank char = false ∧ char ≠ '\r' ∧ char ≠ '\n'

theorem folds_append (folded : folds front = true) : folds (front ++ back) = folds back := by
  induction front with
  | nil => rfl
  | cons char rest ih =>
    simp only [folds, Bool.and_eq_true, Bool.or_eq_true, bne_iff_ne, ne_eq] at folded
    rw [List.cons_append, folds, ih folded.2]
    rcases folded.1 with other | blank
    next => simp [other]
    next =>
      have same : (rest ++ back).head?.any isBlank = true := by
        cases rest with
        | nil => cases blank
        | cons next rest => exact blank
      rw [same, Bool.or_true, Bool.true_and]

/-- Before what is no blank, a text folds by itself. -/
theorem folds_solid (solid : back.head?.any isBlank = false) :
    folds (front ++ back) = (folds front && folds back) := by
  induction front with
  | nil => rfl
  | cons char rest ih =>
    have same : (rest ++ back).head?.any isBlank = rest.head?.any isBlank := by
      cases rest with
      | nil => exact solid
      | cons next rest => rfl
    rw [List.cons_append, folds, folds, ih, same, Bool.and_assoc]

/-- What is taken off the end of a text leaves it folded, unless it leaves a line feed there. -/
theorem folds_front (folded : folds (front ++ back) = true) (last : front.getLast? ≠ some '\n') :
    folds front = true := by
  induction front with
  | nil => rfl
  | cons char rest ih =>
    rw [List.cons_append, folds, Bool.and_eq_true] at folded
    cases rest with
    | nil =>
      have other : char ≠ '\n' := fun same => last (by rw [same]; rfl)
      simp [folds, other]
    | cons next rest =>
      rw [folds, Bool.and_eq_true]
      exact ⟨folded.1, ih folded.2 (by simpa using last)⟩

theorem folds_back (folded : folds (front ++ back) = true) : folds back = true := by
  induction front with
  | nil => exact folded
  | cons char rest ih =>
    rw [List.cons_append, folds, Bool.and_eq_true] at folded
    exact ih folded.2

theorem folds_plain (text : Text) (plain : '\n' ∉ text) : folds text = true := by
  induction text with
  | nil => rfl
  | cons char rest ih =>
    rw [List.mem_cons, not_or] at plain
    obtain ⟨other, plain⟩ := plain
    simp [folds, Ne.symm other, ih plain]

theorem cut_folded (folded : folds field = true) (solid : rest.head?.any isBlank = false) :
    cutField (field ++ '\n' :: rest) = (field, rest) := by
  induction field with
  | nil => simp [cutField, solid]
  | cons char field ih =>
    simp only [folds, Bool.and_eq_true, Bool.or_eq_true, bne_iff_ne, ne_eq] at folded
    have goes_on : ¬ (char = '\n' ∧ (field ++ '\n' :: rest).head?.any isBlank = false) := by
      rintro ⟨feed, apart⟩
      have blank := folded.1.resolve_left (not_not.mpr feed)
      cases field with
      | nil => cases blank
      | cons next field => rw [List.cons_append] at apart; exact absurd blank (by simpa using apart)
    rw [List.cons_append, cutField, if_neg goes_on, ih folded.2]

/-- A field that does not fold is read short. -/
theorem cut_broken (broken : folds field = false) : (cutField (field ++ '\r' :: rest)).1.length < field.length:= by
  induction field with
  | nil => cases broken
  | cons char field ih =>
    rw [List.cons_append, cutField]
    split
    next => exact Nat.succ_pos _
    next goes_on =>
      refine Nat.succ_lt_succ (ih ?_)
      rw [folds, Bool.and_eq_false_iff] at broken
      refine broken.resolve_left (fun breaks => goes_on ?_)
      simp only [Bool.or_eq_false_iff, bne_eq_false_iff_eq] at breaks
      refine ⟨breaks.1, ?_⟩
      cases field with
      | nil => rfl
      | cons next field => exact breaks.2

theorem chomp_length (line : Text) : (chomp line).length ≤ line.length := by
  unfold chomp
  split
  next => rw [List.length_dropLast]; exact Nat.sub_le _ _
  next => exact Nat.le_refl _

theorem section_solid (opens : ∀ field ∈ fields, Opens field) : (sectionText fields body).head?.any isBlank = false:= by
  cases fields with
  | nil => rfl
  | cons field fields =>
    obtain ⟨char, rest, rfl, solid, -⟩ := opens field List.mem_cons_self
    exact solid

/-- A section gives back the fields it was written from exactly where each of them folds. -/
theorem readFields_section (opens : ∀ field ∈ fields, Opens field) :
    readFields (sectionText fields body) = fields <-> ∀ field ∈ fields, folds field = true := by
  induction fields with
  | nil =>
    rw [readFields_ends _ rfl]
    exact iff_of_true rfl (by simp)
  | cons field fields ih =>
    obtain ⟨char, rest, rfl, solid, not_cr, not_lf⟩ := opens field List.mem_cons_self
    have behind := fun field inside => opens field (List.mem_cons_of_mem _ inside)
    have text : sectionText ((char :: rest) :: fields) body =
        char :: (rest ++ '\r' :: '\n' :: sectionText fields body) := by simp [sectionText]
    have more : ends (char :: (rest ++ '\r' :: '\n' :: sectionText fields body)) = false := by
      unfold ends
      split
      next none => cases none
      next same => exact absurd (List.cons_eq_cons.mp same).1 not_lf
      next same => exact absurd (List.cons_eq_cons.mp same).1 not_cr
      next => rfl
    rw [text, readFields_more _ _ more, List.forall_mem_cons]
    by_cases folded : folds (char :: rest) = true
    case pos =>
      have carriage : folds (char :: rest ++ ['\r']) = true := by rw [folds_append _ _ folded]; rfl
      have cut := cut_folded (char :: rest ++ ['\r']) (sectionText fields body) carriage (section_solid fields body behind)
      rw [show char :: (rest ++ '\r' :: '\n' :: sectionText fields body) =
        char :: rest ++ ['\r'] ++ '\n' :: sectionText fields body by simp, cut]
      have line : chomp (char :: rest ++ ['\r']) = char :: rest := by
        rw [chomp, if_pos List.getLast?_concat, List.dropLast_concat]
      rw [line, List.cons_eq_cons, ih behind]
      simp [folded]
    case neg =>
      rw [Bool.not_eq_true] at folded
      have short := cut_broken (char :: rest) ('\n' :: sectionText fields body) folded
      refine iff_of_false (fun same => ?_) (by simp [folded])
      have length := congrArg List.length (List.cons_eq_cons.mp same).1
      have less := chomp_length (cutField (char :: (rest ++ '\r' :: '\n' :: sectionText fields body))).1
      rw [List.cons_append] at short
      omega

end Postio.Fields

import Mathlib.Data.List.Basic
import Postio.Lib.Lines

set_option autoImplicit false

namespace Postio.Markup

/-! Text with tags in it, written with the signs of markup escaped, and read back. -/

abbrev Text := List Char

def escapeChar : Char -> Text
  | '&' => "&amp;".toList
  | '<' => "&lt;".toList
  | '>' => "&gt;".toList
  | '"' => "&quot;".toList
  | char => [char]

variable (text : Text)

def escape : Text := text.flatMap escapeChar

/-- What a text of markup is made of: the inside of a tag, or a character between tags. -/
inductive Token where
  | tag (inside : Text)
  | sign (char : Char)
  deriving DecidableEq

def Token.spell : Token -> Text
  | tag inside => '<' :: (inside ++ ['>'])
  | sign char => escapeChar char

def spell (tokens : List Token) : Text := tokens.flatMap Token.spell

/-- The signs of markup that an escape spells, and how many characters it has behind the ampersand. -/
def entity : Option (Char × Nat) :=
  if "amp;".toList.isPrefixOf text then some ('&', 4)
  else if "lt;".toList.isPrefixOf text then some ('<', 3)
  else if "gt;".toList.isPrefixOf text then some ('>', 3)
  else if "quot;".toList.isPrefixOf text then some ('"', 5)
  else none

/-- A text of markup read. A sign of markup outside a tag, a tag within a tag and an ampersand that escapes nothing are refused. -/
def read (text : Text) : Option (List Token) :=
  match text with
  | [] => some []
  | char :: rest =>
    if char = '<' then
      let inside := rest.takeWhile (fun next => next != '<' && next != '>')
      if (rest.drop inside.length).head? = some '>' then
        (read (rest.drop (inside.length + 1))).map (.tag inside :: ·)
      else none
    else if char = '&' then
      match entity rest with
      | some (sign, length) => (read (rest.drop length)).map (.sign sign :: ·)
      | none => none
    else if char = '>' ∨ char = '"' then none
    else (read rest).map (.sign char :: ·)
termination_by text.length
decreasing_by all_goals simp only [List.length_drop, List.length_cons]; omega

def Inside : Prop := ∀ char ∈ text, char ≠ '<' ∧ char ≠ '>'

def Sound (tokens : List Token) : Prop := ∀ text, Token.tag text ∈ tokens -> Inside text

theorem escape_plain : ∀ char ∈ escape text, char ≠ '<' ∧ char ≠ '>' ∧ char ≠ '"' := by
  intro char inside
  obtain ⟨sign, -, among⟩ := List.mem_flatMap.mp inside
  unfold escapeChar at among
  split at among
  case h_5 amp lt gt quot =>
    obtain rfl := List.mem_singleton.mp among
    exact ⟨lt, gt, quot⟩
  all_goals exact @Lines.forall_of_all Char (fun sign => sign ≠ '<' ∧ sign ≠ '>' ∧ sign ≠ '"') _ _ (by decide) char among

theorem read_tag (inside : Text) (rest : Text) (sound : Inside inside) :
    read ('<' :: (inside ++ '>' :: rest)) = (read rest).map (.tag inside :: ·) := by
  have cut : (inside ++ '>' :: rest).takeWhile (fun next => next != '<' && next != '>') = inside := by
    rw [List.takeWhile_append_of_pos (fun char among => by simp [sound char among])]
    simp
  rw [read.eq_def]
  simp only [if_true, cut, List.drop_left, List.head?_cons, ← List.drop_drop, List.drop_succ_cons, List.drop_zero]

theorem read_char (char : Char) (rest : Text) : read (escapeChar char ++ rest) = (read rest).map (.sign char :: ·) := by
  have entities : entity ("amp;".toList ++ rest) = some ('&', 4) ∧ entity ("lt;".toList ++ rest) = some ('<', 3) ∧
      entity ("gt;".toList ++ rest) = some ('>', 3) ∧ entity ("quot;".toList ++ rest) = some ('"', 5) := by
    simp [entity, List.isPrefixOf]
  obtain ⟨amp, lt, gt, quot⟩ := entities
  unfold escapeChar
  split
  next =>
    change read ('&' :: ("amp;".toList ++ rest)) = _
    rw [read.eq_def]
    simp only [amp]
    rfl
  next =>
    change read ('&' :: ("lt;".toList ++ rest)) = _
    rw [read.eq_def]
    simp only [lt]
    rfl
  next =>
    change read ('&' :: ("gt;".toList ++ rest)) = _
    rw [read.eq_def]
    simp only [gt]
    rfl
  next =>
    change read ('&' :: ("quot;".toList ++ rest)) = _
    rw [read.eq_def]
    simp only [quot]
    rfl
  next amp lt gt quot =>
    rw [List.singleton_append, read.eq_def]
    simp only [if_neg lt, if_neg amp, if_neg (show ¬ (char = '>' ∨ char = '"') from fun either => either.elim gt quot)]

/-- What is spelled is read back. -/
theorem read_spell (tokens : List Token) (sound : Sound tokens) : read (spell tokens) = some tokens := by
  induction tokens with
  | nil =>
    rw [read.eq_def]
    rfl
  | cons token tokens ih =>
    have further := ih (fun text inside => sound text (List.mem_cons_of_mem _ inside))
    cases token with
    | tag inside =>
      have here : spell (.tag inside :: tokens) = '<' :: (inside ++ '>' :: spell tokens) := by simp [spell, Token.spell]
      rw [here, read_tag inside _ (sound inside List.mem_cons_self), further]
      rfl
    | sign char =>
      change read (escapeChar char ++ spell tokens) = _
      rw [read_char, further]
      rfl

theorem spell_append (front back : List Token) : spell (front ++ back) = spell front ++ spell back := List.flatMap_append

theorem spell_chars : spell (text.map .sign) = escape text := by
  rw [spell, List.flatMap_map]
  rfl

end Postio.Markup

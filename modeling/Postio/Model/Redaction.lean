import Mathlib.Data.List.DropRight
import Postio.Lib.Lines
import Postio.Smtp.Session

set_option autoImplicit false

namespace Postio.Redaction

/-! Log texts with the local parts of their addresses left out. -/

def ellipsis : Char := '…'

/-- `atext` and the dot. -/
def isLocalPartChar (char : Char) : Bool := char.isAlphanum || "!#$%&'*+-/=?^_`\x7b|\x7d~.".toList.contains char

variable (out : List Char) (protocol : Smtp.Protocol) (piece : List Char) (pieces : List (List Char))
    (text part : List Char)

/-- One turn of the loop, over what is written so far. -/
def write (char : Char) : List Char :=
  if char ≠ '@' then out ++ [char]
  else
    let part := out.rtakeWhile isLocalPartChar
    if 0 < part.length then out.take (out.length - part.length) ++ [ellipsis] ++ ['@'] else out ++ ['@']

def redactAddresses : List Char := if '@' ∉ text then text else text.foldl write []

def HoldsAddress : Prop :=
  ∃ before address after mailbox, text = before ++ (address ++ after) ∧ Smtp.parseMailbox protocol address = .ok mailbox

/-- An address of a text: its local part in one text and in another, and what follows its `@` in both. -/
structure Mention where
  first : List Char
  second : List Char
  behind : List Char

def Mention.firstText (mention : Mention) : List Char := mention.first ++ '@' :: mention.behind

def Mention.secondText (mention : Mention) : List Char := mention.second ++ '@' :: mention.behind

def Hidden : Prop := part ≠ [] ∧ ∀ char ∈ part, isLocalPartChar char = true

/-! ### One address -/

theorem sign_apart : isLocalPartChar '@' = false := by decide

theorem write_plain (plain : '@' ∉ text) : text.foldl write out = out ++ text := by
  induction text generalizing out with
  | nil => simp
  | cons char text ih =>
    have other : char ≠ '@' := fun same => plain (same ▸ List.mem_cons_self)
    rw [List.foldl_cons, ih _ (fun inside => plain (List.mem_cons_of_mem _ inside))]
    unfold write
    rw [if_pos other, List.append_assoc]
    rfl

theorem write_sign : write out '@' =
    if out.rtakeWhile isLocalPartChar = [] then out ++ ['@'] else out.rdropWhile isLocalPartChar ++ [ellipsis, '@'] := by
  have split : out.rdropWhile isLocalPartChar ++ out.rtakeWhile isLocalPartChar = out := List.rdropWhile_append_rtakeWhile
  have length := congrArg List.length split
  rw [List.length_append] at length
  have front : out.take (out.length - (out.rtakeWhile isLocalPartChar).length) = out.rdropWhile isLocalPartChar := by
    conv_lhs => arg 2; rw [← split]
    rw [show out.length - (out.rtakeWhile isLocalPartChar).length = (out.rdropWhile isLocalPartChar).length by omega,
      List.take_left]
  unfold write
  rw [if_neg (by simp)]
  by_cases empty : out.rtakeWhile isLocalPartChar = []
  case pos => simp [empty]
  case neg =>
    rw [if_pos (List.length_pos_iff.mpr empty), if_neg empty, front]
    simp

theorem rdropWhile_hidden (hidden : Hidden part) :
    (out ++ part).rdropWhile isLocalPartChar = out.rdropWhile isLocalPartChar ∧
      (out ++ part).rtakeWhile isLocalPartChar ≠ [] := by
  obtain ⟨some_char, every⟩ := hidden
  constructor
  next =>
    unfold List.rdropWhile
    rw [List.reverse_append, List.dropWhile_append_of_pos (fun char inside => every char (List.mem_reverse.mp inside))]
  next =>
    obtain ⟨front, last, rfl⟩ := (List.eq_nil_or_concat part).resolve_left some_char
    rw [List.concat_eq_append] at every ⊢
    have passed := every last (by simp)
    rw [← List.append_assoc, List.rtakeWhile_concat_pos _ _ _ passed]
    simp

theorem write_hidden (hidden : Hidden part) :
    (part ++ ['@']).foldl write out = out.rdropWhile isLocalPartChar ++ [ellipsis, '@'] := by
  have plain : '@' ∉ part := by
    intro inside
    have passed := hidden.2 '@' inside
    rw [sign_apart] at passed
    cases passed
  obtain ⟨front, some_part⟩ := rdropWhile_hidden out part hidden
  rw [List.foldl_append, write_plain out part plain, List.foldl_cons, List.foldl_nil, write_sign, if_neg some_part, front]

theorem write_mentions (mentions : List Mention) (hidden : ∀ mention ∈ mentions, Hidden mention.first ∧ Hidden mention.second) :
    (mentions.flatMap Mention.firstText).foldl write out = (mentions.flatMap Mention.secondText).foldl write out := by
  induction mentions generalizing out with
  | nil => rfl
  | cons mention mentions ih =>
    obtain ⟨first, second⟩ := hidden mention List.mem_cons_self
    have written : ∀ part, Hidden part -> (part ++ '@' :: mention.behind).foldl write out =
        mention.behind.foldl write (out.rdropWhile isLocalPartChar ++ [ellipsis, '@']) := by
      intro part part_hidden
      rw [List.append_cons part '@' mention.behind, List.foldl_append, write_hidden out part part_hidden]
    rw [List.flatMap_cons, List.flatMap_cons, List.foldl_append, List.foldl_append]
    rw [show mention.firstText.foldl write out = _ from written mention.first first,
      show mention.secondText.foldl write out = _ from written mention.second second]
    exact ih _ (fun other inside => hidden other (List.mem_cons_of_mem _ inside))

/-! ### What is left alone -/

theorem write_keeps (kept tail text : List Char) : ∃ more, text.foldl write (kept ++ '@' :: tail) = kept ++ '@' :: more := by
  induction text generalizing tail with
  | nil => exact ⟨tail, rfl⟩
  | cons char text ih =>
    have once : ∃ further, write (kept ++ '@' :: tail) char = kept ++ '@' :: further := by
      by_cases sign : char = '@'
      case neg =>
        refine ⟨tail ++ [char], ?_⟩
        unfold write
        rw [if_pos sign]
        simp
      case pos =>
        rw [sign, write_sign]
        split
        next => exact ⟨tail ++ ['@'], by simp⟩
        next =>
          have front : (kept ++ '@' :: tail).rdropWhile isLocalPartChar = kept ++ '@' :: tail.rdropWhile isLocalPartChar := by
            unfold List.rdropWhile
            rw [List.reverse_append, List.reverse_cons, List.append_assoc, List.dropWhile_append]
            split
            next empty =>
              rw [List.singleton_append, List.dropWhile_cons_of_neg (by simp [sign_apart]), List.isEmpty_iff.mp empty]
              simp
            next => simp
          exact ⟨tail.rdropWhile isLocalPartChar ++ [ellipsis, '@'], by rw [front]; simp⟩
    obtain ⟨further, written⟩ := once
    rw [List.foldl_cons, written]
    exact ih further

def Bare : Prop :=
  ∀ before after, text = before ++ '@' :: after -> ∀ char ∈ before.getLast?, isLocalPartChar char = false

theorem write_bare (bare : ∀ before after, text = before ++ '@' :: after -> ∀ char ∈ (out ++ before).getLast?, isLocalPartChar char = false) :
    text.foldl write out = out ++ text := by
  induction text generalizing out with
  | nil => simp
  | cons char text ih =>
    have further : ∀ before after, text = before ++ '@' :: after ->
        ∀ last ∈ (out ++ [char] ++ before).getLast?, isLocalPartChar last = false := by
      intro before after split last ends
      apply bare (char :: before) after (by rw [split]; rfl) last
      simpa using ends
    have once : write out char = out ++ [char] := by
      by_cases sign : char = '@'
      case neg =>
        unfold write
        rw [if_pos sign]
      case pos =>
        subst sign
        rw [write_sign, if_pos]
        rcases List.eq_nil_or_concat out with rfl | ⟨front, last, rfl⟩
        next => rfl
        next =>
          rw [List.concat_eq_append] at bare ⊢
          have stops := bare [] text rfl last (by simp)
          exact List.rtakeWhile_concat_neg _ _ _ (by simp [stops])
    rw [List.foldl_cons, once, ih _ further, List.append_assoc]
    rfl

theorem redactAddresses_write : redactAddresses text = text.foldl write [] := by
  unfold redactAddresses
  split
  next plain => rw [write_plain [] text plain, List.nil_append]
  next => rfl

theorem bare_or_first : Bare text ∨ ∃ before after, text = before ++ '@' :: after ∧
    (∃ char ∈ before.getLast?, isLocalPartChar char = true) ∧ Bare before := by
  induction text using List.reverseRecOn with
  | nil => exact .inl (fun before after split => by simp at split)
  | append_singleton text last ih =>
    rcases ih with bare | ⟨before, after, rfl, follows, bare⟩
    next =>
      by_cases fresh : last = '@' ∧ ∃ char ∈ text.getLast?, isLocalPartChar char = true
      case pos => exact .inr ⟨text, [], by rw [fresh.1], fresh.2, bare⟩
      case neg =>
        left
        intro before after split char ends
        rcases List.eq_nil_or_concat after with rfl | ⟨front, final, rfl⟩
        next =>
          obtain ⟨rfl, same⟩ := List.append_inj' split rfl
          rw [Bool.eq_false_iff]
          exact fun passed => fresh ⟨List.singleton_inj.mp same, char, ends, passed⟩
        next =>
          rw [List.concat_eq_append, ← List.cons_append, ← List.append_assoc] at split
          exact bare before front (List.append_inj' split rfl).1 char ends
    next => exact .inr ⟨before, after ++ [last], by simp, follows, bare⟩

theorem redactAddresses_same_iff : redactAddresses text = text <-> Bare text := by
  rw [redactAddresses_write]
  constructor
  next =>
    intro same
    rcases bare_or_first text with bare | ⟨before, after, rfl, ⟨char, ends, passed⟩, bare⟩
    next => exact bare
    next =>
      exfalso
      obtain ⟨front, rfl⟩ : ∃ front, before = front ++ [char] := by
        rcases List.eq_nil_or_concat before with rfl | ⟨front, last, rfl⟩
        next => cases ends
        next =>
          rw [List.concat_eq_append] at ends ⊢
          exact ⟨front, by simpa using ends⟩
      have kept := write_bare [] (front ++ [char]) (fun earlier later split => bare earlier later split)
      rw [List.foldl_append, kept, List.nil_append, List.foldl_cons, write_sign, if_neg] at same
      next =>
        -- What is written ends in an ellipsis where the text has a character of a local part.
        obtain ⟨more, written⟩ := write_keeps ((front ++ [char]).rdropWhile isLocalPartChar ++ [ellipsis]) [] after
        rw [List.append_assoc, List.singleton_append] at written
        rw [written] at same
        have whole : (front ++ [char]).rdropWhile isLocalPartChar ++ (front ++ [char]).rtakeWhile isLocalPartChar = front ++ [char] :=
          List.rdropWhile_append_rtakeWhile
        conv_rhs at same => rw [← whole]
        rw [List.append_assoc, List.append_assoc] at same
        have behind := List.append_cancel_left same
        cases taken : (front ++ [char]).rtakeWhile isLocalPartChar with
        | nil =>
          rw [List.rtakeWhile_concat_pos _ _ _ passed] at taken
          simp at taken
        | cons first others =>
          rw [taken] at behind
          have mark : ellipsis = first := by simpa using (List.cons_eq_cons.mp behind).1
          have inside : first ∈ (front ++ [char]).rtakeWhile isLocalPartChar := by rw [taken]; exact List.mem_cons_self
          have local_char := List.mem_rtakeWhile_imp inside
          rw [← mark] at local_char
          exact absurd local_char (by decide)
      next =>
        rw [List.rtakeWhile_concat_pos _ _ _ passed]
        simp
  next => exact fun bare => by rw [write_bare [] text (fun before after split => by simpa using bare before after split), List.nil_append]

theorem splitAddress_whole (address : List Char) (parts : List Char × List Char) (split : Smtp.splitAddress address = some parts) :
    address = parts.1 ++ '@' :: parts.2 := by
  unfold Smtp.splitAddress at split
  split at split
  next inside =>
    cases split
    have whole := List.takeWhile_append_dropWhile (p := fun char : Char => decide (char ≠ '@')) (l := address)
    cases rest : address.dropWhile (fun char => decide (char ≠ '@')) with
    | nil =>
      have passed := List.dropWhile_eq_nil_iff.mp rest '@' inside
      simp at passed
    | cons char rest' =>
      have sign := List.head?_dropWhile_not (fun char : Char => decide (char ≠ '@')) address
      rw [rest] at sign whole
      obtain rfl : char = '@' := by simpa using sign
      exact whole.symm
  next => cases split

theorem parseMailbox_domain (address : List Char) (mailbox : Smtp.Mailbox)
    (parsed : Smtp.parseMailbox protocol address = .ok mailbox) :
    ∃ part char domain, address = part ++ '@' :: char :: domain ∧ Smtp.isWhitespace char = false := by
  unfold Smtp.parseMailbox at parsed
  split at parsed
  next => cases parsed
  next part domain split =>
    have whole := splitAddress_whole address (part, domain) split
    split at parsed
    next => cases parsed
    next filled =>
      split at parsed
      next => cases parsed
      next safe =>
        cases domain with
        | nil => simp at filled
        | cons char domain =>
          refine ⟨part, char, domain, whole, ?_⟩
          simp only [Smtp.isSafeAddressComponent, List.all_cons] at safe
          cases blank : Smtp.isWhitespace char with
          | false => rfl
          | true => simp [blank] at safe

theorem tells_apart (ascii : protocol.domainToAscii "example.com".toList = some "example.com".toList) :
    ((∃ mailbox, Smtp.parseMailbox protocol "jos\u00e9@example.com".toList = .ok mailbox) ∧
      (∃ mailbox, Smtp.parseMailbox protocol "zo\u00eb@example.com".toList = .ok mailbox) ∧
      redactAddresses "jos\u00e9@example.com".toList ≠ redactAddresses "zo\u00eb@example.com".toList) ∧
    ¬ HoldsAddress protocol "foo@ bar".toList ∧ redactAddresses "foo@ bar".toList ≠ "foo@ bar".toList := by
  have accepted : ∀ part address, Smtp.splitAddress address = some (part, "example.com".toList) -> part.isEmpty = false ->
      Smtp.isSafeAddressComponent part = true -> ∃ mailbox, Smtp.parseMailbox protocol address = .ok mailbox := by
    intro part address split filled safe
    have domain_safe : Smtp.isSafeAddressComponent "example.com".toList = true := by decide +kernel
    have domain_filled : "example.com".toList.isEmpty = false := by decide
    refine ⟨⟨part, "example.com".toList⟩, ?_⟩
    unfold Smtp.parseMailbox
    simp only [split, filled, domain_filled, safe, domain_safe, ascii]
    rfl
  refine ⟨⟨?_, ?_, by decide +kernel⟩, ?_, by decide +kernel⟩
  next => exact accepted "jos\u00e9".toList _ (by decide +kernel) (by decide) (by decide +kernel)
  next => exact accepted "zo\u00eb".toList _ (by decide +kernel) (by decide) (by decide +kernel)
  next =>
    rintro ⟨before, address, after, mailbox, split, parsed⟩
    obtain ⟨part, char, domain, rfl, solid⟩ := parseMailbox_domain protocol address mailbox parsed
    have read : Lines.splitOnce '@' "foo@ bar".toList = some ("foo".toList, " bar".toList) := by decide +kernel
    have single : List.count '@' "foo@ bar".toList = 1 := by decide +kernel
    rw [split] at read single
    have apart : '@' ∉ before ++ part := by
      intro inside
      have counted := List.count_pos_iff.mpr inside
      simp only [List.count_append, List.count_cons_self] at counted single
      omega
    have whole : before ++ (part ++ '@' :: char :: domain ++ after) = (before ++ part) ++ '@' :: (char :: domain ++ after) := by simp
    rw [whole, Lines.splitOnce_append '@' _ _ apart] at read
    have behind : char :: domain ++ after = " bar".toList := (Prod.mk.inj (Option.some.inj read)).2
    obtain rfl : char = ' ' := (List.cons_eq_cons.mp behind).1
    exact absurd solid (by decide)

def done {Fault : Type} : SansIo.Coroutine UInt8 Unit Fault := { State := Unit, start := (), resume := fun _ _ => .complete (.ok ()) }

def plainProtocol : Smtp.Protocol := { mail := fun _ _ => done, rcpt := fun _ => done, data := fun _ => done, domainToAscii := some }

/-- A piece of a log text that stands before an `@`. -/
def hide : List Char :=
  if piece.rtakeWhile isLocalPartChar = [] then piece else piece.rdropWhile isLocalPartChar ++ [ellipsis]

def hideAll : List (List Char) -> List (List Char)
  | [] => []
  | [last] => [last]
  | piece :: next :: more => hide piece :: hideAll (next :: more)

theorem hide_signless (apart : '@' ∉ piece) : '@' ∉ hide piece := by
  unfold hide
  split
  next => exact apart
  next =>
    intro inside
    rcases List.mem_append.mp inside with front | mark
    next => exact apart ((List.rdropWhile_prefix isLocalPartChar piece).subset front)
    next => exact absurd (List.mem_singleton.mp mark) (by decide)

theorem hide_hide : hide (hide piece) = hide piece := by
  by_cases bare : piece.rtakeWhile isLocalPartChar = []
  case pos => simp only [hide, if_pos bare]
  case neg =>
    have mark : isLocalPartChar ellipsis = false := by decide
    have none : (piece.rdropWhile isLocalPartChar ++ [ellipsis]).rtakeWhile isLocalPartChar = [] :=
      List.rtakeWhile_concat_neg _ _ _ (by simp [mark])
    simp only [hide, if_neg bare, if_pos none]

theorem hideAll_signless (apart : ∀ piece ∈ pieces, '@' ∉ piece) :
    ∀ piece ∈ hideAll pieces, '@' ∉ piece := by
  induction pieces with
  | nil => exact apart
  | cons piece more ih =>
    obtain ⟨here, behind⟩ := List.forall_mem_cons.mp apart
    cases more with
    | nil => exact apart
    | cons next more => exact List.forall_mem_cons.mpr ⟨hide_signless piece here, ih behind⟩

theorem hideAll_hideAll : hideAll (hideAll pieces) = hideAll pieces := by
  induction pieces with
  | nil => rfl
  | cons piece more ih =>
    cases more with
    | nil => rfl
    | cons next more =>
      obtain ⟨first, others, split⟩ : ∃ first others, hideAll (next :: more) = first :: others := by
        cases more <;> exact ⟨_, _, rfl⟩
      change hideAll (hide piece :: hideAll (next :: more)) = hide piece :: hideAll (next :: more)
      rw [split] at ih ⊢
      change hide (hide piece) :: hideAll (first :: others) = _
      rw [hide_hide, ih]

theorem hideAll_filled (filled : pieces ≠ []) : hideAll pieces ≠ [] := by
  fun_cases hideAll pieces with
  | case1 => exact absurd rfl filled
  | case2 => exact List.cons_ne_nil _ _
  | case3 => exact List.cons_ne_nil _ _

theorem behind_fresh (fresh : out.rtakeWhile isLocalPartChar = []) :
    (out ++ piece).rtakeWhile isLocalPartChar = piece.rtakeWhile isLocalPartChar ∧
      (out ++ piece).rdropWhile isLocalPartChar = out ++ piece.rdropWhile isLocalPartChar := by
  have taken : (out ++ piece).rtakeWhile isLocalPartChar = piece.rtakeWhile isLocalPartChar := by
    induction piece using List.reverseRecOn with
    | nil => simpa using fresh
    | append_singleton front last ih => rw [← List.append_assoc, List.rtakeWhile_concat, List.rtakeWhile_concat, ih]
  refine ⟨taken, ?_⟩
  have whole : (out ++ piece).rdropWhile isLocalPartChar ++ (out ++ piece).rtakeWhile isLocalPartChar = out ++ piece :=
    List.rdropWhile_append_rtakeWhile
  have parts : out ++ piece = (out ++ piece.rdropWhile isLocalPartChar) ++ piece.rtakeWhile isLocalPartChar := by
    rw [List.append_assoc, List.rdropWhile_append_rtakeWhile]
  rw [taken] at whole
  exact List.append_cancel_right (whole.trans parts)

/-- The loop takes an address at a time: behind an `@` it never looks at what is written before it. -/
theorem write_pieces (apart : ∀ piece ∈ pieces, '@' ∉ piece) (fresh : out.rtakeWhile isLocalPartChar = []) :
    (List.intercalate ['@'] pieces).foldl write out = out ++ List.intercalate ['@'] (hideAll pieces) := by
  induction pieces generalizing out with
  | nil => simp [hideAll]
  | cons piece more ih =>
    obtain ⟨here, behind⟩ := List.forall_mem_cons.mp apart
    cases more with
    | nil => simpa [hideAll] using write_plain out piece here
    | cons next more =>
      have signed : write (out ++ piece) '@' = out ++ hide piece ++ ['@'] := by
        obtain ⟨taken, left⟩ := behind_fresh out piece fresh
        rw [write_sign, taken, left]
        unfold hide
        split
        next => rfl
        next => simp
      have stops : (out ++ hide piece ++ ['@']).rtakeWhile isLocalPartChar = [] :=
        List.rtakeWhile_concat_neg _ _ _ (by simp [sign_apart])
      obtain ⟨first, others, split⟩ : ∃ first others, hideAll (next :: more) = first :: others := by
        cases more <;> exact ⟨_, _, rfl⟩
      have rest := ih (out ++ hide piece ++ ['@']) behind stops
      have whole : hideAll (piece :: next :: more) = hide piece :: hideAll (next :: more) := rfl
      rw [List.intercalate_cons_cons, List.foldl_append, List.foldl_append, write_plain out piece here, List.foldl_cons,
        List.foldl_nil, signed, rest, whole, split, List.intercalate_cons_cons]
      simp

/-- A log text is told address by address: of each piece before an `@` the local part it ends in is left out, whatever stands
around it, and a text that was told so already stays as it is. -/
theorem redactAddresses_pieces : (redactAddresses text).splitOn '@' = hideAll (text.splitOn '@') ∧
      redactAddresses (redactAddresses text) = redactAddresses text := by
  have apart (text : List Char) : ∀ piece ∈ text.splitOn '@', '@' ∉ piece := by
    intro piece inside sign
    simpa using Lines.splitOnP_clear (· == '@') text piece inside '@' sign
  have told (text : List Char) : redactAddresses text = List.intercalate ['@'] (hideAll (text.splitOn '@')) := by
    have written := write_pieces [] (text.splitOn '@') (apart text) rfl
    rw [List.intercalate_splitOn, List.nil_append] at written
    rw [redactAddresses_write, written]
  have split : (redactAddresses text).splitOn '@' = hideAll (text.splitOn '@') := by
    rw [told text]
    exact List.splitOn_intercalate '@' (hideAll_signless _ (apart text)) (hideAll_filled _ (List.splitOn_ne_nil _ _))
  refine ⟨split, ?_⟩
  rw [told (redactAddresses text), split, hideAll_hideAll, ← told text]

end Postio.Redaction

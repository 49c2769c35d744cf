import Mathlib.Data.List.Nodup
import Mathlib.Data.List.Forall2
import Postio.Lib.Lines

set_option autoImplicit false

namespace Postio.Fetch

/-- What `BODYSTRUCTURE` says of a message, over whatever it says of one part. -/
inductive WireBodyStructure (Body : Type) where
  | single (body : Body)
  -- A single part whose fields are those of an encapsulated message.
  | message (body : Body) (bodyStructure : WireBodyStructure Body)
  -- The bodies of a multipart are never none.
  | multi (first : WireBodyStructure Body) (rest : List (WireBodyStructure Body))

structure PartNode (Body : Type) where
  partSection : List Char
  body : Body
  deriving DecidableEq

variable {Body : Type}

def u32Max : Nat := 4294967295

/-- `u32::try_from(index + 1).unwrap_or(u32::MAX)` -/
def childNumber (index : Nat) : Nat := min (index + 1) u32Max

def dotted (path : List Nat) : List Char := List.intercalate ['.'] (path.map (Nat.toDigits 10))

def sectionString (path : List Nat) : List Char := if path.isEmpty then ['1'] else dotted path

def isMulti : WireBodyStructure Body -> Bool
  | .multi _ _ => true
  | .single _ | .message _ _ => false

def isMessage : WireBodyStructure Body -> Bool
  | .message _ _ => true
  | .single _ | .multi _ _ => false

/-- The path `flatten_encapsulated` flattens the inside of a message part on. -/
def encapsulatedPath (bodyStructure : WireBodyStructure Body) (path : List Nat) : List Nat :=
  match bodyStructure with
  | .multi _ _ => path
  | .single _ | .message _ _ => path ++ [1]

mutual

def flatten : WireBodyStructure Body -> List Nat -> List (PartNode Body)
  | .multi first rest, path => flatten first (path ++ [childNumber 0]) ++ flattenFrom 1 rest path
  | .single body, path => [{ partSection := sectionString path, body }]
  | .message body bodyStructure, path =>
    { partSection := sectionString path, body } :: flatten bodyStructure (encapsulatedPath bodyStructure path)

def flattenFrom (index : Nat) : List (WireBodyStructure Body) -> List Nat -> List (PartNode Body)
  | [], _ => []
  | child :: rest, path => flatten child (path ++ [childNumber index]) ++ flattenFrom (index + 1) rest path

end

/-! Where a part stands, and the number RFC 3501 gives it there. -/

inductive Turn where
  | child (index : Nat)
  | inner
  deriving DecidableEq

def partAt : WireBodyStructure Body -> List Turn -> Option (WireBodyStructure Body)
  | part, [] => some part
  | .multi first rest, .child index :: turns => ((first :: rest)[index]?).bind (fun child => partAt child turns)
  | .message _ bodyStructure, .inner :: turns => partAt bodyStructure turns
  | _, _ :: _ => none

def ownBody : WireBodyStructure Body -> Option Body
  | .single body | .message body _ => some body
  | .multi _ _ => none

variable (first : WireBodyStructure Body) (number : List Nat) (root content : WireBodyStructure Body)
    (rest : List (WireBodyStructure Body)) (turns : List Turn) (body : Body)

def bodyAt : Option Body := (partAt root turns).bind ownBody

/-- Document order: a wrapper before what it holds, and children as they are listed. -/
def Before : List Turn -> List Turn -> Prop
  | [], _ :: _ => True
  | .child index :: turns, .child other :: others => index < other ∨ index = other ∧ Before turns others
  | .inner :: turns, .inner :: others => Before turns others
  | _, _ => False

def messageNumber : List Nat :=
  if isMulti content then number else number ++ [1]

/-- The number of the part at a place, below a part of a given number. -/
def numberAt (number : List Nat) : WireBodyStructure Body -> List Turn -> List Nat
  | _, [] => number
  | .multi first rest, .child index :: turns =>
    match (first :: rest)[index]? with
    | some child => numberAt (number ++ [index + 1]) child turns
    | none => []
  | .message _ content, .inner :: turns => numberAt (messageNumber number content) content turns
  | _, _ :: _ => []

def rfcNumber : List Nat :=
  numberAt (messageNumber [] root) root turns

/-- What the flattened list promises of the structure it came from. -/
structure Numbered (root : WireBodyStructure Body) (parts : List (PartNode Body)) : Prop where
  listed : ∃ places : List (List Turn), (forall turns, turns ∈ places ↔ (bodyAt root turns).isSome) ∧
    places.Pairwise Before ∧
    List.Forall₂ (fun part turns => bodyAt root turns = some part.body ∧
      part.partSection = dotted (rfcNumber root turns)) parts places
  distinct : (parts.map PartNode.partSection).Nodup

mutual

def listing : WireBodyStructure Body -> List (List Turn × Body)
  | .multi first rest => (listing first).map (fun entry => (.child 0 :: entry.1, entry.2)) ++ listingFrom 1 rest
  | .single body => [([], body)]
  | .message body content => ([], body) :: (listing content).map (fun entry => (.inner :: entry.1, entry.2))

def listingFrom (index : Nat) : List (WireBodyStructure Body) -> List (List Turn × Body)
  | [] => []
  | child :: rest =>
    (listing child).map (fun entry => (.child index :: entry.1, entry.2)) ++ listingFrom (index + 1) rest

end

theorem byParts {motive : WireBodyStructure Body -> Prop} (single : forall body, motive (.single body))
    (message : forall body content, motive content -> motive (.message body content))
    (multi : forall first rest, (∀ child ∈ first :: rest, motive child) -> motive (.multi first rest))
    (root : WireBodyStructure Body) : motive root :=
  match root with
  | .single body => single body
  | .message body content => message body content (byParts single message multi content)
  | .multi first rest => multi first rest (fun child _inside => byParts single message multi child)
termination_by sizeOf root
decreasing_by
  · simp_wf
  · simp_wf
    rcases List.mem_cons.mp _inside with rfl | later
    next => omega
    next =>
      have smaller := List.sizeOf_lt_of_mem later
      omega

theorem flattenFrom_eq (index : Nat) (children : List (WireBodyStructure Body)) (path : List Nat) :
    flattenFrom index children path =
      (children.zipIdx index).flatMap (fun child => flatten child.1 (path ++ [childNumber child.2])) := by
  induction children generalizing index with
  | nil => rw [flattenFrom]; rfl
  | cons child rest ih => rw [flattenFrom, ih, List.zipIdx_cons, List.flatMap_cons]

theorem flatten_multi (path : List Nat) :
    flatten (.multi first rest) path =
      (first :: rest).zipIdx.flatMap (fun child => flatten child.1 (path ++ [childNumber child.2])) := by
  rw [flatten, flattenFrom_eq, List.zipIdx_cons, List.flatMap_cons]

theorem listingFrom_eq (index : Nat) (children : List (WireBodyStructure Body)) :
    listingFrom index children = (children.zipIdx index).flatMap
      (fun child => (listing child.1).map (fun entry => (.child child.2 :: entry.1, entry.2))) := by
  induction children generalizing index with
  | nil => rw [listingFrom]; rfl
  | cons child rest ih => rw [listingFrom, ih, List.zipIdx_cons, List.flatMap_cons]

theorem listing_multi :
    listing (.multi first rest) = (first :: rest).zipIdx.flatMap
      (fun child => (listing child.1).map (fun entry => (.child child.2 :: entry.1, entry.2))) := by
  rw [listing, listingFrom_eq, List.zipIdx_cons, List.flatMap_cons]

theorem childAt (children : List (WireBodyStructure Body)) (child : WireBodyStructure Body × Nat)
    (inside : child ∈ children.zipIdx) : children[child.2]? = some child.1 := by
  exact List.mem_zipIdx_iff_getElem?.mp inside

theorem mem_listing : (turns, body) ∈ listing root ↔ bodyAt root turns = some body:= by
  induction root using byParts generalizing turns with
  | single own =>
    rw [listing]
    cases turns with
    | nil => simp [bodyAt, partAt, ownBody, eq_comm]
    | cons turn turns => cases turn <;> simp [bodyAt, partAt]
  | message own content ih =>
    rw [listing]
    cases turns with
    | nil => simp [bodyAt, partAt, ownBody, eq_comm]
    | cons turn turns =>
      cases turn with
      | child index => simp [bodyAt, partAt]
      | inner => simpa [bodyAt, partAt] using ih turns
  | multi first rest ih =>
    rw [listing_multi]
    simp only [List.mem_flatMap, List.mem_map, Prod.mk.injEq, Prod.exists]
    cases turns with
    | nil => simp [bodyAt, partAt, ownBody]
    | cons turn turns =>
      cases turn with
      | inner => simp [bodyAt, partAt]
      | child index =>
        simp only [bodyAt, partAt]
        constructor
        next =>
          rintro ⟨child, place, inside, further, own, listed, same, rfl⟩
          cases same
          have here := childAt (first :: rest) (child, index) inside
          rw [here]
          exact (ih child (List.mem_of_getElem? here) turns).mp listed
        next =>
          intro found
          cases here : (first :: rest)[index]? with
          | none => simp [here] at found
          | some child =>
            rw [here] at found
            exact ⟨child, index, List.mem_zipIdx_iff_getElem?.mpr here, turns, body,
              (ih child (List.mem_of_getElem? here) turns).mpr found, rfl, rfl⟩

theorem Before.irrefl : ¬ Before turns turns := by
  induction turns with
  | nil => exact id
  | cons turn turns ih =>
    cases turn with
    | child index =>
      rintro (less | ⟨-, before⟩)
      next => exact Nat.lt_irrefl _ less
      next => exact ih before
    | inner => exact ih

theorem Before.apart {turns others : List Turn} (before : Before turns others) : turns ≠ others := by
  rintro rfl
  exact Before.irrefl turns before

theorem Before.asymm {turns others : List Turn} (before : Before turns others) : ¬ Before others turns := by
  induction turns generalizing others with
  | nil =>
    cases others with
    | nil => exact id
    | cons other others => cases other <;> exact id
  | cons turn turns ih =>
    cases others with
    | nil => cases turn <;> exact before.elim
    | cons other others =>
      cases turn with
      | child index =>
        cases other with
        | child place =>
          rintro (less | ⟨same, after⟩) <;> rcases before with more | ⟨equal, before⟩
          next => omega
          next => omega
          next => omega
          next => exact ih before after
        | inner => exact before.elim
      | inner =>
        cases other with
        | child place => exact before.elim
        | inner => exact ih before

theorem listing_ordered : ((listing root).map Prod.fst).Pairwise Before := by
  induction root using byParts with
  | single body =>
    rw [listing]
    exact List.pairwise_singleton _ _
  | message body content ih =>
    rw [listing, List.map_cons, List.map_map, List.pairwise_cons]
    constructor
    next =>
      intro turns inside
      obtain ⟨entry, -, rfl⟩ := List.mem_map.mp inside
      trivial
    next =>
      rw [List.pairwise_map] at ih ⊢
      exact ih
  | multi first rest ih =>
    rw [listing_multi, List.map_flatMap, List.pairwise_flatMap]
    constructor
    next =>
      intro child inside
      have here := childAt (first :: rest) child inside
      have ordered := ih child.1 (List.mem_of_getElem? here)
      rw [List.map_map, List.pairwise_map]
      rw [List.pairwise_map] at ordered
      exact ordered.imp (fun before => .inr ⟨rfl, before⟩)
    next =>
      have places : ((first :: rest).zipIdx).Pairwise (fun child other => child.2 < other.2) := by
        rw [← List.pairwise_map, List.zipIdx_map_snd]
        exact List.pairwise_lt_range' 
      apply places.imp
      intro child other less turns inside others further
      simp only [List.map_map, List.mem_map] at inside further
      obtain ⟨entry, -, rfl⟩ := inside
      obtain ⟨entry, -, rfl⟩ := further
      exact .inl less

theorem listing_nodup : ((listing root).map Prod.fst).Nodup :=
  (listing_ordered root).imp Before.apart

theorem listing_some : ∃ turns body, bodyAt root turns = some body := by
  induction root using byParts with
  | single body => exact ⟨[], body, rfl⟩
  | message body content => exact ⟨[], body, rfl⟩
  | multi first rest ih =>
    obtain ⟨turns, body, found⟩ := ih first List.mem_cons_self
    exact ⟨.child 0 :: turns, body, found⟩

theorem places_unique (places : List (List Turn))
    (complete : ∀ turns, turns ∈ places ↔ (bodyAt root turns).isSome) (ordered : places.Pairwise Before) :
    places = (listing root).map Prod.fst := by
  have nodup : places.Nodup := ordered.imp Before.apart
  apply @List.Perm.eq_of_pairwise _ Before
  next =>
    intro turns others _ _ before after
    exact absurd after before.asymm
  next => exact ordered
  next => exact listing_ordered root
  next =>
    rw [List.perm_ext_iff_of_nodup nodup (listing_nodup root)]
    intro turns
    rw [complete, Option.isSome_iff_exists, List.mem_map]
    constructor
    next =>
      rintro ⟨body, found⟩
      exact ⟨(turns, body), (mem_listing root turns body).mpr found, rfl⟩
    next =>
      rintro ⟨⟨turns, body⟩, inside, rfl⟩
      exact ⟨body, (mem_listing root turns body).mp inside⟩

def clamp (number : Nat) : Nat := min number u32Max

theorem messageNumber_path :
    encapsulatedPath content (number.map clamp) = (messageNumber number content).map clamp := by
  cases content <;> simp [encapsulatedPath, messageNumber, isMulti, clamp, u32Max]

theorem flatten_listing (number : List Nat) (below : number ≠ [] ∨ isMulti root) :
    flatten root (number.map clamp) = (listing root).map (fun entry =>
      { partSection := dotted ((numberAt number root entry.1).map clamp), body := entry.2 }) := by
  induction root using byParts generalizing number with
  | single body =>
    have some_number : number ≠ [] := below.resolve_right (by simp [isMulti])
    simp [flatten, listing, numberAt, sectionString, some_number]
  | message body content ih =>
    have some_number : number ≠ [] := below.resolve_right (by simp [isMulti])
    have inner := ih (messageNumber number content) (by
      cases content <;> simp [messageNumber, isMulti])
    rw [flatten, listing, messageNumber_path, inner]
    simp [numberAt, sectionString, some_number, Function.comp_def]
  | multi first rest ih =>
    rw [flatten_multi, listing_multi, List.map_flatMap]
    apply List.flatMap_congr
    intro child inside
    have here := childAt (first :: rest) child inside
    have clamped : number.map clamp ++ [childNumber child.2] = (number ++ [child.2 + 1]).map clamp := by
      simp [childNumber, clamp]
    rw [clamped, ih child.1 (List.mem_of_getElem? here) (number ++ [child.2 + 1]) (.inl (by simp)), List.map_map]
    apply List.map_congr_left
    intro entry _
    simp only [Function.comp_apply, numberAt, here]

theorem bodyAt_child (index : Nat)
    (turns : List Turn) (body : Body) (found : bodyAt (.multi first rest) (.child index :: turns) = some body) :
    ∃ child, (first :: rest)[index]? = some child ∧ bodyAt child turns = some body := by
  cases here : (first :: rest)[index]? with
  | none => simp [bodyAt, partAt, here] at found
  | some child => exact ⟨child, rfl, by simpa [bodyAt, partAt, here] using found⟩

theorem numberAt_append (front number : List Nat) (root : WireBodyStructure Body) (turns : List Turn) (body : Body)
    (found : bodyAt root turns = some body) :
    numberAt (front ++ number) root turns = front ++ numberAt number root turns := by
  induction turns generalizing root number with
  | nil => cases root <;> rfl
  | cons turn turns ih =>
    cases turn with
    | child index =>
      cases root with
      | single | message => cases found
      | multi first rest =>
        obtain ⟨child, here, found⟩ := bodyAt_child first rest index turns body found
        simp only [numberAt, here]
        rw [List.append_assoc]
        exact ih (number ++ [index + 1]) child found
    | inner =>
      cases root with
      | single | multi => cases found
      | message own content =>
        have shift : messageNumber (front ++ number) content = front ++ messageNumber number content := by
          unfold messageNumber
          split
          next => rfl
          next => exact List.append_assoc _ _ _
        simp only [numberAt, shift]
        exact ih (messageNumber number content) content found

theorem numberAt_from (found : bodyAt root turns = some body) : numberAt number root turns = number ++ numberAt [] root turns := by
  have shifted := numberAt_append number [] root turns body found
  rwa [List.append_nil] at shifted

theorem numberAt_child (child : WireBodyStructure Body) (rest : List (WireBodyStructure Body)) (index : Nat)
    (turns : List Turn) (body : Body) (here : (first :: rest)[index]? = some child)
    (found : bodyAt child turns = some body) :
    numberAt [] (.multi first rest) (.child index :: turns) = (index + 1) :: numberAt [] child turns := by
  simp only [numberAt, here, List.nil_append]
  exact numberAt_from [index + 1] child turns body found

theorem numberAt_inner (own : Body) (content : WireBodyStructure Body) (turns : List Turn) (body : Body)
    (found : bodyAt content turns = some body) :
    numberAt [] (.message own content) (.inner :: turns) =
      messageNumber [] content ++ numberAt [] content turns :=
  numberAt_from (messageNumber [] content) content turns body found

theorem message_longer (found : bodyAt content turns = some body) : messageNumber [] content ++ numberAt [] content turns ≠ [] := by
  cases content with
  | single | message => simp [messageNumber, isMulti]
  | multi first rest =>
    cases turns with
    | nil => cases found
    | cons turn turns =>
      cases turn with
      | inner => cases found
      | child index =>
        obtain ⟨child, here, found⟩ := bodyAt_child first rest index turns body found
        rw [numberAt_child first child rest index turns body here found]
        simp

theorem numberAt_inj (others : List Turn) (body other : Body)
    (found : bodyAt root turns = some body) (further : bodyAt root others = some other)
    (same : numberAt [] root turns = numberAt [] root others) : turns = others := by
  induction root using byParts generalizing turns others with
  | single own =>
    have leaf : ∀ turns body, bodyAt (.single own) turns = some body → turns = [] := by
      intro turns body found
      cases turns with
      | nil => rfl
      | cons turn turns => cases turn <;> cases found
    rw [leaf turns body found, leaf others other further]
  | message own content ih =>
    cases turns with
    | nil =>
      cases others with
      | nil => rfl
      | cons turn others =>
        cases turn with
        | child => cases further
        | inner =>
          rw [numberAt_inner own content others other further] at same
          exact absurd same.symm (message_longer content others other further)
    | cons turn turns =>
      cases turn with
      | child => cases found
      | inner =>
        rw [numberAt_inner own content turns body found] at same
        cases others with
        | nil => exact absurd same (message_longer content turns body found)
        | cons turn others =>
          cases turn with
          | child => cases further
          | inner =>
            rw [numberAt_inner own content others other further] at same
            rw [ih turns others found further (List.append_cancel_left same)]
  | multi first rest ih =>
    match turns, others with
    | [], _ => cases found
    | .inner :: _, _ => cases found
    | .child _ :: _, [] => cases further
    | .child _ :: _, .inner :: _ => cases further
    | .child index :: turns, .child place :: others =>
      obtain ⟨child, here, found⟩ := bodyAt_child first rest index turns body found
      obtain ⟨sibling, there, further⟩ := bodyAt_child first rest place others other further
      rw [numberAt_child first child rest index turns body here found,
        numberAt_child first sibling rest place others other there further] at same
      injection same with first_same rest_same
      cases first_same
      cases here.symm.trans there
      rw [ih child (List.mem_of_getElem? here) turns others found further rest_same]

theorem dotted_inj (other : List Nat) (some_number : number ≠ []) (some_other : other ≠ [])
    (same : dotted number = dotted other) : number = other := by
  have read : ∀ number : List Nat, number ≠ [] → (dotted number).splitOn '.' = number.map (Nat.toDigits 10) := by
    intro number some_number
    apply List.splitOn_intercalate
    next =>
      intro digits inside
      obtain ⟨component, -, rfl⟩ := List.mem_map.mp inside
      exact Lines.notMem_toDigits '.' (by decide) component
    next => simpa using some_number
  have digits := (read number some_number).symm.trans (same ▸ read other some_other)
  apply List.map_injective_iff.mpr _ digits
  intro component another equal
  have parsed := congrArg (fun digits => Nat.ofDigitChars 10 digits 0) equal
  simpa using parsed

def Within : Prop :=
  ∀ turns first rest, partAt root turns = some (.multi first rest) → rest.length < u32Max

theorem clamped_iff : number.map clamp = number ↔ ∀ component ∈ number, component ≤ u32Max := by
  induction number with
  | nil => simp
  | cons component number ih =>
    have unchanged : min component u32Max = component ↔ component ≤ u32Max := by omega
    simp [ih, clamp, unchanged]

theorem Within.clamped {root : WireBodyStructure Body} (within : Within root) (turns : List Turn) (body : Body)
    (found : bodyAt root turns = some body) : ∀ component ∈ numberAt [] root turns, component ≤ u32Max := by
  induction turns generalizing root with
  | nil =>
    intro component inside
    cases root <;> cases inside
  | cons turn turns ih =>
    cases turn with
    | child index =>
      cases root with
      | single | message => cases found
      | multi first rest =>
        obtain ⟨child, here, found⟩ := bodyAt_child first rest index turns body found
        rw [numberAt_child first child rest index turns body here found]
        have below : Within child := by
          intro further first_child others read
          exact within (.child index :: further) first_child others (by simpa [partAt, here] using read)
        have few := within [] first rest rfl
        have place : index < (first :: rest).length := (List.getElem?_eq_some_iff.mp here).1
        rw [List.length_cons] at place
        rintro component (_ | ⟨_, inside⟩)
        next => omega
        next => exact ih below found component inside
    | inner =>
      cases root with
      | single | multi => cases found
      | message own content =>
        rw [numberAt_inner own content turns body found]
        have below : Within content := fun further => within (.inner :: further)
        intro component inside
        rcases List.mem_append.mp inside with one | deeper
        next =>
          unfold messageNumber at one
          split at one
          next => cases one
          next =>
            cases List.mem_singleton.mp one
            decide
        next => exact ih below found component deeper

theorem within_of_clamped (clamped : ∀ turns body, bodyAt root turns = some body → ∀ component ∈ numberAt [] root turns, component ≤ u32Max) :
    Within root := by
  intro turns
  induction turns generalizing root with
  | nil =>
    intro first rest whole
    cases whole
    by_contra many
    have inside : u32Max < (first :: rest).length := by
      rw [List.length_cons]
      omega
    obtain ⟨turns, body, found⟩ := listing_some (first :: rest)[u32Max]
    have here : (first :: rest)[u32Max]? = some (first :: rest)[u32Max] := List.getElem?_eq_getElem inside
    have listed : bodyAt (.multi first rest) (.child u32Max :: turns) = some body := by
      simpa only [bodyAt, partAt, here, Option.bind_some] using found
    have component := clamped (.child u32Max :: turns) body listed (u32Max + 1)
    rw [numberAt_child first _ rest u32Max turns body here found] at component
    exact absurd (component List.mem_cons_self) (by omega)
  | cons turn turns ih =>
    intro first rest read
    cases turn with
    | child index =>
      cases root with
      | single | message => cases read
      | multi head tail =>
        cases here : (head :: tail)[index]? with
        | none => simp [partAt, here] at read
        | some child =>
          refine ih child ?_ first rest (by simpa [partAt, here] using read)
          intro further body found component inside
          apply clamped (.child index :: further) body (by simpa [bodyAt, partAt, here] using found)
          rw [numberAt_child head child tail index further body here found]
          exact List.mem_cons_of_mem _ inside
    | inner =>
      cases root with
      | single | multi => cases read
      | message own content =>
        refine ih content ?_ first rest read
        intro further body found component inside
        apply clamped (.inner :: further) body found
        rw [numberAt_inner own content further body found]
        exact List.mem_append_right _ inside

theorem rfcNumber_ne (found : bodyAt root turns = some body) : rfcNumber root turns ≠ [] := by
  rw [rfcNumber, numberAt_from _ root turns body found]
  exact message_longer root turns body found

theorem flatten_root (whole : isMessage root = false) :
    flatten root [] = (listing root).map (fun entry =>
      { partSection := dotted ((rfcNumber root entry.1).map clamp), body := entry.2 }) := by
  cases root with
  | single body =>
    simp [flatten, listing, rfcNumber, numberAt, messageNumber, isMulti, sectionString, dotted, clamp, u32Max]
    rfl
  | message => cases whole
  | multi first rest => exact flatten_listing (.multi first rest) [] (.inr rfl)

theorem rfcNumber_inj (others : List Turn) (body other : Body)
    (found : bodyAt root turns = some body) (further : bodyAt root others = some other)
    (same : rfcNumber root turns = rfcNumber root others) : turns = others := by
  rw [rfcNumber, rfcNumber, numberAt_from _ root turns body found, numberAt_from _ root others other further] at same
  exact numberAt_inj root turns others body other found further (List.append_cancel_left same)

theorem Numbered.agreed {root : WireBodyStructure Body} {entries : List (List Turn × Body)}
    {label : List Turn × Body → List Char}
    (numbered : Numbered root (entries.map (fun entry => { partSection := label entry, body := entry.2 })))
    (places : entries.map Prod.fst = (listing root).map Prod.fst) :
    ∀ entry ∈ entries, label entry = dotted (rfcNumber root entry.1) := by
  obtain ⟨turns, complete, ordered, agree⟩ := numbered.listed
  rw [places_unique root turns complete ordered, ← places, List.forall₂_map_left_iff, List.forall₂_map_right_iff,
    List.forall₂_same] at agree
  exact fun entry inside => (agree entry inside).2

theorem flatten_numbered (whole : isMessage root = false) (within : Within root) :
    Numbered root (flatten root []) := by
  have listed : flatten root [] = (listing root).map (fun entry =>
      { partSection := dotted (rfcNumber root entry.1), body := entry.2 }) := by
    rw [flatten_root root whole]
    apply List.map_congr_left
    rintro ⟨turns, body⟩ inside
    have found := (mem_listing root turns body).mp inside
    have clamped : (rfcNumber root turns).map clamp = rfcNumber root turns := by
      rw [rfcNumber, numberAt_from _ root turns body found, List.map_append]
      congr 1
      next =>
        unfold messageNumber
        split <;> rfl
      next => exact (clamped_iff _).mpr (within.clamped turns body found)
    rw [clamped]
  rw [listed]
  constructor
  case listed =>
    refine ⟨(listing root).map Prod.fst, ?_, listing_ordered root, ?_⟩
    next =>
      intro turns
      rw [Option.isSome_iff_exists, List.mem_map]
      constructor
      next =>
        rintro ⟨⟨turns, body⟩, inside, rfl⟩
        exact ⟨body, (mem_listing root turns body).mp inside⟩
      next =>
        rintro ⟨body, found⟩
        exact ⟨(turns, body), (mem_listing root turns body).mpr found, rfl⟩
    next =>
      rw [List.forall₂_map_left_iff, List.forall₂_map_right_iff, List.forall₂_same]
      rintro ⟨turns, body⟩ inside
      exact ⟨(mem_listing root turns body).mp inside, rfl⟩
  case distinct =>
    rw [List.map_map]
    refine List.Nodup.map_on ?_ (List.Nodup.of_map Prod.fst (listing_nodup root))
    rintro ⟨turns, body⟩ inside ⟨others, other⟩ further same
    have found := (mem_listing root turns body).mp inside
    have beside := (mem_listing root others other).mp further
    have numbers := dotted_inj _ _ (rfcNumber_ne root turns body found) (rfcNumber_ne root others other beside) same
    cases rfcNumber_inj root turns others body other found beside numbers
    cases found.symm.trans beside
    rfl

def wrappedSection : List Turn -> List Char
  | .inner :: turns => dotted ((rfcNumber content turns).map clamp)
  | _ => ['1']

theorem message_not_numbered (content : WireBodyStructure Body) :
    ¬ Numbered (.message body content) (flatten (.message body content) []) := by
  intro numbered
  -- The first part inside is numbered as though the wrapper were not there.
  have inside : flatten content (encapsulatedPath content []) = (listing content).map (fun entry =>
      { partSection := dotted ((rfcNumber content entry.1).map clamp), body := entry.2 }) := by
    have path := messageNumber_path [] content
    rw [List.map_nil] at path
    rw [path]
    apply flatten_listing
    cases content <;> simp [messageNumber, isMulti]
  have shape : flatten (.message body content) [] = (listing (.message body content)).map (fun entry =>
      { partSection := wrappedSection content entry.1, body := entry.2 }) := by
    rw [flatten, inside, listing, List.map_cons, List.map_map]
    rfl
  rw [shape] at numbered
  obtain ⟨turns, own, found⟩ := listing_some content
  have listed : (.inner :: turns, own) ∈ listing (.message body content) :=
    (mem_listing (.message body content) (.inner :: turns) own).mpr found
  have same := numbered.agreed rfl (.inner :: turns, own) listed
  have deeper : rfcNumber (.message body content) (.inner :: turns) = 1 :: rfcNumber content turns := by
    have moved := numberAt_from [1] (.message body content) (.inner :: turns) own found
    rw [numberAt_inner body content turns own found] at moved
    rw [rfcNumber, rfcNumber, numberAt_from _ content turns own found]
    exact moved
  rw [deeper] at same
  have equal := dotted_inj _ _ (by simpa using rfcNumber_ne content turns own found) (List.cons_ne_nil _ _) same
  have lengths := congrArg List.length equal
  simp at lengths

theorem flatten_exact :
    Numbered root (flatten root []) ↔ isMessage root = false ∧ Within root := by
  constructor
  next =>
    intro numbered
    have whole : isMessage root = false := by
      cases root with
      | message body content => exact absurd numbered (message_not_numbered body content)
      | single | multi => rfl
    refine ⟨whole, within_of_clamped root ?_⟩
    intro turns body found
    rw [flatten_root root whole] at numbered
    have same := numbered.agreed rfl (turns, body) ((mem_listing root turns body).mpr found)
    have some_number := rfcNumber_ne root turns body found
    have clamped := dotted_inj _ _ (by simpa using some_number) some_number same
    rw [rfcNumber, numberAt_from _ root turns body found, List.map_append] at clamped
    exact (clamped_iff _).mp (List.append_inj_right clamped (List.length_map _))
  next =>
    rintro ⟨whole, within⟩
    exact flatten_numbered root whole within

/-- The wrapper and the one part of the message it holds are both listed as section 1. -/
theorem rootMessage_collides : ¬ Numbered (.message "message/rfc822" (.single "text/plain"))
    (flatten (.message "message/rfc822" (.single "text/plain")) []) := by
  intro numbered
  exact absurd numbered.distinct (by decide)

end Postio.Fetch

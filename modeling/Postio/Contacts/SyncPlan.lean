import Postio.Lib.FirstFit

set_option autoImplicit false

namespace Postio.ContactSync

abbrev Text := List Char

inductive ContactKind where
  | person
  | company
  | list
  | newsletter
  | automated
  deriving DecidableEq

inductive TextField where
  | givenName
  | familyName
  | organization
  | title
  deriving DecidableEq

inductive Field where
  | text (field : TextField)
  | addresses
  | phones
  deriving DecidableEq

/-- The fields that sync. The addresses are a set, the numbers are as written. -/
structure Fields where
  given : Text
  family : Text
  emails : List Text
  phones : List Text
  organization : Text
  title : Text
  deriving DecidableEq

structure LocalRecord where
  id : Int
  label : Text
  fields : Fields
  saved : Bool
  kind : ContactKind
  deriving DecidableEq

structure ExternalRecord where
  id : Text
  label : Text
  fields : Fields
  deriving DecidableEq

structure Link where
  localId : Int
  external : Text
  base : Fields
  deriving DecidableEq

inductive Scope where
  | people
  | peopleAndCompanies
  | everything
  deriving DecidableEq

inductive Mode where
  | twoWay
  | readOnly
  deriving DecidableEq

inductive Side where
  | here
  | there
  deriving DecidableEq

structure Match where
  localId : Int
  external : Text
  deriving DecidableEq

structure Import where
  external : Text
  label : Text
  kind : ContactKind
  fields : Fields
  deriving DecidableEq

structure Create where
  localId : Int
  label : Text
  fields : Fields
  deriving DecidableEq

structure Change where
  localId : Int
  external : Text
  label : Text
  side : Side
  field : Field
  -- A name, an organization or a title is one value; addresses and numbers are as many as go across.
  values : List Text
  deriving DecidableEq

structure Conflict where
  localId : Int
  external : Text
  label : Text
  field : TextField
  mine : Text
  theirs : Text
  deriving DecidableEq

structure Ambiguous where
  localId : Int
  label : Text
  candidates : List Text
  deriving DecidableEq

structure Gone where
  localId : Int
  label : Text
  external : Text
  deriving DecidableEq

structure SyncPlan where
  matches' : List Match
  creates : List Create
  imports : List Import
  updates : List Change
  conflicts : List Conflict
  ambiguous : List Ambiguous
  gone : List Gone
  leftAlone : Nat
  deriving DecidableEq

structure Spelling where
  lowercase : Text -> Text
  isWhitespace : Char -> Bool

def asciiSpelling : Spelling where
  lowercase := fun text => text.map Char.toLower
  isWhitespace := Char.isWhitespace

def Scope.includes : Scope -> ContactKind -> Bool
  | .people, kind => kind = .person
  | .peopleAndCompanies, kind => kind = .person || kind = .company
  | .everything, _ => true

def Fields.empty : Fields where
  given := []
  family := []
  emails := []
  phones := []
  organization := []
  title := []

def Fields.text (fields : Fields) : TextField -> Text
  | .givenName => fields.given
  | .familyName => fields.family
  | .organization => fields.organization
  | .title => fields.title

def eqIgnoreAsciiCase (first second : Text) : Bool := first.map Char.toLower = second.map Char.toLower

def phoneKey (phone : Text) : Option Text :=
  let digits := phone.filter Char.isDigit
  if 7 ≤ digits.length then some (digits.drop (digits.length - 9)) else none

def phoneKeys (fields : Fields) : List Text := fields.phones.filterMap phoneKey

def sharesEmail (first second : Fields) : Bool :=
  first.emails.any (fun mine => second.emails.any (fun theirs => eqIgnoreAsciiCase mine theirs))

def hasAddress (emails : List Text) (address : Text) : Bool := emails.any (fun held => eqIgnoreAsciiCase held address)

variable (mine : LocalRecord) (theirs : ExternalRecord)

def change (side : Side) (field : Field) (values : List Text) : Change where
  localId := mine.id
  external := theirs.id
  label := mine.label
  side
  field
  values

def changeSet (side : Side) (field : Field) (values : List Text) :
    List Change :=
  if values = [] then [] else [change mine theirs side field values]

def textFields : List TextField := [.givenName, .familyName, .organization, .title]

def textChange (mode : Mode) (mine : LocalRecord) (theirs : ExternalRecord) (base : Fields) (field : TextField) :
    Option Change :=
  -- One field against what was synced last: the side that did not change it takes the other's value.
  if mine.fields.text field = theirs.fields.text field then none
  else if mine.fields.text field = base.text field then
    some (change mine theirs .here (.text field) [theirs.fields.text field])
  else if theirs.fields.text field = base.text field then
    if mode = .twoWay then some (change mine theirs .there (.text field) [mine.fields.text field]) else none
  else none

def textConflict (base : Fields) (field : TextField) : Option Conflict :=
  if mine.fields.text field = theirs.fields.text field then none
  else if mine.fields.text field = base.text field then none
  else if theirs.fields.text field = base.text field then none
  else
    some
      { localId := mine.id
        external := theirs.id
        label := mine.label
        field
        mine := mine.fields.text field
        theirs := theirs.fields.text field }

def lackingHere (mine theirs : Fields) : List Text := theirs.emails.filter (fun address => !hasAddress mine.emails address)

def newHere (mine theirs : Fields) : List Text :=
  theirs.phones.filter (fun phone => (phoneKey phone).any (fun key => !(phoneKeys mine).contains key))

def compareUpdates (mode : Mode) (mine : LocalRecord) (theirs : ExternalRecord) (base : Fields) : List Change :=
  -- One pair, field by field. Addresses and numbers merge as sets: nothing is ever taken away.
  textFields.filterMap (textChange mode mine theirs base) ++
    changeSet mine theirs .here .addresses (lackingHere mine.fields theirs.fields) ++
    (if mode = .twoWay then changeSet mine theirs .there .addresses (lackingHere theirs.fields mine.fields) else []) ++
    changeSet mine theirs .here .phones (newHere mine.fields theirs.fields) ++
    if mode = .twoWay then changeSet mine theirs .there .phones (newHere theirs.fields mine.fields) else []

def compareConflicts (base : Fields) : List Conflict :=
  textFields.filterMap (textConflict mine theirs base)

/-- What the passes over links and over records put into the plan, and what they have used. -/
structure Findings where
  matches' : List Match
  updates : List Change
  conflicts : List Conflict
  ambiguous : List Ambiguous
  gone : List Gone
  usedExternal : List Text
  settledLocal : List Int
  ambiguousExternals : List Text

namespace Findings

def nothing : Findings where
  matches' := []
  updates := []
  conflicts := []
  ambiguous := []
  gone := []
  usedExternal := []
  settledLocal := []
  ambiguousExternals := []

def add (first second : Findings) : Findings where
  matches' := first.matches' ++ second.matches'
  updates := first.updates ++ second.updates
  conflicts := first.conflicts ++ second.conflicts
  ambiguous := first.ambiguous ++ second.ambiguous
  gone := first.gone ++ second.gone
  usedExternal := first.usedExternal ++ second.usedExternal
  settledLocal := first.settledLocal ++ second.settledLocal
  ambiguousExternals := first.ambiguousExternals ++ second.ambiguousExternals

def gather {Item : Type} (find : Item -> Findings) (items : List Item) (start : Findings) : Findings :=
  items.foldl (fun found item => found.add (find item)) start

end Findings

/-- The records of each side, under the ids that tell them apart. -/
structure Records where
  locals : List LocalRecord
  externals : List ExternalRecord
  localIds : (locals.map (fun record => record.id)).Nodup
  externalIds : (externals.map (fun record => record.id)).Nodup

/-- The matches kept, in which each record is named at most once. -/
structure Links where
  links : List Link
  locals : (links.map (fun link => link.localId)).Nodup
  externals : (links.map (fun link => link.external)).Nodup

section planning

variable (spelling : Spelling) (scope : Scope) (mode : Mode)

def Spelling.trim (text : Text) : Text :=
  ((text.dropWhile spelling.isWhitespace).reverse.dropWhile spelling.isWhitespace).reverse

variable (fields : Fields) (locals : List LocalRecord) (externals : List ExternalRecord) (links : List Link)

def fullName : Text :=
  spelling.lowercase (spelling.trim (spelling.trim fields.given ++ ' ' :: spelling.trim fields.family))

def sharesNameAndPhone (first second : Fields) : Bool :=
  fullName spelling first ≠ [] && fullName spelling first = fullName spelling second &&
    (phoneKeys first).any (fun key => (phoneKeys second).contains key)

def inScope (record : LocalRecord) : Bool := record.saved && scope.includes record.kind

def linkFindings (link : Link) : Findings :=
  -- A link already made: a comparison, or a question about a record that went away.
  match (locals.filter (inScope scope)).find? (fun record => record.id = link.localId) with
  | none => .nothing
  | some mine =>
    match externals.find? (fun record => record.id = link.external) with
    | some theirs =>
      { Findings.nothing with
        updates := compareUpdates mode mine theirs link.base
        conflicts := compareConflicts mine theirs link.base
        usedExternal := [theirs.id]
        settledLocal := [mine.id] }
    | none =>
      { Findings.nothing with
        gone := [{ localId := mine.id, label := mine.label, external := link.external }]
        settledLocal := [mine.id] }

def candidates (freeExternals : List ExternalRecord) (mine : LocalRecord) : List ExternalRecord :=
  -- By any shared address, or else by name and phone.
  match freeExternals.filter (fun theirs => sharesEmail mine.fields theirs.fields) with
  | [] => freeExternals.filter (fun theirs => sharesNameAndPhone spelling mine.fields theirs.fields)
  | shared => shared

def shares (mine : LocalRecord) (theirs : ExternalRecord) : Bool :=
  sharesEmail mine.fields theirs.fields || sharesNameAndPhone spelling mine.fields theirs.fields

def rivals (freeLocals : List LocalRecord) (only : ExternalRecord) : Nat :=
  (freeLocals.filter (fun record => shares spelling record only)).length

def question (mine : LocalRecord) (theirs : List ExternalRecord) : Findings :=
  { Findings.nothing with
    ambiguous := [{ localId := mine.id, label := mine.label, candidates := theirs.map (fun record => record.label) }]
    settledLocal := [mine.id]
    ambiguousExternals := theirs.map (fun record => record.id) }

def matchFindings (freeLocals : List LocalRecord) (freeExternals : List ExternalRecord) (mine : LocalRecord) : Findings :=
  -- One candidate on both sides is a match; more than one on either is a question.
  match candidates spelling freeExternals mine with
  | [] => .nothing
  | [only] =>
    if rivals spelling freeLocals only = 1 then
      { Findings.nothing with
        matches' := [{ localId := mine.id, external := only.id }]
        updates := compareUpdates mode mine only Fields.empty
        conflicts := compareConflicts mine only Fields.empty
        usedExternal := [only.id]
        settledLocal := [mine.id] }
    else question mine [only]
  | many => question mine many

def named : Bool := spelling.trim fields.given ≠ [] || spelling.trim fields.family ≠ []

def importKind : ContactKind :=
  if named spelling fields || spelling.trim fields.organization = [] then .person else .company

def usable : Bool :=
  fields.emails ≠ [] && (named spelling fields || spelling.trim fields.organization ≠ []) &&
    scope.includes (importKind spelling fields)

def lowerAddresses : List Text := fields.emails.map spelling.lowercase

structure Imports where
  claimed : List Text
  imports : List Import
  leftAlone : Nat

def importStep (used : List Text) (state : Imports) (theirs : ExternalRecord) : Imports :=
  if used.contains theirs.id then state
  else if !usable spelling scope theirs.fields ||
      (lowerAddresses spelling theirs.fields).any (fun address => state.claimed.contains address) then
    { state with leftAlone := state.leftAlone + 1 }
  else
    { state with
      claimed := lowerAddresses spelling theirs.fields ++ state.claimed
      imports := state.imports ++
        [{ external := theirs.id, label := theirs.label, kind := importKind spelling theirs.fields
           fields := theirs.fields }] }

def linked : Findings :=
  Findings.gather (linkFindings scope mode locals externals) links .nothing

def freeLocals : List LocalRecord :=
  (locals.filter (inScope scope)).filter (fun record =>
    !(linked scope mode locals externals links).settledLocal.contains record.id)

def freeExternals :
    List ExternalRecord :=
  externals.filter (fun record => !(linked scope mode locals externals links).usedExternal.contains record.id)

def plan : SyncPlan :=
  let free := freeLocals scope mode locals externals links
  let found := Findings.gather (matchFindings spelling mode free (freeExternals scope mode locals externals links)) free
    (linked scope mode locals externals links)
  let unmatched := free.filter (fun record => !found.settledLocal.contains record.id)
  let brought := externals.foldl (importStep spelling scope (found.usedExternal ++ found.ambiguousExternals))
    { claimed := [], imports := [], leftAlone := 0 }
  { matches' := found.matches'
    creates :=
      if mode = .twoWay then
        unmatched.map (fun record => { localId := record.id, label := record.label, fields := record.fields })
      else []
    imports := brought.imports
    updates := found.updates
    conflicts := found.conflicts
    ambiguous := found.ambiguous
    gone := found.gone
    leftAlone := brought.leftAlone }

end planning

end Postio.ContactSync

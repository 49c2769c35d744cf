import Mathlib.Data.Prod.Lex
import Mathlib.Data.Int.Order.Basic
import Postio.Contacts.SyncPlan
import Postio.Lib.Newest
import Postio.Lib.Run
import Postio.Model.Ids

set_option autoImplicit false

namespace Postio.Sightings

open ContactSync Newest

/-! What the mail says about an address: counted message by message as mail is recorded, and folded from the mail that was stored
before anything recorded it. -/

structure EmailAddress where
  name : Option Text
  address : Text
  deriving DecidableEq

/-- `addresses.address_normalized`, which is unique. -/
abbrev AddressKey := Text

/-- A message with its recipients' rows. `date` is its best date, in milliseconds; `source` is its From and `addressed` its To. -/
structure Stored where
  id : Nat
  account : AccountId
  date : Int
  seen : Bool
  source : List EmailAddress
  sender : Option EmailAddress
  replyTo : List EmailAddress
  addressed : List EmailAddress
  cc : List EmailAddress
  bcc : List EmailAddress
  deriving DecidableEq

namespace Stored

def allRecipients (message : Stored) : List EmailAddress := message.addressed ++ message.cc ++ message.bcc

def headers (message : Stored) : List EmailAddress :=
  message.source ++ message.sender.toList ++ message.replyTo ++ message.allRecipients

end Stored

structure Account where
  id : AccountId
  address : Text
  identities : List Text
  deriving DecidableEq

def Account.ownAddresses (account : Account) : List Text := account.address :: account.identities

/-- What stays as it is: the accounts, and the newest message the store held when contacts began, 0 for none. -/
structure Setting where
  spelling : Spelling
  accounts : List Account
  historyThrough : Nat

/-- One address on a message, and whether the user wrote to it. -/
structure Seen where
  address : EmailAddress
  written : Bool
  sender : Bool
  deriving DecidableEq

structure Recording where
  account : AccountId
  date : Int
  message : Nat
  read : Bool
  deriving DecidableEq

/-- A row of `contact_sightings`. Whatever writes one gives it a time, so `last_seen_at` is never null. -/
structure Sighting where
  timesSeen : Nat
  lastSeenAt : Int
  lastName : Option Text
  timesWritten : Nat
  seenCount : Nat
  deriving DecidableEq

/-- A row of `address_recent`. -/
structure RingEntry where
  date : Int
  message : Nat
  out : Bool

namespace RingEntry

def order (entry : RingEntry) : Int ×ₗ Nat ×ₗ Bool := toLex (entry.date, toLex (entry.message, entry.out))

theorem order_injective : Function.Injective order := by
  rintro ⟨firstDate, firstMessage, firstOut⟩ ⟨secondDate, secondMessage, secondOut⟩ same
  simp only [order, EmbeddingLike.apply_eq_iff_eq, Prod.mk.injEq] at same
  simp [same]

-- By date and then by message. A message has one entry, so the direction decides nothing.
instance : LinearOrder RingEntry := LinearOrder.lift' order order_injective

end RingEntry

/-- What is kept for one address, over the accounts it was seen through. A month without a row counts 0. -/
@[ext]
structure Evidence where
  sightings : AccountId -> Option Sighting
  months : Int -> Nat
  ring : Finset RingEntry

def Evidence.empty : Evidence := { sightings := fun _ => none, months := fun _ => 0, ring := ∅ }

def recent : Nat := 50

def monthOf (seconds : Int) : Int :=
  -- The civil month of a second since 1970, counted from year 0: `year * 12 + month - 1`.
  let day := seconds / 86400 + 719468
  let era := day / 146097
  let dayOfEra := day - era * 146097
  let yearOfEra := (dayOfEra - dayOfEra / 1460 + dayOfEra / 36524 - dayOfEra / 146096) / 365
  let dayOfYear := dayOfEra - (365 * yearOfEra + yearOfEra / 4 - yearOfEra / 100)
  -- Months from March, so that a leap day is the last of its year.
  let month := (5 * dayOfYear + 2) / 153
  (yearOfEra + era * 400) * 12 + month + 2

def monthKey (millis : Int) : Int := monthOf (millis / 1000)

def sqlMonth (millis : Int) : Int := monthOf (millis.tdiv 1000)

def asciiLower (text : Text) : Text := text.map Char.toLower

section

variable (setting : Setting)

def normalized (address : EmailAddress) : AddressKey := setting.spelling.lowercase address.address

def sameAddress (first second : EmailAddress) : Bool := eqIgnoreAsciiCase first.address second.address

def ownOf (account : AccountId) : List Text :=
  ((setting.accounts.find? (fun held => held.id = account)).map Account.ownAddresses).getD []

variable (own : List Text) (now : Recording) (mine : AddressKey -> Bool) (address : AddressKey) (message : Stored)
    (seen : Seen) (messages : List Stored)

def isOwn (address : EmailAddress) : Bool := own.any (fun mine => eqIgnoreAsciiCase mine address.address)

def headerName (address : EmailAddress) : Option Text :=
  (address.name.map setting.spelling.trim).filter (fun name => name ≠ [])

/-! ### Recording -/

def writtenTo : List AddressKey :=
  if message.source.any (isOwn own) then message.allRecipients.map (normalized setting) else []

def addCorrespondent (seen : List Seen) (address : EmailAddress) : List Seen :=
  if setting.spelling.trim address.address = [] || isOwn own address then seen
  else if seen.any (fun one => normalized setting one.address = normalized setting address) then seen
  else
    seen ++ [{ address
               written := (writtenTo setting own message).contains (normalized setting address)
               sender := message.source.any (fun source => sameAddress source address) }]

def correspondents : List Seen :=
  message.headers.foldl (addCorrespondent setting own message) []

def recordingOf : Recording :=
  { account := message.account, date := message.date, message := message.id, read := message.seen }

def trimRing (ring : Finset RingEntry) : Finset RingEntry := newest recent ring

/-- `INSERT OR IGNORE`: a message that has an entry keeps it. -/
def insertNew (entry : RingEntry) (ring : Finset RingEntry) : Finset RingEntry :=
  if ∃ held ∈ ring, held.message = entry.message then ring else insert entry ring

def noteSighting (held : Option Sighting) : Sighting :=
  let name := headerName setting seen.address
  let opened := (seen.sender && now.read).toNat
  match held with
  | none =>
    { timesSeen := 1, lastSeenAt := now.date, lastName := name, timesWritten := seen.written.toNat, seenCount := opened }
  | some held =>
    { timesSeen := held.timesSeen + 1
      lastSeenAt := max held.lastSeenAt now.date
      lastName := if held.lastSeenAt ≤ now.date then name.or held.lastName else held.lastName
      timesWritten := held.timesWritten + seen.written.toNat
      seenCount := held.seenCount + opened }

def noteMonthAndRing (evidence : Evidence) : Evidence :=
  let months := fun month => evidence.months month + if month = monthKey now.date then 1 else 0
  -- A message never stored has no ring entry.
  if now.message = 0 then { evidence with months }
  else
    { evidence with
      months
      ring := trimRing (insertNew { date := now.date, message := now.message, out := seen.written } evidence.ring) }

/-- Counts one sighting of an address. -/
def note (evidence : Evidence) : Evidence :=
  noteMonthAndRing now seen
    { evidence with
      sightings := fun account =>
        if account = now.account then some (noteSighting setting now seen (evidence.sightings account))
        else evidence.sightings account }

/-! ### The fold -/

def mentions : Bool :=
  message.headers.any (fun header => normalized setting header = address)

def writtenBy : Bool :=
  message.allRecipients.any (fun header => normalized setting header = address) &&
    message.source.any (fun header => mine (normalized setting header))

def sentBy : Bool :=
  message.source.any (fun header => normalized setting header = address)

def namesGiven : List (Int × Text) :=
  messages.flatMap (fun message =>
    ((message.headers.filter (fun header => normalized setting header = address)).filterMap EmailAddress.name).filterMap
      (fun name => if name.all (fun char => char = ' ') then none else some (message.date, name)))

def newestName : Option Text :=
  let names := namesGiven setting address messages
  (names.find? (fun name => names.all (fun other => other.1 ≤ name.1))).map Prod.snd

/-- What the fold counts of the messages of one account that name an address. -/
def foldedRow : Option Sighting :=
  match messages with
  | [] => none
  | first :: rest =>
    some
      { timesSeen := messages.length
        lastSeenAt := (rest.map Stored.date).foldl max first.date
        lastName := newestName setting address messages
        timesWritten := messages.countP (writtenBy setting mine address)
        seenCount := messages.countP (fun message => sentBy setting address message && message.seen) }

/-- A folded row written over the one there is, or added to it. -/
def mergeRow (add : Bool) (held : Option Sighting) (folded : Sighting) : Sighting :=
  match held with
  | none => folded
  | some held =>
    { timesSeen := if add then held.timesSeen + folded.timesSeen else folded.timesSeen
      lastSeenAt := max held.lastSeenAt folded.lastSeenAt
      lastName := (if add then held.lastName else folded.lastName).or folded.lastName
      timesWritten := if add then held.timesWritten + folded.timesWritten else folded.timesWritten
      seenCount := if add then held.seenCount + folded.seenCount else folded.seenCount }

def foldMonthsAndRing (add : Bool) (mail : List Stored) (evidence : Evidence) : Evidence :=
  let entries := (mail.map (fun message =>
    { date := message.date, message := message.id, out := writtenBy setting mine address message : RingEntry })).toFinset
  { evidence with
    months := fun month =>
      let counted := mail.countP (fun message => sqlMonth message.date = month)
      if counted = 0 then evidence.months month
      else if add then evidence.months month + counted
      else counted
    ring := trimRing (evidence.ring ∪
      (newest recent entries).filter (fun entry => ∀ held ∈ evidence.ring, held.message ≠ entry.message)) }

/-- Sets an address's evidence to what the history says, or adds it to what there is. -/
def foldSightings (history : List Stored) (mine : AddressKey -> Bool) (address : AddressKey) (add : Bool)
    (evidence : Evidence) : Evidence :=
  let mail := history.filter (mentions setting address)
  foldMonthsAndRing setting mine address add mail
    { evidence with
      sightings := fun account =>
        match foldedRow setting mine address (mail.filter (fun message => message.account = account)) with
        | none => evidence.sightings account
        | some folded => some (mergeRow add (evidence.sightings account) folded) }

/-! ### The store -/

/-- What is stored of the mail and of the addresses on it. `recorded` is what has been recorded, in order: no table says so. -/
structure State where
  stored : List Stored
  recorded : List Stored
  -- In the order of their ids.
  addresses : List AddressKey
  owned : AddressKey -> Bool
  evidence : AddressKey -> Evidence

def history (state : State) : List Stored := state.stored.filter (fun message => message.id ≤ setting.historyThrough)

def everyOwn : Bool :=
  setting.accounts.any (fun account => account.ownAddresses.any (fun mine => asciiLower mine = address))

def givenOwn : Bool :=
  (if own.isEmpty then [[]] else own.map setting.spelling.lowercase).contains address

def addressRow (addresses : List AddressKey) (address : AddressKey) : List AddressKey :=
  if address ∈ addresses then addresses else addresses ++ [address]

/-- The owner of an address, made from its stored mail if there is none. -/
def adopt (state : State) : State :=
  if state.owned address || everyOwn setting address then state
  else
    { state with
      owned := fun other => if other = address then true else state.owned other
      evidence := fun other =>
        if other = address ∧ setting.historyThrough ≠ 0 then
          foldSightings setting (history setting state) (everyOwn setting) address false (state.evidence other)
        else state.evidence other }

def recordIn (state : State) : State :=
  let address := normalized setting seen.address
  let existed := address ∈ state.addresses
  let counted := note setting (recordingOf message) seen (state.evidence address)
  { state with
    addresses := addressRow state.addresses address
    owned := fun other => if other = address then true else state.owned other
    evidence := fun other =>
      if other = address then
        -- An address that had mail before contacts began has history nothing recorded.
        if !state.owned address && existed && setting.historyThrough ≠ 0 then
          foldSightings setting (history setting state) (givenOwn setting own) address true counted
        else counted
      else state.evidence other }

def recordMessage (state : State) : State :=
  let own := ownOf setting message.account
  let after := (correspondents setting own message).foldl (fun state seen => recordIn setting own message seen state) state
  { after with recorded := after.recorded ++ [message] }

/-- The addresses with mail and no person, newest first and strictly below `before`. -/
def unowned (before : Option Nat) (state : State) : List AddressKey :=
  ((state.addresses.zipIdx.filter (fun row =>
    before.all (fun before => row.2 < before) && !state.owned row.1 && !everyOwn setting row.1 &&
      state.stored.any (mentions setting row.1))).map Prod.fst).reverse

def catchUpBatch (before : Option Nat) (limit : Nat) (state : State) : State :=
  ((unowned setting before state).take limit).foldl (fun state address => adopt setting address state) state

inductive Event where
  -- A message is written with its recipients, whose addresses get rows.
  | store (message : Stored)
  | record (message : Stored)
  | adopt (address : EmailAddress)
  | catchUp (before : Option Nat) (limit : Nat)

def step (state : State) : Event -> State
  | .store message =>
    { state with
      stored := state.stored ++ [message]
      addresses := (message.headers.map (normalized setting)).foldl addressRow state.addresses }
  | .record message => recordMessage setting message state
  | .adopt address =>
    adopt setting (normalized setting address)
      { state with addresses := addressRow state.addresses (normalized setting address) }
  | .catchUp before limit => catchUpBatch setting before limit state

/-! ### What the fold is to agree with -/

def seenOn : Option Seen :=
  (correspondents setting (ownOf setting message.account) message).find? (fun seen => normalized setting seen.address = address)

def recordedOnce : Evidence :=
  messages.foldl (fun evidence message =>
    (seenOn setting address message).elim evidence (fun seen => note setting (recordingOf message) seen evidence)) .empty

def FoldAgrees (state : State) : Prop :=
  ∀ address, state.owned address = true ->
    state.evidence address = recordedOnce setting address (history setting state ++ state.recorded)

end

end Postio.Sightings

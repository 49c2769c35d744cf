import Mathlib.Data.Char
import Mathlib.Data.List.Lex
import Postio.Session.Verbs

set_option autoImplicit false

namespace Postio

namespace MailStore

variable (store : MailStore) (sender : Address)

def setRestored (message : MessageId) (restoredAt : Option Instant) : MailStore :=
  { store with
    decisions := store.decisions.map (fun decision =>
      if decision.message = message ∧ decision.restoredAt.isNone = restoredAt.isSome then
        { decision with restoredAt }
      else decision) }

def restoredFrom : Bool :=
  store.decisions.any (fun decision => decision.restoredAt.isSome &&
    (store.messages.get decision.message).any (fun row => row.source.contains sender))

def arrival : Option ContactArrival :=
  (store.arrivals.find? (fun held => held.1 = sender)).map Prod.snd

def setArrival (arrival : Option ContactArrival) : MailStore :=
  { store with
    arrivals := store.arrivals.filter (fun held => held.1 ≠ sender) ++ (arrival.map (fun kind => (sender, kind))).toList }

def pin (pinned : Bool) : MailStore :=
  -- Keeps a sender's mail in the inbox, or stops keeping it there.
  if pinned then
    match store.arrival sender with
    | some .inbox => store
    | some .digest => { store with never := store.never.erase sender ++ [sender] }
    | _ => store.setArrival sender (some .inbox)
  else
    let unpinned := if store.arrival sender = some .inbox then store.setArrival sender none else store
    { unpinned with never := unpinned.never.erase sender }

def deliveryMessages (delivery : DeliveryId) : List MessageId :=
  ((store.holds.filter (fun held => held.delivery = some delivery)).map DigestHold.message).insertionSort
    (fun first second => first.get ≤ second.get)

def setArchived (delivery : DeliveryId) (archivedAt : Option Instant) : MailStore :=
  { store with
    deliveries := store.deliveries.map (fun delivered =>
      if delivered.id = delivery then { delivered with archivedAt } else delivered) }

end MailStore

namespace Actions

open Commits

structure Restoring where
  store : MailStore
  rows : List (Option FilterReason × Message)

variable (app : AppState) (now : Instant)

def restoreRow (restored : Bool) (so : Restoring) (row : Message) : Restoring :=
  -- Marks one decision restored, or takes that back; a message whose decision already stands so is passed over.
  match so.store.decisions.find? (fun decision => decision.message = row.id && decision.restoredAt.isNone = restored) with
  | none => so
  | some decision =>
    { store := so.store.setRestored row.id (if restored then some now else none)
      rows := so.rows ++ [(if restored then none else some decision.reason, row)] }

def restoreAccount (account : AccountId) (destination : MailboxId) (restored : Bool)
    (rows : List Message) (store : MailStore) :
    Except CommandError (MailStore × Option (Applied × List Address)) :=
  let so := rows.foldl (restoreRow now restored) { store, rows := [] }
  let reasons := none :: FilterReason.all.map some
  let marked := reasons.foldl (fun store reason =>
    let marking := (so.rows.filter (fun row => row.1 = reason)).map Prod.snd
    if marking.isEmpty then store else store.markFiltered account marking reason now) so.store
  let taken := so.rows.map Prod.snd
  let moved := marked.relocate account (leaving destination taken) destination .move now
  if taken.isEmpty then .ok (moved, none)
  else
    let ids := taken.map Message.id
    .ok (moved,
      some
        ({ account
           kind := if restored then .restore else .refilter
           messages := ids
           count := ids.length
           inverse := [.restoreFiltered (.messages ids) (!restored)] },
          taken.flatMap Message.source))

def stillRestored (restored : Bool) (sender : Address) (world : World) : Except CommandError Bool × World :=
  if restored then (.ok false, world)
  else commit (fun store => .ok (store, store.restoredFrom sender)) world

def pinSenders (restored : Bool) : List Address -> World -> Except CommandError Unit × World
  | [], world => (.ok (), world)
  | sender :: rest, world =>
    match stillRestored restored sender world with
    | (.error error, next) => (.error error, next)
    | (.ok true, next) => pinSenders restored rest next
    | (.ok false, next) =>
      -- What could not be written of a pin is logged and passed over.
      pinSenders restored rest (commit (fun store => .ok (store.pin sender restored, ())) next).2

def sendersOf (applied : List (Applied × List Address)) : List Address :=
  (applied.flatMap Prod.snd).dedup.insertionSort (fun first second => first.normalized ≤ second.normalized)

def restorePlan (target : MessageTarget) (restored : Bool) (store : MailStore) :
    Except CommandError (List (MailStore -> Except CommandError (MailStore × Option (Applied × List Address)))) := do
  let rows ← rowsAimed "Select the messages to restore" (← aim app store now target)
  let dest : Destination := .role (if restored then .inbox else .archive)
  (groupBy (fun row => row.accountId.get) rows).mapM (fun group =>
    (store.mailboxFor ⟨group.1⟩ dest).map (fun destination =>
      restoreAccount now ⟨group.1⟩ destination restored group.2))

def restore (focusOn : Bool) (now : Instant) (target : MessageTarget) (restored : Bool)
    (world : World) : Except CommandError (List Applied) × World :=
  match restorePlan app now target restored world.state with
  | .error error => (.error error, world)
  | .ok transactions =>
    match commitAll isRejected transactions world with
    | (.error error, next) => (.error error, next)
    | (.ok results, next) =>
      let applied := results.filterMap id
      if applied.isEmpty then
        (.error (.rejected (if restored then "Those messages are not in Filtered"
          else "Those messages were not restored from Filtered")), next)
      else if focusOn then
        match pinSenders restored (sendersOf applied) next with
        | (.error error, last) => (.error error, last)
        | (.ok _, last) => (.ok (applied.map Prod.fst), last)
      else (.ok (applied.map Prod.fst), next)

def relocate (target : MessageTarget) (dest : Destination) (kind : UndoKind)
    (world : World) : Except CommandError (List Applied) × World :=
  runPlan (relocatePlan app now target dest kind) world

def archiveDelivery (delivery : DeliveryId) (applied : List Applied) (world : World) :
    Except CommandError (List Applied) × World :=
  -- The digest's row goes with its messages, after them.
  match commit (fun store => .ok (store.setArchived delivery (some now),
      store.deliveries.any (fun delivered => delivered.id = delivery))) world with
  | (.error error, next) => (.error error, next)
  | (.ok false, next) => (.error (.rejected "That digest is no longer here"), next)
  | (.ok true, next) =>
    match applied.getLast? with
    | none => (.error (.rejected "That digest's messages are archived already"), next)
    | some last =>
      (.ok (applied.dropLast ++ [{ last with inverse := last.inverse ++ [.archiveDigest delivery false] }]), next)

def archiveDigest (delivery : DeliveryId) (archived : Bool) (world : World) :
    Except CommandError (List Applied) × World :=
  if !archived then
    match commit (fun store => .ok (store.setArchived delivery none, ())) world with
    | (.error error, next) => (.error error, next)
    | (.ok _, next) => (.ok [], next)
  else
    let messages := world.state.deliveryMessages delivery
    if messages.isEmpty then archiveDelivery now delivery [] world
    else
      match relocate app now (.messages messages) (.role .archive) .archive world with
      | (.ok applied, next) => archiveDelivery now delivery applied next
      -- Everything in it was archived already: the row still goes.
      | (.error (.rejected _), next) => archiveDelivery now delivery [] next
      | (.error error, next) => (.error error, next)

def act (focusOn : Bool) (now : Instant) (command : Command) (world : World) :
    Except CommandError (List Applied) × World :=
  -- Does one verb.
  match command with
  | .restoreFiltered target restored => restore app focusOn now target restored world
  | .archiveDigest delivery archived => archiveDigest app now delivery archived world
  | _ =>
    match planOf app now command with
    | none => (.ok [], world)
    | some plan => runPlan plan world

end Actions

end Postio

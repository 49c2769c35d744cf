import Postio.Lib.Commits
import Postio.Session.Aim

set_option autoImplicit false

namespace Postio.Actions

open Commits

/-! The mail verbs. Each reads what it is aimed at and then commits one transaction or several, each alone. -/

abbrev Transaction := MailStore -> Except CommandError (MailStore × Applied)

abbrev World := Contended MailStore CommandError

def storeBusy : String := "Postio was busy saving something else — try that again"

def saveFailed : CommandError := .failed "Could not save that change"

def isRejected : CommandError -> Bool
  | .rejected _ => true
  | .failed _ => false

def kindFor (flag : Flag) (wanted : Bool) : UndoKind :=
  match flag, wanted with
  | .seen, true => .markRead
  | .seen, false => .markUnread
  | _, true => .flag
  | _, false => .unflag

def relocationFor (kind : UndoKind) : Relocation := if kind = .delete then .trash else .move

def crossAccountRow (account : AccountId) (target : Mailbox) (now : Instant) (store : MailStore) (row : Message) :
    MailStore :=
  -- One message's half of a cross-account move: the copy in the target appears, the source row is hidden, and the
  -- saga's two operations are queued on their own accounts.
  let copy : MessageId := ⟨store.messages.nextId⟩
  let saga : CrossAccountMoveId := ⟨store.nextSaga⟩
  let copied : MailStore :=
    { store with
      messages := store.messages.insert (fun id =>
        { row with
          id
          accountId := target.accountId
          mailboxId := target.id
          threadId := none
          sortAt := row.receivedAt
          snoozedUntil := none
          sendState := none
          remoteId := none }) (fun _ => rfl)
      sagas := store.sagas ++
        [{ id := saga
           sourceMessage := some row.id
           sourceAccount := some account
           sourceMailbox := some row.mailboxId
           targetAccount := some target.accountId
           targetMailbox := some target.id
           targetMessage := some copy
           phase := .copying }]
      nextSaga := store.nextSaga + 1 }
  ((copied.enqueue target.accountId copy (.crossAccountCopy saga) now).enqueue account row.id
    (.crossAccountRemove saga) now).setDeletedLocally [row.id] true

variable (app : AppState) (now : Instant) (account : AccountId) (rows : List Message) (target : MessageTarget)

def crossAccountRelocate (target : Mailbox) (kind : UndoKind) : Transaction := fun store =>
  .ok (rows.foldl (crossAccountRow account target now) store,
    { account
      kind
      messages := rows.map Message.id
      count := rows.length
      inverse := [] })

def leaving (destination : MailboxId) (rows : List Message) : List (MailboxId × List MessageId) :=
  (groupBy (fun row => row.mailboxId.get) (rows.filter (fun row => row.mailboxId ≠ destination))).map
    (fun group => (⟨group.1⟩, group.2.map Message.id))

def relocateWithin (destination : MailboxId) (kind : UndoKind) : Transaction := fun store =>
  let bySource := leaving destination rows
  if bySource.isEmpty then .error (.rejected "Already there")
  else
    let messages := bySource.flatMap Prod.snd
    .ok (store.relocate account bySource destination (relocationFor kind) now,
      { account
        kind
        messages
        count := messages.length
        inverse := bySource.map (fun group => .move (.messages group.2) (some group.1)) })

/-- Moves rows of one account, which `relocate` has grouped. A destination in another account is a saga. -/
def relocateRows (dest : Destination) (kind : UndoKind) : Transaction := fun store =>
  match dest with
  | .mailbox id =>
    match store.mailbox id with
    | none => .error (.rejected "That folder no longer exists")
    | some target =>
      if target.accountId ≠ account then crossAccountRelocate now account rows target kind store
      else relocateWithin now account rows id kind store
  | .role _ =>
    match store.mailboxFor account dest with
    | .error error => .error error
    | .ok destination => relocateWithin now account rows destination kind store

/-- Moves what a set holds in each source folder in turn: the queue's payload names one folder for a whole run. -/
def moveGroups (now : Instant) (account : AccountId) (set : MessageSet) (destination : MailboxId) (kind : UndoKind) :
    List MailboxId -> MailStore -> Except CommandError (MailStore × Nat × List Command)
  | [], store => .ok (store, 0, [])
  | source :: rest, store =>
    let group := .inSourceMailbox set source
    match store.enqueueSet now account group ((relocationFor kind).operation source destination) with
    | none => moveGroups now account set destination kind rest store
    | some (range, queued) =>
      -- A foreign key refuses a folder that is not there.
      if (queued.mailbox destination).isNone then .error saveFailed
      else
        match moveGroups now account set destination kind rest (queued.moveSet now group destination) with
        | .error error => .error error
        | .ok (moved, count, inverse) =>
          .ok (moved, queued.countSet now group + count,
            .move (.batch range account (some destination)) (some source) :: inverse)

def sourcesOf (set : MessageSet) (source : Option MailboxId) (destination : MailboxId)
    (store : MailStore) : List MailboxId :=
  match source with
  | some source => [source]
  | none => (store.mailboxesOfSet now set).filter (fun mailbox => mailbox ≠ destination)

def relocateSet (bulk : BulkUnit) (dest : Destination) (kind : UndoKind) : Transaction := fun store =>
  match store.mailboxFor bulk.account dest with
  | .error error => .error error
  | .ok destination =>
    if bulk.source = some destination then .error (.rejected "Already there")
    else
      let sources := sourcesOf now bulk.set bulk.source destination store
      if sources.isEmpty then .error (.rejected "There is nothing here to move")
      else
        match moveGroups now bulk.account bulk.set destination kind sources store with
        | .error error => .error error
        | .ok (moved, count, inverse) =>
          if count = 0 then .error (.rejected "There is nothing here to move")
          else .ok (moved, { account := bulk.account, kind, messages := [], count, inverse })

/-- What `relocate` commits, once every destination has resolved: one transaction per account. -/
def relocatePlan (dest : Destination) (kind : UndoKind)
    (store : MailStore) : Except CommandError (List Transaction) := do
  match ← aim app store now target with
  | .rows rows =>
    let byAccount := groupBy (fun row => row.accountId.get) rows
    byAccount.forM (fun group => (store.mailboxFor ⟨group.1⟩ dest).map (fun _ => ()))
    return byAccount.map (fun group => relocateRows now ⟨group.1⟩ group.2 dest kind)
  | .bulk units =>
    units.forM (fun bulk => (store.mailboxFor bulk.account dest).map (fun _ => ()))
    return units.map (fun bulk => relocateSet now bulk dest kind)

def setFlagRows (flag : Flag) (want : Option Bool) : Transaction := fun store =>
  match rows with
  | [] => .error (.rejected "Those messages are no longer here")
  | first :: _ =>
    let account := first.accountId
    let wanted := want.getD (!rows.all (fun row => flag ∈ row.flags))
    let touched := rows.filter (fun row => decide (flag ∈ row.flags) ≠ wanted)
    if touched.isEmpty then .error (.rejected "Already set")
    else
      let changed := touched.map Message.id
      .ok (store.setFlag account touched flag wanted now,
        { account
          kind := kindFor flag wanted
          messages := changed
          count := changed.length
          inverse :=
            match flag with
            | .seen => [.toggleRead (.messages changed) (some wanted)]
            | _ => [.flag (.messages changed) (some !wanted)] })

def setFlagSet (bulk : BulkUnit) (column : ColumnFlag) (wanted : Bool) : Transaction := fun store =>
  let carrying (present : Bool) : MessageSet := .withFlag bulk.set column present
  let without := store.countSet now (carrying false)
  let carried := store.countSet now (carrying true)
  if without + carried = 0 then .error (.rejected "There is nothing here to change")
  else
    let changing := carrying (!wanted)
    let count := if wanted then without else carried
    if count = 0 then .error (.rejected "Already set")
    else
      match store.enqueueSet now bulk.account changing (flagOperation column.flag wanted) with
      | none => .error (.rejected "Already set")
      | some (range, queued) =>
        .ok (queued.setFlagOnSet now changing column wanted,
          { account := bulk.account
            kind := kindFor column.flag wanted
            messages := []
            count
            inverse :=
              match column with
              | .seen => [.toggleRead (.batch range bulk.account bulk.source) (some wanted)]
              | .flagged => [.flag (.batch range bulk.account bulk.source) (some !wanted)] })

def agreeingOn (units : List BulkUnit) (column : ColumnFlag) (store : MailStore) : Bool :=
  units.any (fun bulk => 0 < store.countSet now (.withFlag bulk.set column false))

def setFlagPlan (column : ColumnFlag) (want : Option Bool)
    (store : MailStore) : Except CommandError (List Transaction) := do
  match ← aim app store now target with
  | .rows rows => return [setFlagRows now rows column.flag want]
  | .bulk units =>
    let wanted := want.getD (agreeingOn now units column store)
    return units.map (fun bulk => setFlagSet now bulk column wanted)

def rowsAimed (refusal : String) : Aim -> Except CommandError (List Message)
  | .rows rows => .ok rows
  | .bulk _ => .error (.rejected refusal)

def snoozeRows (wakeAt : Instant) : Transaction := fun store =>
  match rows with
  | [] => .error (.rejected "Those messages are no longer here")
  | first :: _ =>
    let ids := rows.map Message.id
    .ok (store.snooze ids wakeAt,
      { account := first.accountId
        kind := .snooze
        messages := ids
        count := ids.length
        inverse := [.unsnooze (.messages ids)] })

def unsnoozeRows : Transaction := fun store =>
  match rows with
  | [] => .error (.rejected "Those messages are no longer here")
  | first :: _ =>
    let ids := rows.map Message.id
    let times := ((rows.filterMap Message.snoozedUntil).dedup).insertionSort (· ≤ ·)
    .ok (store.unsnooze ids,
      { account := first.accountId
        kind := .unsnooze
        messages := ids
        count := ids.length
        -- Each message goes back to sleep until the time it had.
        inverse := times.map (fun wakeAt =>
          .snooze (.messages ((rows.filter (fun row => row.snoozedUntil = some wakeAt)).map Message.id)) (some wakeAt)) })

def unsnoozeAim (store : MailStore) :
    Except CommandError (List Message) :=
  -- A conversation in the Snoozed list stands for the messages that are asleep.
  let asleep (threads : List ThreadId) : Except CommandError (List Message) :=
    let ids := (threads.flatMap store.snoozedMessages).map Message.id
    if ids.isEmpty then .error (.rejected "Nothing there is snoozed") else store.readRows ids
  match app.resolve target with
  | some (.thread thread) => asleep [thread]
  | some (.threads threads) => asleep threads
  | _ => do rowsAimed "Select the messages to unsnooze" (← aim app store now target)

def labelRow (label : LabelId) (keyword : Flag) (wanted : Bool) (now : Instant)
    (store : MailStore) (row : Message) : MailStore :=
  let linked := if wanted then store.attach row.id label else store.detach row.id label
  (linked.setFlags row.id (withFlag row.flags keyword wanted)).enqueue account row.id (flagOperation keyword wanted) now

def setLabelRows (label : LabelId) (want : Option Bool) : Transaction :=
  fun store =>
    match rows, store.label label with
    | [], _ => .error (.rejected "Those messages are no longer here")
    | _, none => .error (.rejected "That label no longer exists")
    | first :: _, some found =>
      let account := first.accountId
      let keyword := Flag.keyword found.name
      let wanted := want.getD (!rows.all (fun row => label ∈ row.labels))
      let touched := rows.filter (fun row => decide (label ∈ row.labels) ≠ wanted)
      if touched.isEmpty then .error (.rejected "Already set")
      else
        let changed := touched.map Message.id
        .ok (touched.foldl (labelRow account label keyword wanted now) store,
          { account
            kind := .label
            messages := changed
            count := changed.length
            inverse := [.addLabel (.messages changed) (some label) (some !wanted)] })

def defaultSnooze : Int := 3 * 60 * 60 * 1000

def rowsPlan (refusal : String) (app : AppState) (now : Instant) (target : MessageTarget)
    (run : List Message -> Transaction) (store : MailStore) : Except CommandError (List Transaction) := do
  return [run (← rowsAimed refusal (← aim app store now target))]

/-- The transactions a mail verb commits, from what it read. Focus's own two verbs commit theirs in steps. -/
def planOf : Command -> Option (MailStore -> Except CommandError (List Transaction))
  | .archive target => some (relocatePlan app now target (.role .archive) .archive)
  | .delete target => some (relocatePlan app now target (.role .trash) .delete)
  | .move _ none => some (fun _ => .error (.rejected "Pick a folder to move to — drag the rows onto one"))
  | .move target (some dest) => some (relocatePlan app now target (.mailbox dest) .move)
  | .flag target flagged => some (setFlagPlan app now target .flagged flagged)
  -- Marking unread is clearing `\Seen`.
  | .toggleRead target unread => some (setFlagPlan app now target .seen (unread.map not))
  | .addLabel _ none _ => some (fun _ => .error (.rejected "Pick a label to add"))
  | .addLabel target (some label) wanted =>
    some (rowsPlan "Labelling a whole mailbox at once is not supported yet" app now target
      (fun rows => setLabelRows now rows label wanted))
  | .snooze target wakeAt =>
    some (rowsPlan "Select the messages to snooze" app now target
      (fun rows => snoozeRows rows (wakeAt.getD (now + defaultSnooze))))
  | .unsnooze target => some (fun store => do return [unsnoozeRows (← unsnoozeAim app now target store)])
  | .restoreFiltered _ _ | .archiveDigest _ _ => none

def runPlan (plan : MailStore -> Except CommandError (List Transaction)) (world : World) :
    Except CommandError (List Applied) × World :=
  match plan world.state with
  | .error error => (.error error, world)
  | .ok transactions => commitAll isRejected transactions world

end Postio.Actions

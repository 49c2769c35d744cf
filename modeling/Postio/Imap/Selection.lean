import Mathlib.Logic.Function.Basic
import Postio.Lib.Run
import Postio.Store.MailStore

set_option autoImplicit false

namespace Postio

structure UidValidity where
  get : Nat
  deriving DecidableEq, Repr

/-- The name a mailbox is selected by. -/
abbrev MailboxPath := List Char

inductive SelectMode where
  | readWrite
  | readOnly
  deriving DecidableEq

inductive SelectError where
  | unsupported
  -- The command failed, or the connection did.
  | command
  | disconnected (path : MailboxPath) (skipped : Nat)
  | protocol (path : MailboxPath)
  | uidValidityChanged (mailbox : MailboxPath) (known observed : UidValidity)
  deriving DecidableEq

/-- What one `SELECT` or `EXAMINE` carried. -/
structure SelectData where
  uidValidity : Option UidValidity
  existing : Option Nat
  deriving DecidableEq

structure SelectedMailbox where
  path : MailboxPath
  condstore : Bool
  readOnly : Bool
  uidValidity : UidValidity
  epoch : Nat
  confirmedAt : Instant
  existing : Nat
  deriving DecidableEq

structure PoolGeneration where
  uidValidity : UidValidity
  epoch : Nat
  deriving DecidableEq

/-- The generation every session of a pool has observed, for each mailbox. -/
abbrev Generations := MailboxPath -> Option PoolGeneration

inductive Verdict where
  | unchanged
  | changed (known : UidValidity)
  deriving DecidableEq

namespace Generations

variable (seen : Generations) (path : MailboxPath)

def known : Option UidValidity :=
  (seen path).map (fun generation => generation.uidValidity)

def epoch (seen : Generations) (path : MailboxPath) : Option Nat := (seen path).map (fun generation => generation.epoch)

def recorded (observed : UidValidity) : PoolGeneration :=
  -- What the log says of a mailbox once a generation of it was observed. The epoch steps once per change.
  match seen path with
  | none => { uidValidity := observed, epoch := 0 }
  | some generation =>
    if generation.uidValidity ≠ observed then { uidValidity := observed, epoch := generation.epoch + 1 }
    else generation

def verdict (promised : Option UidValidity) (observed : UidValidity) : Verdict :=
  -- What the asking session promised takes precedence over the log.
  match promised.or (seen.known path) with
  | some known => if known ≠ observed then .changed known else .unchanged
  | none => .unchanged

def observe (promised : Option UidValidity) (observed : UidValidity) :
    Verdict × Nat × Generations :=
  (seen.verdict path promised observed, (seen.recorded path observed).epoch,
    Function.update seen path (some (seen.recorded path observed)))

end Generations

/-- Which answer a call waits for. -/
inductive SelectStage where
  | first
  -- The first answer carried no `UIDVALIDITY`.
  | retried (skipped : Nat)
  -- The answer contradicts what was believed, and is asked for again.
  | rechecking (promised : Option UidValidity)
  deriving DecidableEq

structure SelectCall where
  path : MailboxPath
  mode : SelectMode
  wantCondstore : Bool
  stage : SelectStage
  deriving DecidableEq

structure ImapSession where
  condstore : Bool
  selected : Option SelectedMailbox
  -- The call the session is borrowed by.
  calling : Option SelectCall
  deriving DecidableEq

/-- What a session is left as, the log, and what the call answered once it has. -/
structure SelectTurn where
  session : ImapSession
  generations : Generations
  outcome : Option (Except SelectError UidValidity)

namespace ImapSession

def opened (condstore : Bool) : ImapSession := { condstore, selected := none, calling := none }

variable (session : ImapSession) (generations : Generations) (now : Instant) (path : MailboxPath) (call : SelectCall)

def promised : Option UidValidity :=
  (session.selected.filter (fun selected => selected.path = path)).map (fun selected => selected.uidValidity)

/-- Whether a cached selection serves a call, and needs no `SELECT`. -/
def covers (maxAge : Nat) (now : Instant) (path : MailboxPath) (wantCondstore : Bool)
    (selected : SelectedMailbox) : Bool :=
  selected.path = path && !selected.readOnly && (selected.condstore || !wantCondstore) &&
    some selected.epoch = generations.epoch path && now - selected.confirmedAt < maxAge

def failed (error : SelectError) : SelectTurn :=
  { session := { session with calling := none }, generations, outcome := some (.error error) }

def ask : SelectTurn :=
  { session := { session with calling := some call }, generations, outcome := none }

/-- `select_now`, as far as its first `SELECT`. -/
def selectNow (mode : SelectMode) (wantCondstore : Bool) : SelectTurn :=
  if wantCondstore && !session.condstore then session.failed generations .unsupported
  else session.ask generations { path, mode, wantCondstore, stage := .first }

def ensureSelected (maxAge : Nat) (now : Instant) (path : MailboxPath) (wantCondstore : Bool) : SelectTurn :=
  match session.selected.filter (covers generations maxAge now path wantCondstore) with
  | some selected => { session, generations, outcome := some (.ok selected.uidValidity) }
  | none => session.selectNow generations path .readWrite wantCondstore

/-- `select`, which wants `CONDSTORE` wherever it is to be had. -/
def select (mode : SelectMode) : SelectTurn :=
  session.selectNow generations path mode session.condstore

def conclude (promised : Option UidValidity) (data : SelectData) (observed : UidValidity) : SelectTurn :=
  -- Adopts what was observed, and reports it, or that it is not what was believed.
  let (verdict, epoch, generations) := generations.observe call.path promised observed
  { session := { session with
      selected := some {
        path := call.path
        condstore := call.wantCondstore
        readOnly := call.mode = .readOnly
        uidValidity := observed
        epoch
        confirmedAt := now
        existing := data.existing.getD 0 }
      calling := none }
    generations
    outcome := some (match verdict with
      | .changed known => .error (.uidValidityChanged call.path known observed)
      | .unchanged => .ok observed) }

def weigh (data : SelectData) (observed : UidValidity) : SelectTurn :=
  -- A renumber has to be said twice before it is believed.
  let promised := session.promised call.path
  if (promised.or (generations.known call.path)).any (fun known => known ≠ observed) then
    session.ask generations { call with stage := .rechecking promised }
  else session.conclude generations now call promised data observed

def answered (reply : Option (SelectData × Nat)) : SelectTurn :=
  -- What an answer of the server leads to. `skipped` counts the responses dropped undecoded.
  match reply with
  | none => session.failed generations .command
  | some (data, skipped) =>
    match call.stage, data.uidValidity with
    | .first, some observed | .retried _, some observed => session.weigh generations now call data observed
    | .first, none => session.ask generations { call with stage := .retried skipped }
    | .retried earlier, none =>
      if earlier + skipped > 0 then session.failed generations (.disconnected call.path (earlier + skipped))
      else session.failed generations (.protocol call.path)
    | .rechecking promised, some observed => session.conclude generations now call promised data observed
    | .rechecking _, none => session.failed generations (.protocol call.path)

end ImapSession

/-- The sessions of a pool. What each last learned of a mailbox, and was not told to forget, nothing in it knows. -/
structure ConnectionPool (Name : Type) where
  generations : Generations
  selectionMaxAge : Nat
  now : Instant
  sessions : Name -> ImapSession
  learned : Name -> MailboxPath -> Option UidValidity

inductive SelectionEvent (Name : Type) where
  | ensureSelected (session : Name) (path : MailboxPath) (wantCondstore : Bool)
  | select (session : Name) (path : MailboxPath) (mode : SelectMode)
  -- Whatever the server says by then, or that it says nothing more.
  | answer (session : Name) (reply : Option (SelectData × Nat))
  -- The caller gave up waiting.
  | abandon (session : Name)
  | pass (time : Nat)

namespace ConnectionPool

variable {Name : Type} [DecidableEq Name]

def opened (selectionMaxAge : Nat) (now : Instant) (condstore : Name -> Bool) : ConnectionPool Name where
  generations := fun _ => none
  selectionMaxAge
  now
  sessions := fun name => .opened (condstore name)
  learned := fun _ _ => none

variable (pool : ConnectionPool Name)

/-- The turn an event gives a session, with the mailbox it is about. A session in a call is not free for another. -/
def turn : SelectionEvent Name -> Option (Name × MailboxPath × SelectTurn)
  | .ensureSelected name path wantCondstore =>
    match (pool.sessions name).calling with
    | none => some (name, path,
        (pool.sessions name).ensureSelected pool.generations pool.selectionMaxAge pool.now path wantCondstore)
    | some _ => none
  | .select name path mode =>
    match (pool.sessions name).calling with
    | none => some (name, path, (pool.sessions name).select pool.generations path mode)
    | some _ => none
  | .answer name reply =>
    match (pool.sessions name).calling with
    | some call => some (name, call.path, (pool.sessions name).answered pool.generations pool.now call reply)
    | none => none
  | .abandon name =>
    match (pool.sessions name).calling with
    | some call => some (name, call.path, (pool.sessions name).failed pool.generations .command)
    | none => none
  | .pass _ => none

def heard (before : Option UidValidity) : Option (Except SelectError UidValidity) -> Option UidValidity
  | some (.ok observed) => some observed
  | some (.error (.uidValidityChanged _ _ _)) => none
  | some (.error _) | none => before

def take (name : Name) (path : MailboxPath) (turn : SelectTurn) : ConnectionPool Name :=
  { pool with
    generations := turn.generations
    sessions := Function.update pool.sessions name turn.session
    learned := Function.update pool.learned name
      (Function.update (pool.learned name) path (heard (pool.learned name path) turn.outcome)) }

def step (event : SelectionEvent Name) : ConnectionPool Name :=
  match event with
  | .pass time => { pool with now := pool.now + time }
  | event =>
    match pool.turn event with
    | some (name, path, turn) => pool.take name path turn
    | none => pool

end ConnectionPool

end Postio

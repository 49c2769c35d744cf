import Postio.Lib.Run
import Postio.Lib.Table

set_option autoImplicit false

namespace Postio.Pool

inductive Priority where
  | interactive
  | background
  deriving DecidableEq

inductive LaneKind where
  | general
  | watch
  deriving DecidableEq

structure PoolConfig where
  maxConnections : Nat
  idleTimeout : Nat
  dedicateWatchConnection : Bool
  deriving DecidableEq

/-- A connection parked between uses. -/
structure Parked where
  session : Nat
  since : Nat
  deriving DecidableEq

structure Lane where
  permits : Nat
  -- The connection parked last is taken first.
  parked : List Parked
  -- The tickets waiting, the oldest first.
  waiters : Priority -> List Nat

namespace Lane

def withPermits (permits : Nat) : Lane := { permits := permits, parked := [], waiters := fun _ => [] }

def takePermit (lane : Lane) (priority : Priority) (ticket : Nat) : Lane × Bool :=
  -- Takes a slot, or queues a waiter for one.
  if 0 < lane.permits then ({ lane with permits := lane.permits - 1 }, true)
  else
    ({ lane with waiters := Function.update lane.waiters priority (lane.waiters priority ++ [ticket]) }, false)

def firstListening (listens : Nat -> Bool) : List Nat -> Option (Nat × List Nat)
  | [] => none
  | ticket :: rest => if listens ticket then some (ticket, rest) else firstListening listens rest

def releasePermit (listens : Nat -> Bool) (lane : Lane) : Lane × Option Nat :=
  -- Hands a slot to the next waiter, or puts it back. Says who was served.
  match firstListening listens (lane.waiters .interactive) with
  | some (ticket, rest) => ({ lane with waiters := Function.update lane.waiters .interactive rest }, some ticket)
  | none =>
    match firstListening listens (lane.waiters .background) with
    | some (ticket, rest) =>
      ({ lane with waiters := Function.update (fun _ => []) .background rest }, some ticket)
    | none => ({ lane with waiters := fun _ => [], permits := lane.permits + 1 }, none)

def cancel (lane : Lane) (ticket : Nat) : Lane × Bool :=
  -- Removes an abandoned waiter. Says whether it was still queued.
  if ticket ∈ lane.waiters .interactive then
    ({ lane with
        waiters := Function.update lane.waiters .interactive ((lane.waiters .interactive).erase ticket) }, true)
  else if ticket ∈ lane.waiters .background then
    ({ lane with
        waiters := Function.update lane.waiters .background ((lane.waiters .background).erase ticket) }, true)
  else (lane, false)

def takeParked (lane : Lane) (idleTimeout now : Nat) : Lane × Option Nat :=
  -- Takes a parked connection, dropping any that sat too long.
  match lane.parked.dropWhile (fun parked => ¬ now - parked.since < idleTimeout) with
  | [] => ({ lane with parked := [] }, none)
  | parked :: rest => ({ lane with parked := rest }, some parked.session)

def dropParked (lane : Lane) : Lane := { lane with parked := [] }

def close (lane : Lane) : Lane := { lane with parked := [], waiters := fun _ => [] }

end Lane

/-- How far an acquisition has come. -/
inductive Phase where
  | queued
  -- The slot is in the channel, not yet received.
  | handed
  -- The wait timed out and its receiver is gone, perhaps with a slot in it.
  | elapsed (sent : Bool)
  -- The slot is taken, the lane not yet asked for a parked connection.
  | granted
  | opening
  -- A session is at hand, not yet counted as in use.
  | ready (session : Nat)
  | holding (session : Nat) (discard : Bool)
  deriving DecidableEq

/-- One call of `acquire_lane`, and the guard it returns. -/
structure Call where
  ticket : Nat
  lane : LaneKind
  priority : Priority
  phase : Phase
  deriving DecidableEq

structure ConnectionPool where
  config : PoolConfig
  watchDedicated : Bool
  general : Lane
  watch : Lane
  inUse : Nat
  opened : Nat
  closed : Bool
  -- Every acquisition takes a ticket of its own, so `tickets` is the number of the last one taken.
  calls : Table Call Call.ticket

namespace PoolConfig

def watchSlots (config : PoolConfig) : Nat :=
  if config.dedicateWatchConnection ∧ 1 < max config.maxConnections 1 then 1 else 0

def slots (config : PoolConfig) : LaneKind -> Nat
  | .general => max config.maxConnections 1 - config.watchSlots
  | .watch => config.watchSlots

end PoolConfig

namespace ConnectionPool

def new (config : PoolConfig) : ConnectionPool :=
  { config := { config with maxConnections := max config.maxConnections 1 }
    watchDedicated := 0 < config.watchSlots
    general := Lane.withPermits (config.slots .general)
    watch := Lane.withPermits (config.slots .watch)
    inUse := 0
    opened := 0
    closed := false
    calls := Table.empty Call.ticket }

variable (pool : ConnectionPool) (call : Call) (kind : LaneKind) (ticket : Nat)

def lane : LaneKind -> Lane
  | .general => pool.general
  | .watch => pool.watch

def putLane (lane : Lane) : ConnectionPool :=
  match kind with
  | .general => { pool with general := lane }
  | .watch => { pool with watch := lane }

def phase (pool : ConnectionPool) (ticket : Nat) : Option Phase := (pool.calls.get ticket).map (fun call => call.phase)

def putPhase (phase : Phase) : ConnectionPool :=
  { pool with calls := pool.calls.updateAt ticket (fun call => { call with phase := phase }) (fun _ => rfl) }

def gone : ConnectionPool := { pool with calls := pool.calls.removeAt ticket }

def listens : Bool := pool.phase ticket = some .queued

def release : ConnectionPool :=
  match (pool.lane kind).releasePermit pool.listens with
  | (lane, none) => pool.putLane kind lane
  | (lane, some ticket) => (pool.putLane kind lane).putPhase ticket .handed

def resolve : LaneKind -> LaneKind
  | .watch => if pool.watchDedicated then .watch else .general
  | .general => .general

def acquire (priority : Priority) : ConnectionPool :=
  -- The first critical section of an acquisition.
  let kind := pool.resolve kind
  if pool.closed then pool
  else
    let taken := (pool.lane kind).takePermit priority pool.calls.nextId
    { pool.putLane kind taken.1 with
      calls := pool.calls.insert
        (fun ticket => { ticket := ticket, lane := kind, priority := priority,
                         phase := if taken.2 then .granted else .queued })
        (fun _ => rfl) }

def poll : ConnectionPool :=
  -- The wait is polled. A sender dropped without a word means the pool was closed.
  match call.phase with
  | .handed => pool.putPhase call.ticket .granted
  | .queued =>
    if call.ticket ∈ (pool.lane call.lane).waiters call.priority then pool else pool.gone call.ticket
  | _ => pool

def elapse : ConnectionPool :=
  -- The wait runs out, which drops its receiver.
  match call.phase with
  | .queued => pool.putPhase call.ticket (.elapsed false)
  | .handed => pool.putPhase call.ticket (.elapsed true)
  | _ => pool

def giveUp : ConnectionPool :=
  match call.phase with
  | .elapsed _ =>
    match (pool.lane call.lane).cancel call.ticket with
    | (lane, true) => (pool.putLane call.lane lane).gone call.ticket
    | (_, false) => (pool.gone call.ticket).release call.lane
  | _ => pool

def look (now : Nat) : ConnectionPool :=
  -- Takes a parked connection, or goes on to open one.
  match call.phase with
  | .granted =>
    if pool.closed then (pool.gone call.ticket).release call.lane
    else
      match (pool.lane call.lane).takeParked pool.config.idleTimeout now with
      | (lane, some session) => (pool.putLane call.lane lane).putPhase call.ticket (.ready session)
      | (lane, none) => (pool.putLane call.lane lane).putPhase call.ticket .opening
  | _ => pool

def openDone : ConnectionPool :=
  match call.phase with
  | .opening => { pool with opened := pool.opened + 1 }.putPhase call.ticket (.ready (pool.opened + 1))
  | _ => pool

def openFailed : ConnectionPool :=
  match call.phase with
  | .opening => (pool.gone call.ticket).release call.lane
  | _ => pool

def checkOut : ConnectionPool :=
  match call.phase with
  | .ready session => { pool with inUse := pool.inUse + 1 }.putPhase call.ticket (.holding session false)
  | _ => pool

def setDiscard (discard : Bool) : ConnectionPool :=
  match call.phase with
  | .holding session _ => pool.putPhase call.ticket (.holding session discard)
  | _ => pool

def park (session now : Nat) : ConnectionPool :=
  pool.putLane kind
    { pool.lane kind with parked := { session := session, since := now } :: (pool.lane kind).parked }

def giveBack (now : Nat) : ConnectionPool :=
  -- Returns a connection to its lane, or drops it.
  match call.phase with
  | .holding session discard =>
    let left := { pool with inUse := pool.inUse - 1 }.gone call.ticket
    if discard ∨ left.closed then left.release call.lane
    else (left.park call.lane session now).release call.lane
  | _ => pool

def dropped (pool : ConnectionPool) (call : Call) : ConnectionPool :=
  -- The caller's future is dropped where it awaits: in the queue, or while the connection is being opened.
  match call.phase with
  | .queued => pool.gone call.ticket
  | .handed => pool.gone call.ticket
  | .opening => pool.gone call.ticket
  | _ => pool

def dropIdle : ConnectionPool :=
  { pool with general := pool.general.dropParked, watch := pool.watch.dropParked }

def close (pool : ConnectionPool) : ConnectionPool :=
  { pool with closed := true, general := pool.general.close, watch := pool.watch.close }

end ConnectionPool

inductive CallEvent where
  | poll
  | elapse
  | giveUp
  | look (now : Nat)
  | openDone
  | openFailed
  | checkOut
  | setDiscard (discard : Bool)
  | giveBack (now : Nat)
  | dropped
  deriving DecidableEq

inductive Event where
  | acquire (kind : LaneKind) (priority : Priority)
  | call (ticket : Nat) (event : CallEvent)
  | dropIdle
  | close
  deriving DecidableEq

namespace ConnectionPool

def callStep (pool : ConnectionPool) (call : Call) : CallEvent -> ConnectionPool
  | .poll => pool.poll call
  | .elapse => pool.elapse call
  | .giveUp => pool.giveUp call
  | .look now => pool.look call now
  | .openDone => pool.openDone call
  | .openFailed => pool.openFailed call
  | .checkOut => pool.checkOut call
  | .setDiscard discard => pool.setDiscard call discard
  | .giveBack now => pool.giveBack call now
  | .dropped => pool.dropped call

/-- What one critical section, or one thing that happens to a future, does to the pool. -/
def step (pool : ConnectionPool) : Event -> ConnectionPool
  | .acquire kind priority => pool.acquire kind priority
  | .call ticket event =>
    match pool.calls.get ticket with
    | none => pool
    | some call => pool.callStep call event
  | .dropIdle => pool.dropIdle
  | .close => pool.close

end ConnectionPool

end Postio.Pool

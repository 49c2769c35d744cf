import Postio.Model.Ids
import Postio.Store.MailStore

set_option autoImplicit false

namespace Postio

structure Generation where
  get : Nat
  deriving DecidableEq, Repr

abbrev Uid := Nat

abbrev ModSeq := Nat

/-- What a `SELECT` reported of a mailbox. -/
structure ServerStatus where
  generation : Generation
  uidNext : Uid
  existing : Nat
  highestModSeq : Option ModSeq
  deriving DecidableEq

inductive FullResyncReason where
  | neverSynced
  | generationChanged
  | noModSeq
  | modSeqWentBackwards
  | shortOfExists
  deriving DecidableEq

inductive ResyncPlan where
  | full (reason : FullResyncReason)
  | incremental (since : ModSeq)
  | upToDate
  deriving DecidableEq

inductive ChangeFeed where
  | reliable
  | unreliable
  deriving DecidableEq

inductive FlagPass where
  | trust
  | sweep
  deriving DecidableEq

structure SweepPolicy where
  everyPassUpTo : Nat
  largerEvery : Nat
  deriving DecidableEq

def SweepPolicy.decide (policy : SweepPolicy) (existing passesSinceSweep : Nat) : ChangeFeed -> FlagPass
  | .reliable => .trust
  | .unreliable =>
    if existing ≤ policy.everyPassUpTo then .sweep
    else if passesSinceSweep + 1 ≥ policy.largerEvery then .sweep
    else .trust

structure SyncState where
  generation : Option Generation
  uidNext : Option Uid
  highestModSeq : Option ModSeq
  lastFullSyncAt : Option Instant
  lastSeenAt : Option Instant
  passesSinceFlagSweep : Nat
  deriving DecidableEq

namespace SyncState

def neverSynced : SyncState where
  generation := none
  uidNext := none
  highestModSeq := none
  lastFullSyncAt := none
  lastSeenAt := none
  passesSinceFlagSweep := 0

variable (state : SyncState)

def hasSynced : Bool := state.generation.isSome && state.lastFullSyncAt.isSome

def generationChanged (observed : Generation) : Bool :=
  state.generation.any (fun known => known ≠ observed)

def plan (status : ServerStatus) : ResyncPlan :=
  -- What to do about a mailbox. The worst of what may be wrong decides.
  if state.generationChanged status.generation then .full .generationChanged
  else if !state.hasSynced then .full .neverSynced
  else
    match state.highestModSeq, status.highestModSeq with
    | some known, some reported =>
      if reported > known then .incremental known
      else if reported < known then .full .modSeqWentBackwards
      else .upToDate
    | _, _ => .full .noModSeq

def observe (status : ServerStatus) (now : Instant) : SyncState :=
  let kept := if state.generationChanged status.generation then
      { state with highestModSeq := none, uidNext := none, lastFullSyncAt := none, passesSinceFlagSweep := 0 }
    else state
  { kept with
    generation := some status.generation
    uidNext := some status.uidNext
    highestModSeq := status.highestModSeq.or kept.highestModSeq
    lastSeenAt := some now }

def completeFullSync (now : Instant) : SyncState :=
  { state with lastFullSyncAt := some now, lastSeenAt := some now, passesSinceFlagSweep := 0 }

def recordFlagPass (swept : Bool) : SyncState :=
  { state with passesSinceFlagSweep := if swept then 0 else state.passesSinceFlagSweep + 1 }

end SyncState

end Postio

import Mathlib.Data.List.Basic
import Postio.Model.Ids

set_option autoImplicit false

namespace Postio.Core

/-! The undo stack with its windows and its policy. Kinds are compared and commands replayed; nothing here looks into them. -/

structure UndoEntry (Kind Command : Type) where
  kind : Kind
  -- How long the unit is offered, when that is shorter than the stack's own expiry.
  window : Option Nat
  messages : List MessageId
  count : Nat
  rows : Option Nat
  inverse : List Command
  deriving DecidableEq

structure Recorded (Kind Command : Type) where
  entry : UndoEntry Kind Command
  time : Nat
  deriving DecidableEq

structure Policy where
  coalesceWithin : Nat
  expireAfter : Nat
  depth : Nat
  deep : 0 < depth

structure UndoStack (Kind Command : Type) (policy : Policy) where
  entries : List (Recorded Kind Command)
  bounded : entries.length ≤ policy.depth

variable {Kind Command : Type}

namespace UndoEntry

def new (kind : Kind) (messages : List MessageId) (inverse : List Command) : UndoEntry Kind Command :=
  { kind, window := none, messages, count := messages.length, rows := none, inverse }

variable (entry : UndoEntry Kind Command)

def shown : Nat := entry.rows.getD entry.count

def isBulk : Bool := entry.count ≠ entry.messages.length

def overlaps (other : UndoEntry Kind Command) : Bool :=
  entry.isBulk || other.isBulk || other.messages.any (fun message => entry.messages.contains message)

def absorb (other : UndoEntry Kind Command) : UndoEntry Kind Command :=
  { entry with
    rows := if entry.rows.isSome || other.rows.isSome then some (entry.shown + other.shown) else entry.rows
    messages := entry.messages ++ other.messages
    count := entry.count + other.count
    inverse := entry.inverse ++ other.inverse }

end UndoEntry

def Recorded.closed (recorded : Recorded Kind Command) (now : Nat) : Bool :=
  recorded.entry.window.any (fun window => window ≤ now - recorded.time)

namespace Policy

def of (coalesceWithin expireAfter depth : Nat) : Policy :=
  { coalesceWithin, expireAfter, depth := max depth 1, deep := by omega }

def new : Policy := of 1000 600000 50

variable (policy : Policy) (entries : List (Recorded Kind Command)) (recorded : Recorded Kind Command) (now : Nat)

def expired : Bool :=
  policy.expireAfter < now - recorded.time

def joins [DecidableEq Kind] (policy : Policy) (last : Recorded Kind Command) (entry : UndoEntry Kind Command) (now : Nat) :
    Bool :=
  last.entry.kind = entry.kind && last.entry.window.isNone && entry.window.isNone &&
    now - last.time ≤ policy.coalesceWithin && !last.entry.overlaps entry

/-- What `prune` keeps. Only the front is looked at for the stack's own expiry. -/
def pruned : List (Recorded Kind Command) :=
  (entries.dropWhile (fun recorded => policy.expired recorded now)).filter (fun recorded => !recorded.closed now)

def pushed :
    List (Recorded Kind Command) :=
  if policy.depth < (entries ++ [recorded]).length then (entries ++ [recorded]).tail else entries ++ [recorded]

def recordInto [DecidableEq Kind] (policy : Policy) (entries : List (Recorded Kind Command)) (entry : UndoEntry Kind Command)
    (now : Nat) : List (Recorded Kind Command) :=
  match entries.getLast? with
  | some last =>
    if policy.joins last entry now then entries.dropLast ++ [{ entry := last.entry.absorb entry, time := now }]
    else policy.pushed entries { entry, time := now }
  | none => policy.pushed entries { entry, time := now }

theorem pruned_sublist : (policy.pruned entries now).Sublist entries:=
  List.filter_sublist.trans (List.dropWhile_sublist _)

theorem pushed_bounded (bounded : entries.length ≤ policy.depth) : (policy.pushed entries recorded).length ≤ policy.depth := by
  unfold pushed
  split
  next => simpa using bounded
  next within => exact Nat.not_lt.mp within

theorem recordInto_bounded [DecidableEq Kind] (policy : Policy) (entries : List (Recorded Kind Command))
    (entry : UndoEntry Kind Command) (now : Nat) (bounded : entries.length ≤ policy.depth) :
    (policy.recordInto entries entry now).length ≤ policy.depth := by
  unfold recordInto
  split
  next last found =>
    split
    next =>
      have filled : entries ≠ [] := by
        rintro rfl
        simp at found
      have length := List.length_pos_iff.mpr filled
      rw [List.length_append, List.length_dropLast, List.length_singleton]
      omega
    next => exact policy.pushed_bounded entries _ bounded
  next => exact policy.pushed_bounded entries _ bounded

end Policy

namespace UndoStack

variable {policy : Policy}

def empty (Kind Command : Type) (policy : Policy) : UndoStack Kind Command policy := { entries := [], bounded := Nat.zero_le _ }

variable (stack : UndoStack Kind Command policy) (now : Nat)

def prune : UndoStack Kind Command policy :=
  { entries := policy.pruned stack.entries now
    bounded := Nat.le_trans (policy.pruned_sublist stack.entries now).length_le stack.bounded }

def peek : Option (UndoEntry Kind Command) :=
  (stack.entries.reverse.find? (fun recorded => !recorded.closed now)).map Recorded.entry

def recordAt [DecidableEq Kind] (stack : UndoStack Kind Command policy) (entry : UndoEntry Kind Command) (now : Nat) :
    UndoStack Kind Command policy :=
  { entries := policy.recordInto (stack.prune now).entries entry now
    bounded := policy.recordInto_bounded _ entry now (stack.prune now).bounded }

def undoAt :
    Option (UndoEntry Kind Command) × UndoStack Kind Command policy :=
  ((stack.prune now).entries.getLast?.map Recorded.entry,
    { entries := (stack.prune now).entries.dropLast
      bounded := Nat.le_trans (List.dropLast_sublist _).length_le (stack.prune now).bounded })

end UndoStack

end Postio.Core

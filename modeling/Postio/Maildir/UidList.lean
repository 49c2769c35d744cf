import Mathlib.Data.Char
import Mathlib.Data.List.Lex
import Mathlib.Data.List.Sort
import Postio.Lib.Lines
import Postio.Lib.Run
import Postio.Model.Ids

set_option autoImplicit false

namespace Postio

/-- A file name in a maildir folder. -/
abbrev FileName := List Char

/-- The part of a file name that does not move with the flags. -/
abbrev DeliveryName := List Char

/-- What comes before the last `:2,`. -/
def beforeFlags : List Char -> Option (List Char)
  | [] => none
  | char :: rest =>
    match beforeFlags rest with
    | some identity => some (char :: identity)
    | none => if [':', '2', ','].isPrefixOf (char :: rest) then some [] else none

def stripFlags (name : FileName) : DeliveryName := (beforeFlags name).getD name

/-- Arithmetic on `u32` that does not fit. -/
inductive Overflow where
  | u32
  deriving DecidableEq

abbrev u32Bound : Nat := 4294967296

def increment (uid : Nat) : Except Overflow Nat :=
  if uid + 1 < u32Bound then .ok (uid + 1) else .error .u32

structure UidList where
  validity : Nat
  uids : List (DeliveryName × Nat)
  next : Nat
  deriving DecidableEq

namespace UidList

def new (validity : Nat) : UidList := { validity, uids := [], next := 1 }

variable (list : UidList) (uids : List (DeliveryName × Nat))

def get (name : DeliveryName) : Option Nat :=
  (uids.find? (fun entry => entry.1 = name)).map (fun entry => entry.2)

def insert (name : DeliveryName) (uid : Nat) : List (DeliveryName × Nat) :=
  if uids.any (fun entry => entry.1 = name) then
    uids.map (fun entry => if entry.1 = name then (name, uid) else entry)
  else uids ++ [(name, uid)]

/-- `char::is_whitespace`. -/
def isWhitespace (char : Char) : Bool :=
  (9 ≤ char.toNat && char.toNat ≤ 13) || (0x2000 ≤ char.toNat && char.toNat ≤ 0x200A) ||
    [0x20, 0x85, 0xA0, 0x1680, 0x2028, 0x2029, 0x202F, 0x205F, 0x3000].contains char.toNat

def trim (text : List Char) : List Char := (text.dropWhile isWhitespace).rdropWhile isWhitespace

def header : List Char := ['u', 'i', 'd', 'v', 'a', 'l', 'i', 'd', 'i', 't', 'y', ' ']

def addLine (line : List Char) : Except Overflow UidList :=
  -- One entry of the file. A line that is none costs only itself.
  match Lines.splitOnce ' ' line with
  | none => .ok list
  | some (uid, name) =>
    match Lines.parseDecimal u32Bound uid with
    | none => .ok list
    | some uid =>
      if name = [] then .ok list
      else (increment uid).map (fun after =>
        { list with uids := insert list.uids name uid, next := max list.next after })

def addLines (list : UidList) : List (List Char) -> Except Overflow UidList
  | [] => .ok list
  | line :: rest => (list.addLine line).bind (fun list => list.addLines rest)

def parseValidity (line : List Char) : Option Nat :=
  if header.isPrefixOf line then Lines.parseDecimal u32Bound (trim (line.drop header.length)) else none

def parse (text : List Char) : Except Overflow (Option UidList) :=
  match Lines.lines text with
  | [] => .ok none
  | first :: rest =>
    match parseValidity first with
    | none => .ok none
    | some validity => ((new validity).addLines rest).map some

def entryLine (entry : DeliveryName × Nat) : List Char := Nat.toDigits 10 entry.2 ++ ' ' :: entry.1

def ordered : List (DeliveryName × Nat) :=
  uids.insertionSort (fun first second => first.2 < second.2 ∨ first.2 = second.2 ∧ first.1 ≤ second.1)

def renderEntries (entries : List (DeliveryName × Nat)) : List Char :=
  entries.flatMap (fun entry => entryLine entry ++ ['\n'])

def render : List Char :=
  header ++ Nat.toDigits 10 list.validity ++ '\n' :: renderEntries (ordered list.uids)

def load (sidecar : Option (List Char)) (now : Nat) : Except Overflow UidList :=
  -- Reads the list beside a folder, or starts one.
  match sidecar with
  | none => .ok (new now)
  | some text => (parse text).map (fun list => list.getD (new now))

def uidFor (name : FileName) : Except Overflow (Nat × UidList) :=
  -- The number of a name, a new one at its first sight.
  match get list.uids (stripFlags name) with
  | some uid => .ok (uid, list)
  | none => (increment list.next).map (fun after =>
      (list.next, { list with next := after, uids := insert list.uids (stripFlags name) list.next }))

def retain (present : List FileName) : UidList :=
  { list with uids := list.uids.filter (fun entry => (present.map stripFlags).contains entry.1) }

/-- Numbers the files as they are listed. -/
def numberAll (list : UidList) : List FileName -> Except Overflow (List (Nat × FileName) × UidList)
  | [] => .ok ([], list)
  | name :: rest => do
    let (uid, list) ← list.uidFor name
    let (entries, list) ← list.numberAll rest
    .ok ((uid, name) :: entries, list)

end UidList

/-- What a folder looked like: its messages, lowest number first, and its numbers. -/
structure Snapshot where
  entries : List (Nat × FileName)
  validity : Nat
  next : Nat
  deriving DecidableEq

/-- A folder, and the list of numbers beside it. -/
structure MaildirFolder where
  files : List FileName
  sidecar : Option (List Char)
  -- What this process would call the folder's `UIDVALIDITY` if it had to start a list.
  freshValidity : Fin u32Bound
  -- Every snapshot answered so far, the newest first, or that its arithmetic overflowed.
  answers : List (Except Overflow Snapshot)
  -- The number each message was shown under last, for as long as it stays. Nothing in the code keeps it.
  shown : List (DeliveryName × Nat)

inductive MaildirEvent where
  | deliver (name : FileName)
  | delete (name : FileName)
  -- Marking a message read or flagged renames its file.
  | rename (name other : FileName)
  | restart (now : Fin u32Bound)
  -- The files in the order the directory lists them, and whether the list could be saved.
  | snapshot (listed : List FileName) (saved : Bool)
  deriving DecidableEq

namespace MaildirFolder

def opened (files : List FileName) (sidecar : Option (List Char)) (now : Fin u32Bound) : MaildirFolder :=
  { files, sidecar, freshValidity := now, answers := [], shown := [] }

variable (folder : MaildirFolder)

def snapshot (listed : List FileName) : Except Overflow (Snapshot × UidList) := do
  let uids ← UidList.load folder.sidecar folder.freshValidity
  let (entries, uids) ← uids.numberAll listed
  let uids := uids.retain listed
  .ok ({ entries := entries.insertionSort (fun first second => first.1 ≤ second.1)
         validity := uids.validity
         next := uids.next }, uids)

def stillShown (shown : List (DeliveryName × Nat)) (files : List FileName) : List (DeliveryName × Nat) :=
  shown.filter (fun entry => (files.map stripFlags).contains entry.1)

def takeSnapshot (listed : List FileName) (saved : Bool) : MaildirFolder :=
  match folder.snapshot listed with
  | .error overflowed => { folder with answers := .error overflowed :: folder.answers }
  | .ok (answer, uids) =>
    { folder with
      sidecar := if saved then some uids.render else folder.sidecar
      answers := .ok answer :: folder.answers
      shown := answer.entries.map (fun entry => (stripFlags entry.2, entry.1)) }

def step : MaildirEvent -> MaildirFolder
  | .deliver name => if name ∈ folder.files then folder else { folder with files := folder.files ++ [name] }
  | .delete name =>
    let files := folder.files.filter (fun file => file ≠ name)
    { folder with files, shown := stillShown folder.shown files }
  | .rename name other =>
    if name ∈ folder.files ∧ other ∉ folder.files ∧ stripFlags other = stripFlags name then
      { folder with files := folder.files.map (fun file => if file = name then other else file) }
    else folder
  | .restart now => { folder with freshValidity := now }
  | .snapshot listed saved => if listed.Perm folder.files then folder.takeSnapshot listed saved else folder

end MaildirFolder

end Postio

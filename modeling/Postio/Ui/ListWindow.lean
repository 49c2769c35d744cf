import Postio.Lib.Run
import Postio.Model.Ids

set_option autoImplicit false

namespace Postio

def pageSize : Nat := 50

def cachePages : Nat := 8

/-- A redelivered row is the delivered one. What a toolkit keeps of the object before it is the toolkit's. -/
class ListRow (Row : Type) where
  id : Row -> Option MessageId

/-- Held pages, at most one an index. -/
abbrev Pages (Row : Type) := List (Nat × List Row)

namespace Pages

variable {Row : Type}

variable (pages : Pages Row)

def get (page : Nat) : Option (List Row) :=
  (pages.find? (fun entry => entry.1 = page)).map Prod.snd

def put (page : Nat) (rows : List Row) : Pages Row :=
  (page, rows) :: pages.filter (fun entry => entry.1 ≠ page)

def retain (keep : Nat -> Bool) : Pages Row := pages.filter (fun entry => keep entry.1)

end Pages

structure ListWindow (Row : Type) where
  total : Nat
  pages : Pages Row
  -- Page indices, least recently used first.
  recent : List Nat
  -- Pages asked for and not yet delivered.
  pending : List Nat
  generation : Nat
  -- Replies to drop when they land, for each page.
  discard : Nat -> Nat

inductive Lookup (Row : Type) where
  | resident (row : Row)
  | missing (request : List Nat)

namespace ListWindow

variable {Row : Type}

def new : ListWindow Row where
  total := 0
  pages := []
  recent := []
  pending := []
  generation := 0
  discard := fun _ => 0

def reset (window : ListWindow Row) (total : Nat) : ListWindow Row :=
  { total, pages := [], recent := [], pending := [], generation := window.generation + 1, discard := fun _ => 0 }

def invalidate (window : ListWindow Row) : ListWindow Row :=
  { window with pages := [], recent := [], pending := [], discard := fun _ => 0 }

def dropPagesFrom (window : ListWindow Row) (position : Nat) : ListWindow Row :=
  let firstStale := (position + pageSize - 1) / pageSize
  { window with
    pages := window.pages.retain (· < firstStale)
    recent := window.recent.filter (· < firstStale)
    pending := window.pending.filter (· < firstStale) }

def setTotal (window : ListWindow Row) (total : Nat) : ListWindow Row :=
  if window.total = total then window
  else if window.total < total then { window with total }
  else { window with total }.dropPagesFrom total

def insertedAtTop (window : ListWindow Row) (count : Nat) : ListWindow Row :=
  if count = 0 then window
  else { window with pages := [], recent := [], pending := [], total := window.total + count }

/-- Each following page that is held gives its first row to the one before it. -/
def carry : Nat -> Pages Row -> Nat -> Pages Row × Nat
  | 0, pages, last => (pages, last)
  | fuel + 1, pages, last =>
    match pages.get (last + 1) with
    | some (carried :: rest) =>
      let given := pages.put (last + 1) rest
      carry fuel (given.put last ((given.get last).getD [] ++ [carried])) (last + 1)
    | _ => (pages, last)

def removeAt (window : ListWindow Row) (position : Nat) : Option (ListWindow Row) :=
  -- Nothing when the row is not held, or a page from here on is still on its way.
  let page := position / pageSize
  let index := position % pageSize
  if window.total ≤ position then none
  else
    match window.pages.get page with
    | none => none
    | some rows =>
      if window.pending.any (fun pending => page ≤ pending) || rows.length ≤ index then none
      else
        -- No two held pages share an index, so the run is no longer than there are pages.
        let (pages, last) := carry window.pages.length (window.pages.put page (rows.eraseIdx index)) page
        some { window with
          pages := pages.retain (· ≤ last)
          recent := window.recent.filter (· ≤ last)
          total := window.total - 1 }

def full (pages : Pages Row) (page : Nat) : Bool := (pages.get page).any (fun rows => rows.length = pageSize)

/-- The first page of the run of held pages that `anchor` is in. -/
def runStart (pages : Pages Row) : Nat -> Nat
  | 0 => 0
  | anchor + 1 => if full pages anchor then runStart pages anchor else anchor + 1

def runEnd (pages : Pages Row) : Nat -> Nat -> Nat
  | 0, last => last
  | fuel + 1, last =>
    if full pages last && (pages.get (last + 1)).isSome then runEnd pages fuel (last + 1) else last

def rechunk (pages : Pages Row) (first : Nat) (rows : List Row) : Pages Row :=
  (List.range ((rows.length + pageSize - 1) / pageSize)).foldl
    (fun pages chunk => pages.put (first + chunk) ((rows.drop (chunk * pageSize)).take pageSize)) pages

def anchorOf (window : ListWindow Row) (position : Nat) : Option Nat :=
  -- The page a splice starts from: the one its position is in, or the full one it is just past.
  let page := position / pageSize
  let index := position % pageSize
  if (window.pages.get page).any (fun rows => index ≤ rows.length) then some page
  else if index = 0 && 0 < page && full window.pages (page - 1) then some (page - 1)
  else none

def rowsOf (pages : Pages Row) (first last : Nat) : List Row :=
  (List.range' first (last + 1 - first)).flatMap (fun page => (pages.get page).getD [])

def splice (window : ListWindow Row) (position removed : Nat) (inserted : List Row) : ListWindow Row × Bool :=
  -- Whether the change was applied, and the window after it.
  if window.total < position + removed then (window, false)
  else
    match window.anchorOf position with
    | none => (window, false)
    | some anchor =>
      let first := runStart window.pages anchor
      let last := runEnd window.pages window.pages.length anchor
      let held := rowsOf window.pages first last
      let outside := window.pages.retain (fun page => page < first || last < page)
      let offset := position - first * pageSize
      -- The change reaches past what the run holds, which is put back.
      if held.length < offset + removed then ({ window with pages := rechunk outside first held }, false)
      else
        let rows := held.take offset ++ inserted ++ held.drop (offset + removed)
        let grew := rows.length ≠ held.length
        let afterRun := first + max ((rows.length + pageSize - 1) / pageSize) 1
        let rechunked := rechunk outside first rows
        let pages := if grew then rechunked.retain (· < afterRun) else rechunked
        let moved := fun page => grew && window.pending.contains page && first ≤ page
        let recent := window.recent.filter (fun page => (pages.get page).isSome)
        ({ window with
            pages
            recent := recent ++ (List.range' first (afterRun - first)).filter
              (fun page => (pages.get page).isSome && !recent.contains page)
            pending := window.pending.filter (fun page => !moved page)
            discard := fun page => window.discard page + if moved page then 1 else 0
            total := window.total - removed + inserted.length },
          true)

def touch (window : ListWindow Row) (page : Nat) : ListWindow Row :=
  { window with recent := window.recent.filter (· ≠ page) ++ [page] }

def evict (window : ListWindow Row) : ListWindow Row :=
  -- Drops the pages used longest ago, down to what is kept.
  let evicted := window.recent.take (window.recent.length - cachePages)
  { window with
    pages := window.pages.retain (fun page => !evicted.contains page)
    recent := window.recent.drop (window.recent.length - cachePages) }

def want (window : ListWindow Row) (page : Nat) (index : Option Nat) : ListWindow Row × List Nat :=
  -- Marks a page as asked for, unless it is resident already or on its way.
  let resident := (window.pages.get page).any (fun rows => index.all (· < rows.length))
  if window.total ≤ page * pageSize || resident || window.pending.contains page then (window, [])
  else ({ window with pending := page :: window.pending }, [page])

def rowAt (window : ListWindow Row) (position : Nat) : ListWindow Row × Option (Lookup Row) :=
  if window.total ≤ position then (window, none)
  else
    let page := position / pageSize
    let index := position % pageSize
    match (window.pages.get page).bind (fun rows => rows[index]?) with
    | some row => (window.touch page, some (.resident row))
    | none =>
      let (own, first) := window.want page (some index)
      let (before, second) := if 0 < page then own.want (page - 1) none else (own, [])
      let (after, third) := before.want (page + 1) none
      (after, some (.missing (first ++ second ++ third)))

def abandon (window : ListWindow Row) (generation page : Nat) : ListWindow Row :=
  -- Gives up on a page whose fetch failed.
  if generation ≠ window.generation then window
  else if 0 < window.discard page then
    { window with discard := fun other => if other = page then window.discard page - 1 else window.discard other }
  else { window with pending := window.pending.filter (· ≠ page) }

def deliver (window : ListWindow Row) (generation page : Nat) (rows : List Row) : ListWindow Row :=
  if generation ≠ window.generation then window
  else if 0 < window.discard page then
    { window with discard := fun other => if other = page then window.discard page - 1 else window.discard other }
  else
    ({ window with
        pending := window.pending.filter (· ≠ page)
        pages := window.pages.put page rows }.touch page).evict

def residentAt (window : ListWindow Row) (position : Nat) : Option Row :=
  if window.total ≤ position then none
  else (window.pages.get (position / pageSize)).bind (fun rows => rows[position % pageSize]?)

variable [ListRow Row]

def peek (window : ListWindow Row) (position : Nat) : Option MessageId :=
  (window.residentAt position).bind ListRow.id

def positionOf (window : ListWindow Row) (message : MessageId) : Option Nat :=
  window.pages.findSome? (fun entry =>
    (entry.2.findIdx? (fun row => ListRow.id row = some message)).map (fun index => entry.1 * pageSize + index))

end ListWindow

/-- A page asked for: what it will be answered with. -/
structure Flight (Row : Type) where
  generation : Nat
  page : Nat
  rows : List Row

/-- A window, the list it shows, and the answers on their way, in the order asked. -/
structure Listing (Row : Type) where
  window : ListWindow Row
  rows : List Row
  flights : List (Flight Row)

namespace Listing

variable {Row : Type}

def opened : Listing Row where
  window := .new
  rows := []
  flights := []

def pageOf (rows : List Row) (page : Nat) : List Row := (rows.drop (page * pageSize)).take pageSize

inductive Event (Row : Type) where
  | reset (rows : List Row)
  | grow (added : List Row)
  | shrink (total : Nat)
  | insertedAtTop (rows : List Row)
  | removeAt (position : Nat)
  | splice (position removed : Nat) (inserted : List Row)
  | invalidate (rows : List Row)
  | rowAt (position : Nat)
  | deliver (page : Nat)
  | abandon (page : Nat)

def requests (lookup : Option (Lookup Row)) : List Nat :=
  match lookup with
  | some (.missing request) => request
  | _ => []

def step (listing : Listing Row) : Event Row -> Listing Row
  | .reset rows => { listing with window := listing.window.reset rows.length, rows }
  | .grow added =>
    { listing with window := listing.window.setTotal (listing.rows.length + added.length), rows := listing.rows ++ added }
  | .shrink total =>
    { listing with window := listing.window.setTotal (min total listing.rows.length), rows := listing.rows.take total }
  | .insertedAtTop rows =>
    { listing with window := listing.window.insertedAtTop rows.length, rows := rows ++ listing.rows }
  | .removeAt position =>
    match listing.window.removeAt position with
    | some window => { listing with window, rows := listing.rows.eraseIdx position }
    | none => listing
  | .splice position removed inserted =>
    let (window, applied) := listing.window.splice position removed inserted
    { listing with
      window
      rows :=
        -- Each change is mirrored by its operation. One the window refuses is not taken to have been mirrored.
        if applied then listing.rows.take position ++ inserted ++ listing.rows.drop (position + removed)
        else listing.rows }
  -- It keeps the total, so what it mirrors keeps the list's length.
  | .invalidate rows =>
    { listing with
      window := listing.window.invalidate
      rows := if rows.length = listing.rows.length then rows else listing.rows }
  | .rowAt position =>
    { listing with
      window := (listing.window.rowAt position).1
      flights := listing.flights ++ (requests (listing.window.rowAt position).2).map (fun page =>
        { generation := listing.window.generation, page, rows := pageOf listing.rows page }) }
  | .deliver page =>
    match listing.flights.find? (fun flight => flight.page = page) with
    | none => listing
    | some flight =>
      { listing with
        window := listing.window.deliver flight.generation page flight.rows
        flights := listing.flights.eraseP (fun flight => flight.page = page) }
  | .abandon page =>
    match listing.flights.find? (fun flight => flight.page = page) with
    | none => listing
    | some flight =>
      { listing with
        window := listing.window.abandon flight.generation page
        flights := listing.flights.eraseP (fun flight => flight.page = page) }

end Listing

end Postio

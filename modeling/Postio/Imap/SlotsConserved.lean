import Postio.Imap.ConnectionPool

set_option autoImplicit false

namespace Postio.Pool

/-! What the slots of a lane come to, over any interleaving of the critical sections of its callers. -/

namespace Priority

def index : Priority -> Nat
  | interactive => 0
  | background => 1

end Priority

namespace Phase

def slots : Phase -> Int
  | queued => 0
  | elapsed sent => if sent then 1 else 0
  | _ => 1

/-- The slots whose owner may still take a parked connection, or put the slot back without one. -/
def seeking : Phase -> Int
  | handed => 1
  | elapsed sent => if sent then 1 else 0
  | granted => 1
  | _ => 0

def connections : Phase -> Int
  | ready _ => 1
  | holding _ _ => 1
  | _ => 0

theorem seeking_add_connections (phase : Phase) : phase.seeking + phase.connections ≤ phase.slots := by
  cases phase with
  | elapsed sent => cases sent <;> decide
  | _ => simp [seeking, connections, slots]

end Phase

/-! ### A lane -/

namespace Lane

variable (listens : Nat -> Bool) (lane : Lane)

theorem firstListening_some (queue rest : List Nat) (ticket : Nat)
    (found : firstListening listens queue = some (ticket, rest)) :
    ∃ skipped, queue = skipped ++ ticket :: rest ∧ listens ticket = true ∧ ∀ other ∈ skipped, listens other = false := by
  induction queue with
  | nil => cases found
  | cons head tail ih =>
    rw [firstListening] at found
    cases heard : listens head with
    | true =>
      rw [if_pos heard] at found
      cases found
      exact ⟨[], rfl, heard, by simp⟩
    | false =>
      rw [if_neg (by simp [heard])] at found
      obtain ⟨skipped, same, hears, deaf⟩ := ih found
      refine ⟨head :: skipped, by rw [same]; rfl, hears, ?_⟩
      intro other member
      rcases List.mem_cons.mp member with rfl | later
      · exact heard
      · exact deaf other later

theorem firstListening_none (queue : List Nat) (found : firstListening listens queue = none) :
    ∀ ticket ∈ queue, listens ticket = false := by
  induction queue with
  | nil => simp
  | cons head tail ih =>
    rw [firstListening] at found
    cases heard : listens head with
    | true => simp [heard] at found
    | false =>
      rw [if_neg (by simp [heard])] at found
      intro ticket member
      rcases List.mem_cons.mp member with rfl | later
      · exact heard
      · exact ih found ticket later

/-- Nobody listens: the slot is free again. -/
structure PutBack (listens : Nat -> Bool) (lane left : Lane) : Prop where
  permits : left.permits = lane.permits + 1
  parked : left.parked = lane.parked
  emptied : ∀ priority, left.waiters priority = []
  deaf : ∀ priority, ∀ ticket ∈ lane.waiters priority, listens ticket = false

/-- A slot went to a waiter. Everybody who listens and was not served is behind it and still queued. -/
structure Served (listens : Nat -> Bool) (lane left : Lane) (priority : Priority) (ticket : Nat) : Prop where
  permits : left.permits = lane.permits
  parked : left.parked = lane.parked
  queued : ticket ∈ lane.waiters priority
  hears : listens ticket = true
  shorter : ∀ other, left.waiters other <:+ lane.waiters other
  taken : ticket :: left.waiters priority <:+ lane.waiters priority
  kept : ∀ other, ∀ waiter ∈ lane.waiters other, listens waiter = true -> waiter = ticket ∨ waiter ∈ left.waiters other
  behind : ∀ other, ∀ waiter ∈ lane.waiters other, listens waiter = true ->
    waiter = ticket ∨ priority.index < other.index ∨ priority = other ∧ waiter ∈ left.waiters priority

theorem releasePermit_cases : (∃ left, lane.releasePermit listens = (left, none) ∧ PutBack listens lane left) ∨
      ∃ left priority ticket, lane.releasePermit listens = (left, some ticket) ∧
        Served listens lane left priority ticket := by
  unfold releasePermit
  cases first : firstListening listens (lane.waiters .interactive) with
  | some found =>
    obtain ⟨ticket, rest⟩ := found
    obtain ⟨skipped, same, hears, deaf⟩ := firstListening_some listens _ _ _ first
    refine .inr ⟨_, .interactive, ticket, rfl, ?_⟩
    have inside : ∀ waiter ∈ lane.waiters .interactive, listens waiter = true -> waiter = ticket ∨ waiter ∈ rest := by
      intro waiter member heard
      rw [same] at member
      rcases List.mem_append.mp member with before | after
      · rw [deaf waiter before] at heard
        cases heard
      · exact List.mem_cons.mp after
    have suffix : ticket :: rest <:+ lane.waiters .interactive := ⟨skipped, same.symm⟩
    exact {
      permits := rfl
      parked := rfl
      queued := by rw [same]; simp
      hears := hears
      shorter := fun other => by
        cases other with
        | interactive => simpa using (List.suffix_cons ticket rest).trans suffix
        | background => simp
      taken := by simpa using suffix
      kept := fun other waiter member heard => by
        cases other with
        | interactive => simpa using inside waiter member heard
        | background => exact .inr (by simpa using member)
      behind := fun other waiter member heard => by
        cases other with
        | interactive =>
          rcases inside waiter member heard with here | later
          · exact .inl here
          · exact .inr (.inr ⟨rfl, by simpa using later⟩)
        | background => exact .inr (.inl (by decide)) }
  | none =>
    have deafFirst := firstListening_none listens _ first
    cases second : firstListening listens (lane.waiters .background) with
    | some found =>
      obtain ⟨ticket, rest⟩ := found
      obtain ⟨skipped, same, hears, deaf⟩ := firstListening_some listens _ _ _ second
      refine .inr ⟨_, .background, ticket, rfl, ?_⟩
      have inside : ∀ waiter ∈ lane.waiters .background, listens waiter = true -> waiter = ticket ∨ waiter ∈ rest := by
        intro waiter member heard
        rw [same] at member
        rcases List.mem_append.mp member with before | after
        · rw [deaf waiter before] at heard
          cases heard
        · exact List.mem_cons.mp after
      have suffix : ticket :: rest <:+ lane.waiters .background := ⟨skipped, same.symm⟩
      exact {
        permits := rfl
        parked := rfl
        queued := by rw [same]; simp
        hears := hears
        shorter := fun other => by
          cases other with
          | interactive => simp
          | background => simpa using (List.suffix_cons ticket rest).trans suffix
        taken := by simpa using suffix
        kept := fun other waiter member heard => by
          cases other with
          | interactive =>
            rw [deafFirst waiter member] at heard
            cases heard
          | background => simpa using inside waiter member heard
        behind := fun other waiter member heard => by
          cases other with
          | interactive =>
            rw [deafFirst waiter member] at heard
            cases heard
          | background =>
            rcases inside waiter member heard with here | later
            · exact .inl here
            · exact .inr (.inr ⟨rfl, by simpa using later⟩) }
    | none =>
      refine .inl ⟨_, rfl, ⟨rfl, rfl, fun _ => rfl, ?_⟩⟩
      intro priority ticket member
      cases priority with
      | interactive => exact deafFirst ticket member
      | background => exact firstListening_none listens _ second ticket member

/-- What cancelling a ticket leaves: the queues without it, where it was still queued. -/
structure Cancelled (lane left : Lane) (ticket : Nat) : Prop where
  permits : left.permits = lane.permits
  parked : left.parked = lane.parked
  shorter : ∀ priority, List.Sublist (left.waiters priority) (lane.waiters priority)
  kept : ∀ priority, ∀ other ∈ lane.waiters priority, other ≠ ticket -> other ∈ left.waiters priority

theorem cancel_cases (ticket : Nat) :
    (∃ left, lane.cancel ticket = (left, true) ∧ (∃ priority, ticket ∈ lane.waiters priority) ∧
      Cancelled lane left ticket) ∨
      lane.cancel ticket = (lane, false) ∧ ∀ priority, ticket ∉ lane.waiters priority := by
  have erased (here : Priority) :
      Cancelled lane { lane with waiters := Function.update lane.waiters here ((lane.waiters here).erase ticket) }
        ticket := by
    refine ⟨rfl, rfl, fun priority => ?_, fun priority other member different => ?_⟩
    · by_cases same : priority = here
      · subst same
        simpa using List.erase_sublist
      · simp [Function.update_of_ne same]
    · by_cases same : priority = here
      · subst same
        simpa using (List.mem_erase_of_ne different).mpr member
      · simpa [Function.update_of_ne same] using member
  unfold cancel
  by_cases first : ticket ∈ lane.waiters .interactive
  · rw [if_pos first]
    exact .inl ⟨_, rfl, ⟨.interactive, first⟩, erased .interactive⟩
  · rw [if_neg first]
    by_cases second : ticket ∈ lane.waiters .background
    · rw [if_pos second]
      exact .inl ⟨_, rfl, ⟨.background, second⟩, erased .background⟩
    · rw [if_neg second]
      refine .inr ⟨rfl, fun priority => ?_⟩
      cases priority with
      | interactive => exact first
      | background => exact second

theorem takeParked_cases (idleTimeout now : Nat) : (lane.takeParked idleTimeout now = (lane.dropParked, none)) ∨
      ∃ left session, lane.takeParked idleTimeout now = (left, some session) ∧ left.permits = lane.permits ∧
        left.waiters = lane.waiters ∧ left.parked.length + 1 ≤ lane.parked.length := by
  -- Looking for a parked connection touches the parked connections only.
  unfold takeParked
  cases fresh : lane.parked.dropWhile (fun parked => ¬ now - parked.since < idleTimeout) with
  | nil => exact .inl rfl
  | cons parked rest =>
    refine .inr ⟨_, parked.session, rfl, rfl, rfl, ?_⟩
    have shorter := (List.dropWhile_suffix (l := lane.parked) (fun parked => ¬ now - parked.since < idleTimeout)).length_le
    rw [fresh] at shorter
    exact shorter

end Lane

/-! ### The pool's pieces -/

namespace ConnectionPool

@[simp]
theorem lane_putLane (pool : ConnectionPool) (kind other : LaneKind) (lane : Lane) :
    (pool.putLane kind lane).lane other = if other = kind then lane else pool.lane other := by
  cases kind <;> cases other <;> rfl

@[simp]
theorem putLane_calls (pool : ConnectionPool) (kind : LaneKind) (lane : Lane) :
    (pool.putLane kind lane).calls = pool.calls := by
  cases kind <;> rfl

@[simp]
theorem putLane_closed (pool : ConnectionPool) (kind : LaneKind) (lane : Lane) :
    (pool.putLane kind lane).closed = pool.closed := by
  cases kind <;> rfl

@[simp]
theorem lane_putPhase (pool : ConnectionPool) (ticket : Nat) (phase : Phase) (kind : LaneKind) :
    (pool.putPhase ticket phase).lane kind = pool.lane kind := by
  cases kind <;> rfl

@[simp]
theorem lane_gone (pool : ConnectionPool) (ticket : Nat) (kind : LaneKind) :
    (pool.gone ticket).lane kind = pool.lane kind := by
  cases kind <;> rfl

@[simp]
theorem putPhase_closed (pool : ConnectionPool) (ticket : Nat) (phase : Phase) :
    (pool.putPhase ticket phase).closed = pool.closed := rfl

@[simp]
theorem gone_closed (pool : ConnectionPool) (ticket : Nat) : (pool.gone ticket).closed = pool.closed := rfl

theorem get_putPhase (pool : ConnectionPool) (ticket other : Nat) (phase : Phase) :
    (pool.putPhase ticket phase).calls.get other =
      if other = ticket then (pool.calls.get other).map (fun call => { call with phase := phase })
      else pool.calls.get other :=
  pool.calls.get_updateAt ticket (fun call => { call with phase := phase }) (fun _ => rfl) other

theorem get_gone (pool : ConnectionPool) (ticket other : Nat) :
    (pool.gone ticket).calls.get other = if other = ticket then none else pool.calls.get other := by
  have removed := pool.calls.get_remove (fun call => decide (call.ticket = ticket)) other
  rw [gone, Table.removeAt, removed]
  cases found : pool.calls.get other with
  | none => simp
  | some call =>
    have named := ((pool.calls.get_eq_some other call).mp found).2
    by_cases same : other = ticket
    · simp [Option.filter_some, named, same]
    · simp [Option.filter_some, named, same]

def count (pool : ConnectionPool) (weight : Phase -> Int) (kind : LaneKind) : Int :=
  pool.calls.total (fun call => if call.lane = kind then weight call.phase else 0)

theorem count_putPhase (pool : ConnectionPool) (weight : Phase -> Int) (kind : LaneKind) (ticket : Nat) (phase : Phase)
    (call : Call) (found : pool.calls.get ticket = some call) :
    (pool.putPhase ticket phase).count weight kind =
      pool.count weight kind + if call.lane = kind then weight phase - weight call.phase else 0 := by
  have updated := pool.calls.total_updateAt ticket (fun call => { call with phase := phase }) (fun _ => rfl)
    (fun call => if call.lane = kind then weight call.phase else 0) call found
  simp only [count, putPhase]
  rw [updated]
  dsimp only
  split <;> omega

theorem count_gone (pool : ConnectionPool) (weight : Phase -> Int) (kind : LaneKind) (ticket : Nat) (call : Call)
    (found : pool.calls.get ticket = some call) :
    (pool.gone ticket).count weight kind = pool.count weight kind - if call.lane = kind then weight call.phase else 0 :=
  pool.calls.total_removeAt ticket _ call found

/-! ### The waiters -/

/-- Where a waiting acquisition is queued, and who is named by an entry of a queue. -/
structure Waiting (pool : ConnectionPool) : Prop where
  listed : pool.closed = false -> ∀ ticket call, pool.calls.get ticket = some call -> call.phase = .queued ->
    ticket ∈ (pool.lane call.lane).waiters call.priority
  named : ∀ kind priority ticket call, ticket ∈ (pool.lane kind).waiters priority ->
    pool.calls.get ticket = some call -> call.lane = kind ∧ call.priority = priority ∧
      (call.phase = .queued ∨ call.phase = .elapsed false)
  ordered : ∀ kind priority, ((pool.lane kind).waiters priority).Pairwise (fun first second => first < second)
  issued : ∀ kind priority, ∀ ticket ∈ (pool.lane kind).waiters priority, ticket < pool.calls.nextId

theorem waiting_new (config : PoolConfig) : (new config).Waiting := by
  have nobody (kind : LaneKind) (priority : Priority) : ((new config).lane kind).waiters priority = [] := by
    cases kind <;> rfl
  constructor
  case listed =>
    intro _ ticket call found
    cases found
  case named =>
    intro kind priority ticket call member
    rw [nobody] at member
    cases member
  case ordered =>
    intro kind priority
    rw [nobody]
    exact .nil
  case issued =>
    intro kind priority ticket member
    rw [nobody] at member
    cases member

theorem waiting_putPhase (pool : ConnectionPool) (waiting : pool.Waiting) (ticket : Nat) (phase : Phase) (call : Call)
    (found : pool.calls.get ticket = some call) (moves : phase ≠ .queued)
    (fromQueue : call.phase = .queued -> phase = .elapsed false) (settled : call.phase ≠ .elapsed false) :
    (pool.putPhase ticket phase).Waiting := by
  -- An acquisition that still waits, or still has to take its entry back, stays where it was.
  constructor
  case listed =>
    intro opened other caller there queued
    rw [get_putPhase] at there
    rw [lane_putPhase]
    split at there
    next same =>
      rw [same, found] at there
      cases there
      exact absurd queued moves
    next => exact waiting.listed opened other caller there queued
  case named =>
    intro kind priority other caller member there
    rw [lane_putPhase] at member
    rw [get_putPhase] at there
    split at there
    next same =>
      rw [same, found] at there
      cases there
      rw [same] at member
      obtain ⟨lane, priority, queued | left⟩ := waiting.named kind priority ticket call member found
      · exact ⟨lane, priority, .inr (fromQueue queued)⟩
      · exact absurd left settled
    next => exact waiting.named kind priority other caller member there
  case ordered =>
    intro kind priority
    rw [lane_putPhase]
    exact waiting.ordered kind priority
  case issued =>
    intro kind priority other member
    rw [lane_putPhase] at member
    exact waiting.issued kind priority other member

theorem waiting_gone (pool : ConnectionPool) (waiting : pool.Waiting) (ticket : Nat) : (pool.gone ticket).Waiting := by
  constructor
  case listed =>
    intro opened other caller there queued
    rw [get_gone] at there
    rw [lane_gone]
    split at there
    next => cases there
    next => exact waiting.listed opened other caller there queued
  case named =>
    intro kind priority other caller member there
    rw [lane_gone] at member
    rw [get_gone] at there
    split at there
    next => cases there
    next => exact waiting.named kind priority other caller member there
  case ordered =>
    intro kind priority
    rw [lane_gone]
    exact waiting.ordered kind priority
  case issued =>
    intro kind priority other member
    rw [lane_gone] at member
    exact waiting.issued kind priority other member

theorem waiting_putLane (pool : ConnectionPool) (waiting : pool.Waiting) (kind : LaneKind) (lane : Lane)
    (shorter : ∀ priority, List.Sublist (lane.waiters priority) ((pool.lane kind).waiters priority))
    (kept : pool.closed = false -> ∀ priority, ∀ ticket ∈ (pool.lane kind).waiters priority,
      pool.listens ticket = true -> ticket ∈ lane.waiters priority) : (pool.putLane kind lane).Waiting := by
  -- A lane may lose entries of acquisitions that no longer listen.
  constructor
  case listed =>
    intro opened other caller there queued
    rw [putLane_calls] at there
    rw [putLane_closed] at opened
    have member := waiting.listed opened other caller there queued
    rw [lane_putLane]
    split
    next same =>
      rw [same] at member
      exact kept opened _ other member (by simp [listens, phase, there, queued])
    next => exact member
  case named =>
    intro other priority ticket caller member there
    rw [putLane_calls] at there
    rw [lane_putLane] at member
    split at member
    next same =>
      subst same
      exact waiting.named other priority ticket caller ((shorter priority).subset member) there
    next => exact waiting.named other priority ticket caller member there
  case ordered =>
    intro other priority
    rw [lane_putLane]
    split
    next same =>
      subst same
      exact (waiting.ordered other priority).sublist (shorter priority)
    next => exact waiting.ordered other priority
  case issued =>
    intro other priority ticket member
    rw [putLane_calls]
    rw [lane_putLane] at member
    split at member
    next same =>
      subst same
      exact waiting.issued other priority ticket ((shorter priority).subset member)
    next => exact waiting.issued other priority ticket member

theorem waiting_congr (pool other : ConnectionPool) (waiting : pool.Waiting) (closed : other.closed = pool.closed)
    (calls : other.calls = pool.calls)
    (waiters : ∀ kind priority, (other.lane kind).waiters priority = (pool.lane kind).waiters priority) :
    other.Waiting := by
  -- Waiting asks nothing of the figures.
  constructor
  case listed =>
    intro opened ticket call found queued
    rw [calls] at found
    rw [closed] at opened
    rw [waiters]
    exact waiting.listed opened ticket call found queued
  case named =>
    intro kind priority ticket call member found
    rw [calls] at found
    rw [waiters] at member
    exact waiting.named kind priority ticket call member found
  case ordered =>
    intro kind priority
    rw [waiters]
    exact waiting.ordered kind priority
  case issued =>
    intro kind priority ticket member
    rw [waiters] at member
    rw [calls]
    exact waiting.issued kind priority ticket member

/-! ### The slots -/

/-- The slots of every lane, `spare` of them owned by nobody, and the room left for parked connections. -/
structure Books (capacity : LaneKind -> Nat) (pool : ConnectionPool) (spare room : LaneKind -> Int) : Prop where
  accounted : ∀ kind, (pool.lane kind).permits + pool.count Phase.slots kind + spare kind = capacity kind
  parked : ∀ kind, (pool.lane kind).parked.length ≤ (pool.lane kind).permits + pool.count Phase.seeking kind + room kind

def only (kind : LaneKind) (amount : Int) (other : LaneKind) : Int := if kind = other then amount else 0

variable (capacity : LaneKind -> Nat)

variable (pool : ConnectionPool) (spare room : LaneKind -> Int)

theorem books_gone (books : Books capacity pool spare room)
    (ticket : Nat) (call : Call) (found : pool.calls.get ticket = some call) :
    Books capacity (pool.gone ticket) (fun kind => spare kind + only call.lane call.phase.slots kind)
      (fun kind => room kind + only call.lane call.phase.seeking kind) := by
  constructor
  · intro kind
    have accounted := books.accounted kind
    rw [lane_gone, count_gone pool Phase.slots kind ticket call found]
    simp only [only]
    omega
  · intro kind
    have parked := books.parked kind
    rw [lane_gone, count_gone pool Phase.seeking kind ticket call found]
    simp only [only]
    omega

theorem books_putPhase (books : Books capacity pool spare room)
    (ticket : Nat) (phase : Phase) (call : Call) (found : pool.calls.get ticket = some call) :
    Books capacity (pool.putPhase ticket phase)
      (fun kind => spare kind + only call.lane (call.phase.slots - phase.slots) kind)
      (fun kind => room kind + only call.lane (call.phase.seeking - phase.seeking) kind) := by
  constructor
  · intro kind
    have accounted := books.accounted kind
    rw [lane_putPhase, count_putPhase pool Phase.slots kind ticket phase call found]
    simp only [only]
    split <;> omega
  · intro kind
    have parked := books.parked kind
    rw [lane_putPhase, count_putPhase pool Phase.seeking kind ticket phase call found]
    simp only [only]
    split <;> omega

theorem books_putLane (more : LaneKind -> Int) (books : Books capacity pool spare room)
    (kind : LaneKind) (lane : Lane) (permits : lane.permits = (pool.lane kind).permits)
    (fits : (lane.parked.length : Int) ≤ (pool.lane kind).permits + pool.count Phase.seeking kind + more kind)
    (others : ∀ other, other ≠ kind -> more other = room other) :
    Books capacity (pool.putLane kind lane) spare more := by
  -- A lane whose slots stand may park and let go of connections.
  have same (weight : Phase -> Int) (other : LaneKind) : (pool.putLane kind lane).count weight other =
      pool.count weight other := by
    simp [count]
  constructor
  · intro other
    have accounted := books.accounted other
    rw [lane_putLane, same]
    split
    next here =>
      subst here
      rw [permits]
      exact accounted
    next => exact accounted
  · intro other
    have parked := books.parked other
    rw [lane_putLane, same]
    split
    next here =>
      subst here
      rw [permits]
      exact fits
    next apart =>
      rw [others other apart]
      exact parked

theorem books_congr (spare' room' : LaneKind -> Int)
    (books : Books capacity pool spare room) (spares : ∀ kind, spare' kind = spare kind)
    (rooms : ∀ kind, room' kind = room kind) : Books capacity pool spare' room' := by
  rw [funext spares, funext rooms]
  exact books

theorem books_figures (inUse opened : Nat) (books : Books capacity pool spare room) :
    Books capacity { pool with inUse := inUse, opened := opened } spare room := by
  -- Figures kept for show take no part.
  constructor
  · intro kind
    cases kind with
    | general => exact books.accounted .general
    | watch => exact books.accounted .watch
  · intro kind
    cases kind with
    | general => exact books.parked .general
    | watch => exact books.parked .watch

/-! ### Releasing a slot -/

theorem release_cases (waiting : pool.Waiting) (kind : LaneKind) :
    (∃ left, pool.release kind = pool.putLane kind left ∧ Lane.PutBack pool.listens (pool.lane kind) left) ∨
      ∃ left priority ticket call, pool.release kind = (pool.putLane kind left).putPhase ticket .handed ∧
        Lane.Served pool.listens (pool.lane kind) left priority ticket ∧ pool.calls.get ticket = some call ∧
        call.phase = .queued ∧ call.lane = kind ∧ call.priority = priority := by
  rcases (pool.lane kind).releasePermit_cases pool.listens with ⟨left, same, back⟩ | ⟨left, priority, ticket, same, served⟩
  · refine .inl ⟨left, ?_, back⟩
    simp only [release, same]
  · have hears := served.hears
    simp only [listens, phase, decide_eq_true_eq, Option.map_eq_some_iff] at hears
    obtain ⟨call, found, queued⟩ := hears
    obtain ⟨lane, rank, -⟩ := waiting.named kind priority ticket call served.queued found
    refine .inr ⟨left, priority, ticket, call, ?_, served, found, queued, lane, rank⟩
    simp only [release, same]

theorem waiting_release (waiting : pool.Waiting) (kind : LaneKind) : (pool.release kind).Waiting:= by
  rcases release_cases pool waiting kind with ⟨left, same, back⟩ |
    ⟨left, priority, ticket, call, same, served, found, queued, lane, rank⟩
  · rw [same]
    refine waiting_putLane pool waiting kind left (fun priority => by simp [back.emptied]) ?_
    intro _ priority ticket member hears
    rw [back.deaf priority ticket member] at hears
    cases hears
  · rw [same]
    have sorted := (waiting.ordered kind priority).sublist served.taken.sublist
    have passed : ticket ∉ left.waiters priority := fun member =>
      Nat.lt_irrefl ticket ((List.pairwise_cons.mp sorted).1 ticket member)
    constructor
    case listed =>
      intro opened other caller there stays
      rw [get_putPhase, putLane_calls] at there
      rw [lane_putPhase, lane_putLane]
      split at there
      next here =>
        rw [here, found] at there
        cases there
        cases stays
      next apart =>
        have member := waiting.listed (by simpa using opened) other caller there stays
        split
        next here =>
          rw [here] at member
          rcases served.kept _ other member (by simp [listens, phase, there, stays]) with equal | later
          · exact absurd equal apart
          · exact later
        next => exact member
    case named =>
      intro other rank' waiter caller member there
      rw [lane_putPhase, lane_putLane] at member
      rw [get_putPhase, putLane_calls] at there
      have before : waiter ∈ (pool.lane other).waiters rank' := by
        split at member
        next here =>
          rw [here]
          exact (served.shorter rank').subset member
        next => exact member
      split at there
      next here =>
        subst here
        obtain ⟨place, order, -⟩ := waiting.named other rank' waiter call before found
        rw [if_pos (place.symm.trans lane), ← order, rank] at member
        exact absurd member passed
      next => exact waiting.named other rank' waiter caller before there
    case ordered =>
      intro other rank'
      rw [lane_putPhase, lane_putLane]
      split
      next here =>
        rw [here] at *
        exact (waiting.ordered kind rank').sublist (served.shorter rank').sublist
      next => exact waiting.ordered other rank'
    case issued =>
      intro other rank' waiter member
      rw [lane_putPhase, lane_putLane] at member
      have before : waiter ∈ (pool.lane other).waiters rank' := by
        split at member
        next here =>
          rw [here]
          exact (served.shorter rank').subset member
        next => exact member
      have limit := waiting.issued other rank' waiter before
      rwa [← putLane_calls pool kind left] at limit

theorem books_release (waiting : pool.Waiting) (spare room : LaneKind -> Int)
    (books : Books capacity pool spare room) (kind : LaneKind) :
    Books capacity (pool.release kind) (fun other => spare other + only kind (-1) other)
      (fun other => room other + only kind (-1) other) := by
  rcases release_cases pool waiting kind with ⟨left, same, back⟩ |
    ⟨left, priority, ticket, call, same, served, found, queued, lane, rank⟩
  · rw [same]
    have counts (weight : Phase -> Int) (other : LaneKind) : (pool.putLane kind left).count weight other =
        pool.count weight other := by
      simp [count]
    constructor
    · intro other
      have accounted := books.accounted other
      rw [lane_putLane, counts]
      by_cases here : other = kind
      · subst here
        rw [if_pos rfl, back.permits]
        simp only [only, if_true]
        omega
      · rw [if_neg here]
        simp only [only, if_neg (Ne.symm here)]
        omega
    · intro other
      have parked := books.parked other
      rw [lane_putLane, counts]
      by_cases here : other = kind
      · subst here
        rw [if_pos rfl, back.permits, back.parked]
        simp only [only, if_true]
        omega
      · rw [if_neg here]
        simp only [only, if_neg (Ne.symm here)]
        omega
  · rw [same]
    have moved := books_putLane capacity pool spare room room books kind left served.permits
      (by rw [served.parked]; exact books.parked kind) (fun _ _ => rfl)
    have handed := books_putPhase capacity (pool.putLane kind left) spare room moved ticket .handed call
      (by rw [putLane_calls]; exact found)
    rw [queued, lane] at handed
    exact handed

/-- The slot a step hands over goes to the best of those who wait for one, and is free only where nobody does. -/
structure ServedWell (before after : ConnectionPool) : Prop where
  best : ∀ ticket call, before.calls.get ticket = some call -> call.phase = .queued ->
    after.phase ticket = some .handed -> ∀ other waiter, before.calls.get other = some waiter ->
      waiter.phase = .queued -> waiter.lane = call.lane ->
      other = ticket ∨ call.priority.index < waiter.priority.index ∨ call.priority = waiter.priority ∧ ticket < other
  free : ∀ kind, (before.lane kind).permits < (after.lane kind).permits ->
    ∀ ticket call, before.calls.get ticket = some call -> call.phase = .queued -> call.lane ≠ kind

theorem served_quiet (before after : ConnectionPool)
    (quiet : ∀ ticket call, before.calls.get ticket = some call -> call.phase = .queued ->
      after.phase ticket ≠ some .handed)
    (still : ∀ kind, (after.lane kind).permits ≤ (before.lane kind).permits) : ServedWell before after := by
  constructor
  · intro ticket call found queued handed
    exact absurd handed (quiet ticket call found queued)
  · intro kind raised
    exact absurd raised (Nat.not_lt.mpr (still kind))

theorem served_release (before pool : ConnectionPool) (waiting : pool.Waiting) (opened : pool.closed = false)
    (waiters : ∀ ticket call, before.calls.get ticket = some call -> call.phase = .queued ->
      pool.calls.get ticket = some call)
    (permits : ∀ kind, (before.lane kind).permits = (pool.lane kind).permits) (kind : LaneKind) :
    ServedWell before (pool.release kind) := by
  have hears (ticket : Nat) (call : Call) (found : pool.calls.get ticket = some call) (queued : call.phase = .queued) :
      pool.listens ticket = true := by
    simp [listens, phase, found, queued]
  rcases release_cases pool waiting kind with ⟨left, same, back⟩ |
    ⟨left, priority, served, call, same, facts, found, queued, lane, rank⟩
  · rw [same]
    constructor
    · intro ticket call found queued handed
      rw [phase, putLane_calls, waiters ticket call found queued, Option.map_some, queued] at handed
      cases handed
    · intro other raised ticket call found queued place
      have there := waiters ticket call found queued
      have member := waiting.listed opened ticket call there queued
      rw [lane_putLane, permits] at raised
      split at raised
      next here =>
        rw [place, here] at member
        have deaf := back.deaf _ ticket member
        rw [hears ticket call there queued] at deaf
        cases deaf
      next => exact absurd raised (Nat.lt_irrefl _)
  · rw [same]
    constructor
    · intro ticket caller there asks handed other waiter behind waits place
      have mine := waiters ticket caller there asks
      have theirs := waiters other waiter behind waits
      rw [phase, get_putPhase, putLane_calls] at handed
      split at handed
      next here =>
        subst here
        rw [found] at mine
        cases mine
        have member := waiting.listed opened other waiter theirs waits
        rw [place, lane] at member
        rcases facts.behind _ other member (hears other waiter theirs waits) with equal | lower | ⟨equal, later⟩
        · exact .inl equal
        · exact .inr (.inl (by rw [rank]; exact lower))
        · have sorted := (waiting.ordered kind priority).sublist facts.taken.sublist
          exact .inr (.inr ⟨rank.trans equal, (List.pairwise_cons.mp sorted).1 other later⟩)
      next =>
        rw [mine, Option.map_some, asks] at handed
        cases handed
    · intro other raised
      rw [lane_putPhase, lane_putLane, permits] at raised
      split at raised
      next here =>
        rw [facts.permits, here] at raised
        exact absurd raised (Nat.lt_irrefl _)
      next => exact absurd raised (Nat.lt_irrefl _)

end ConnectionPool

end Postio.Pool

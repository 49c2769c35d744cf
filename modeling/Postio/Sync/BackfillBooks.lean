import Postio.Lib.Counted
import Postio.Sync.Backfill

set_option autoImplicit false

namespace Postio.Bodies

/-! ### Taking from a queue -/

theorem firstIn_some (lanes : MessageId -> Option Lane) (lane : Lane) (queue rest : List BodyRequest)
    (request : BodyRequest) (found : firstIn lanes lane queue = some (request, rest)) :
    ∃ stale, queue = stale ++ request :: rest ∧ lanes request.message = some lane ∧
      ∀ other ∈ stale, lanes other.message ≠ some lane := by
  induction queue with
  | nil => cases found
  | cons head tail ih =>
    rw [firstIn] at found
    split at found
    next here =>
      cases found
      exact ⟨[], rfl, here, by simp⟩
    next away =>
      obtain ⟨stale, same, here, passed⟩ := ih found
      refine ⟨head :: stale, by rw [same]; rfl, here, ?_⟩
      intro other member
      rcases List.mem_cons.mp member with rfl | later
      · exact away
      · exact passed other later

theorem firstIn_none (lanes : MessageId -> Option Lane) (lane : Lane) (queue : List BodyRequest)
    (found : firstIn lanes lane queue = none) : ∀ request ∈ queue, lanes request.message ≠ some lane := by
  induction queue with
  | nil => simp
  | cons head tail ih =>
    rw [firstIn] at found
    split at found
    next => cases found
    next away =>
      intro request member
      rcases List.mem_cons.mp member with rfl | later
      · exact away
      · exact ih found request later

namespace Backfill

variable (backfill after : Backfill) (message : MessageId)

def queue : Lane -> List BodyRequest
  | .background => backfill.background
  | .fresh => backfill.fresh
  | .interactive => backfill.interactive
  | .inFlight => []

def Waits : Prop :=
  ∃ lane, backfill.lanes message = some lane ∧ lane ≠ .inFlight

def Flies : Prop := backfill.lanes message = some .inFlight

/-- The messages waiting are counted, and each has an entry in the queue of its lane. -/
structure Kept (backfill : Backfill) : Prop where
  pending : Counted backfill.Waits backfill.progress.pending
  entry : ∀ message lane, backfill.lanes message = some lane -> lane ≠ .inFlight ->
    ∃ request ∈ backfill.queue lane, request.message = message

structure SameFlights (backfill after : Backfill) : Prop where
  flies : ∀ message, after.Flies message <-> backfill.Flies message
  inFlight : after.progress.inFlight = backfill.progress.inFlight

theorem SameFlights.refl : SameFlights backfill backfill := ⟨fun _ => Iff.rfl, rfl⟩

theorem SameFlights.trans (first second third : Backfill) (before : SameFlights first second)
    (later : SameFlights second third) : SameFlights first third :=
  ⟨fun message => (later.flies message).trans (before.flies message), later.inFlight.trans before.inFlight⟩

theorem kept_congr (kept : Kept backfill) (lanes : after.lanes = backfill.lanes)
    (pending : after.progress.pending = backfill.progress.pending)
    (queues : ∀ lane, after.queue lane = backfill.queue lane) : Kept after := by
  -- Only the lanes, the queues and the count of those waiting matter.
  constructor
  · rw [pending]
    exact kept.pending.congr _ _ _ (fun message => by rw [Waits, Waits, lanes])
  · intro message lane there waits
    rw [lanes] at there
    rw [queues]
    exact kept.entry message lane there waits

theorem kept_moved (kept : Kept backfill) (message : MessageId) (lane : Lane)
    (waits : lane ≠ .inFlight) (away : ¬ backfill.Flies message)
    (lanes : after.lanes = Function.update backfill.lanes message (some lane))
    (pending : after.progress.pending =
      if backfill.lanes message = none then backfill.progress.pending + 1 else backfill.progress.pending)
    (entry : ∃ request ∈ after.queue lane, request.message = message)
    (others : ∀ lane, ∀ request ∈ backfill.queue lane, request.message ≠ message ->
      ∃ other ∈ after.queue lane, other.message = request.message) : Kept after := by
  -- A message joins a lane from outside, or moves to it from another queue, and has an entry there.
  constructor
  · rw [pending]
    split
    next outside =>
      refine kept.pending.insert _ _ _ message ?_ ?_
      · rintro ⟨lane, there, -⟩
        rw [outside] at there
        cases there
      · intro other
        by_cases same : other = message
        · subst same
          simp [Waits, lanes, waits]
        · simp [Waits, lanes, same]
    next inside =>
      refine kept.pending.congr _ _ _ ?_
      intro other
      by_cases same : other = message
      · subst same
        simp only [Waits, lanes, Function.update_self, Option.some.injEq]
        constructor
        · rintro -
          cases here : backfill.lanes other with
          | none => exact absurd here inside
          | some old => exact ⟨old, rfl, fun flying => away (by rw [Flies, here, flying])⟩
        · rintro -
          exact ⟨lane, rfl, waits⟩
      · simp [Waits, lanes, Function.update_of_ne same]
  · intro other lane' there stays
    rw [lanes] at there
    by_cases same : other = message
    · subst same
      rw [Function.update_self] at there
      cases there
      exact entry
    · rw [Function.update_of_ne same] at there
      obtain ⟨request, member, named⟩ := kept.entry other lane' there stays
      obtain ⟨found, inside, equal⟩ := others lane' request member (by rw [named]; exact same)
      exact ⟨found, inside, equal.trans named⟩

theorem sameFlights_moved (lane : Lane) (waits : lane ≠ .inFlight)
    (away : ¬ backfill.Flies message) (lanes : after.lanes = Function.update backfill.lanes message (some lane))
    (inFlight : after.progress.inFlight = backfill.progress.inFlight) : SameFlights backfill after := by
  refine ⟨fun other => ?_, inFlight⟩
  rw [Flies, Flies, lanes]
  by_cases same : other = message
  · subst same
    rw [Function.update_self]
    exact ⟨fun flying => absurd (Option.some.inj flying) waits, fun flying => absurd flying away⟩
  · rw [Function.update_of_ne same]

/-! ### The operations that put nothing on the wire -/

structure Stays (backfill after : Backfill) : Prop where
  kept : Kept after
  flights : SameFlights backfill after

theorem Stays.trans (first second third : Backfill) (before : Stays first second) (later : Stays second third) :
    Stays first third := ⟨later.kept, before.flights.trans _ _ _ later.flights⟩

theorem stays_congr (kept : Kept backfill) (lanes : after.lanes = backfill.lanes)
    (pending : after.progress.pending = backfill.progress.pending)
    (inFlight : after.progress.inFlight = backfill.progress.inFlight)
    (queues : ∀ lane, after.queue lane = backfill.queue lane) : Stays backfill after :=
  ⟨kept_congr backfill after kept lanes pending queues, fun message => by rw [Flies, Flies, lanes], inFlight⟩

theorem stays_moved (kept : Kept backfill) (message : MessageId) (lane : Lane)
    (waits : lane ≠ .inFlight) (away : ¬ backfill.Flies message)
    (lanes : after.lanes = Function.update backfill.lanes message (some lane))
    (pending : after.progress.pending =
      if backfill.lanes message = none then backfill.progress.pending + 1 else backfill.progress.pending)
    (inFlight : after.progress.inFlight = backfill.progress.inFlight)
    (entry : ∃ request ∈ after.queue lane, request.message = message)
    (others : ∀ lane, ∀ request ∈ backfill.queue lane, request.message ≠ message ->
      ∃ other ∈ after.queue lane, other.message = request.message) : Stays backfill after :=
  ⟨kept_moved backfill after kept message lane waits away lanes pending entry others,
    sameFlights_moved backfill after message lane waits away lanes inFlight⟩

theorem mem_pushBackground (request other : BodyRequest) :
    other ∈ (backfill.pushBackground request).background <-> other = request ∨ other ∈ backfill.background := by
  rw [pushBackground, List.mem_orderedInsert]

theorem enqueueAt_stays (kept : Kept backfill) (request : BodyRequest) (now : Nat) :
    Stays backfill (backfill.enqueueAt request now).1 := by
  have same : Stays backfill backfill := ⟨kept, SameFlights.refl backfill⟩
  unfold enqueueAt
  split
  next => exact same
  next free =>
    split
    next => exact stays_congr backfill _ kept rfl rfl rfl (fun lane => by cases lane <;> rfl)
    next =>
      split
      next => exact same
      next =>
        split
        next => exact same
        next =>
          have outside : backfill.lanes request.message = none := by
            simp only [Bool.or_eq_true, not_or, Bool.not_eq_true, Option.isSome_eq_false_iff,
              Option.isNone_iff_eq_none] at free
            exact free.1.1.2
          refine stays_moved backfill _ kept request.message .background (by simp) (by simp [Flies, outside]) rfl ?_ rfl
            ⟨request, (mem_pushBackground _ request request).mpr (.inl rfl), rfl⟩ ?_
          · rw [if_pos outside]
            rfl
          · intro lane other member _
            cases lane with
            | background => exact ⟨other, (mem_pushBackground _ request other).mpr (.inr member), rfl⟩
            | _ => exact ⟨other, member, rfl⟩

theorem pushInteractive_stays (kept : Kept backfill) (request : BodyRequest)
    (away : ¬ backfill.Flies request.message) (inside : backfill.lanes request.message ≠ none) :
    Stays backfill (backfill.pushInteractive request) := by
  refine stays_moved backfill _ kept request.message .interactive (by simp) away rfl ?_ rfl
    ⟨request, by simp [pushInteractive, queue], rfl⟩ ?_
  · rw [if_neg inside]
    rfl
  · intro lane other member _
    cases lane with
    | interactive => exact ⟨other, List.mem_append_left _ member, rfl⟩
    | _ => exact ⟨other, member, rfl⟩

theorem joinInteractive_stays (kept : Kept backfill) (request : BodyRequest)
    (outside : backfill.lanes request.message = none) : Stays backfill (backfill.pushInteractive request).addPending := by
  refine stays_moved backfill _ kept request.message .interactive (by simp) (by simp [Flies, outside]) rfl ?_ rfl
    ⟨request, by simp [pushInteractive, addPending, queue], rfl⟩ ?_
  · rw [if_pos outside]
    rfl
  · intro lane other member _
    cases lane with
    | interactive => exact ⟨other, List.mem_append_left _ member, rfl⟩
    | _ => exact ⟨other, member, rfl⟩

theorem requestNow_stays (kept : Kept backfill) (request : BodyRequest) :
    Stays backfill (backfill.requestNow request) := by
  unfold requestNow
  split
  next => exact ⟨kept, SameFlights.refl backfill⟩
  next =>
    split
    next => exact stays_congr backfill _ kept rfl rfl rfl (fun lane => by cases lane <;> rfl)
    next =>
      refine ⟨⟨kept.pending, fun message lane there waits => ?_⟩, fun _ => Iff.rfl, rfl⟩
      obtain ⟨queued, member, named⟩ := kept.entry message lane there waits
      cases lane with
      | interactive =>
        refine ⟨_, List.mem_map_of_mem member, ?_⟩
        split
        · exact named
        · exact named
      | _ => exact ⟨queued, member, named⟩
    next here => exact pushInteractive_stays backfill kept request (by simp [Flies, here]) (by simp [here])
    next here => exact pushInteractive_stays backfill kept request (by simp [Flies, here]) (by simp [here])
    next here => exact joinInteractive_stays backfill kept request here

theorem queueFresh_stays (kept : Kept backfill) (request : BodyRequest) :
    Stays backfill (backfill.queueFresh request).1 := by
  have same : Stays backfill backfill := ⟨kept, SameFlights.refl backfill⟩
  have others (lane : Lane) (other : BodyRequest) (member : other ∈ backfill.queue lane) :
      ∃ found ∈ ({ backfill with fresh := backfill.fresh ++ [request] } : Backfill).queue lane,
        found.message = other.message := by
    cases lane with
    | fresh => exact ⟨other, List.mem_append_left _ member, rfl⟩
    | _ => exact ⟨other, member, rfl⟩
  unfold queueFresh
  dsimp only
  split
  next => exact same
  next => exact same
  next => exact same
  next here =>
    refine stays_moved backfill _ kept request.message .fresh (by simp) (by simp [Flies, here]) rfl ?_ rfl
      ⟨request, by simp [queue], rfl⟩ ?_
    · rw [if_neg (by simp [here])]
      rfl
    · intro lane other member _
      obtain ⟨found, there, named⟩ := others lane other member
      exact ⟨found, by cases lane <;> exact there, named⟩
  next here =>
    refine stays_moved backfill _ kept request.message .fresh (by simp) (by simp [Flies, here]) rfl ?_ rfl
      ⟨request, by simp [queue], rfl⟩ ?_
    · rw [if_pos here]
      rfl
    · intro lane other member _
      obtain ⟨found, there, named⟩ := others lane other member
      exact ⟨found, by cases lane <;> exact there, named⟩

theorem putFollowup_stays (kept : Kept backfill) (message : MessageId)
    (payloads : Option BodyRequest) : Stays backfill (backfill.putFollowup message payloads) := by
  unfold putFollowup
  split
  next => exact stays_congr backfill _ kept rfl rfl rfl (fun lane => by cases lane <;> rfl)
  next => exact ⟨kept, SameFlights.refl backfill⟩

theorem arrived_stays (kept : Kept backfill) (text payloads : Option BodyRequest) :
    Stays backfill (backfill.arrived text payloads).1 := by
  have same : Stays backfill backfill := ⟨kept, SameFlights.refl backfill⟩
  unfold arrived
  split
  next => exact same
  next =>
    split
    next => exact same
    next message _ =>
      split
      next =>
        cases payloads with
        | some payloads => exact queueFresh_stays backfill kept payloads
        | none => exact same
      next request _ =>
        split
        next => exact putFollowup_stays backfill kept message payloads
        next => exact putFollowup_stays backfill kept message payloads
        next => exact putFollowup_stays backfill kept message payloads
        next =>
          have forgiven : Stays backfill { backfill with
              setAside := Function.update backfill.setAside message false
              interrupted := Function.update backfill.interrupted message none } :=
            stays_congr backfill _ kept rfl rfl rfl (fun lane => by cases lane <;> rfl)
          have followed := forgiven.trans _ _ _ (putFollowup_stays _ forgiven.kept message payloads)
          exact followed.trans _ _ _ (queueFresh_stays _ followed.kept request)

theorem dropFollowup_stays (kept : Kept backfill) (message : MessageId) :
    Stays backfill (backfill.dropFollowup message) :=
  stays_congr backfill _ kept rfl rfl rfl (fun lane => by cases lane <;> rfl)

theorem settle_stays (kept : Kept backfill) (message : MessageId) (outcome : Outcome) (now : Nat) :
    Stays backfill (backfill.settle message outcome now) := by
  cases outcome with
  | stored bytes =>
    have stored : Stays backfill { backfill with
        interrupted := Function.update backfill.interrupted message none
        progress := { backfill.progress with
          stored := backfill.progress.stored + 1
          bytes := backfill.progress.bytes + bytes } } :=
      stays_congr backfill _ kept rfl rfl rfl (fun lane => by cases lane <;> rfl)
    simp only [settle]
    split
    next payloads _ =>
      have dropped := stored.trans _ _ _ (dropFollowup_stays _ stored.kept message)
      exact dropped.trans _ _ _ (queueFresh_stays _ dropped.kept payloads)
    next => exact stored
  | _ => exact stays_congr backfill _ kept rfl rfl rfl (fun lane => by cases lane <;> rfl)

theorem offerDeferred_stays (kept : Kept backfill) (message : MessageId) :
    Stays backfill (backfill.offerDeferred message) := by
  unfold offerDeferred
  split
  next held _ =>
    have emptied : Stays backfill
        { backfill with deferred := Function.update backfill.deferred message none } :=
      stays_congr backfill _ kept rfl rfl rfl (fun lane => by cases lane <;> rfl)
    exact emptied.trans _ _ _ (requestNow_stays _ emptied.kept held)
  next => exact ⟨kept, SameFlights.refl backfill⟩

/-! ### Leaving the wire -/

/-- A message left the wire, and nothing else did. -/
structure Landed (backfill after : Backfill) (message : MessageId) : Prop where
  kept : Kept after
  flies : ∀ other, after.Flies other <-> backfill.Flies other ∧ other ≠ message
  inFlight : after.progress.inFlight = backfill.progress.inFlight - 1

theorem Landed.trans (middle after : Backfill) (message : MessageId) (landed : Landed backfill middle message)
    (later : Stays middle after) : Landed backfill after message :=
  ⟨later.kept, fun other => (later.flights.flies other).trans (landed.flies other),
    later.flights.inFlight.trans landed.inFlight⟩

theorem leave_landed (kept : Kept backfill) (message : MessageId)
    (flying : backfill.Flies message) (progress : BackfillProgress)
    (pending : progress.pending = backfill.progress.pending)
    (inFlight : progress.inFlight = backfill.progress.inFlight - 1) :
    Landed backfill { backfill.putLane message none with progress := progress } message := by
  constructor
  · constructor
    · change Counted _ progress.pending
      rw [pending]
      refine kept.pending.congr _ _ _ ?_
      intro other
      by_cases same : other = message
      · subst same
        have here : backfill.lanes other = some .inFlight := flying
        simp [Waits, putLane, here]
      · simp [Waits, putLane, same]
    · intro other lane there waits
      by_cases same : other = message
      · subst same
        simp [putLane] at there
      · simp only [putLane, Function.update_of_ne same] at there
        obtain ⟨request, member, named⟩ := kept.entry other lane there waits
        exact ⟨request, by cases lane <;> exact member, named⟩
  · intro other
    by_cases same : other = message
    · subst same
      simp [Flies, putLane]
    · simp [Flies, putLane, same]
  · exact inFlight

theorem finishedAt_landed (kept : Kept backfill) (message : MessageId)
    (flying : backfill.Flies message) (outcome : Outcome) (now : Nat) :
    Landed backfill (backfill.finishedAt message outcome now) message := by
  have here : backfill.lanes message = some .inFlight := flying
  unfold finishedAt
  dsimp only
  rw [if_neg (by simp [here])]
  have left := leave_landed backfill kept message flying
    { backfill.progress with inFlight := backfill.progress.inFlight - 1 } rfl rfl
  have settled := left.trans _ _ _ _ (settle_stays _ left.kept message outcome now)
  exact settled.trans _ _ _ _ (offerDeferred_stays _ settled.kept message)

theorem returned_landed (kept : Kept backfill) (message : MessageId)
    (flying : backfill.Flies message) (lane : Lane) (waits : lane ≠ .inFlight)
    (lanes : after.lanes = Function.update backfill.lanes message (some lane))
    (pending : after.progress.pending = backfill.progress.pending + 1)
    (inFlight : after.progress.inFlight = backfill.progress.inFlight - 1)
    (entry : ∃ request ∈ after.queue lane, request.message = message)
    (others : ∀ lane, ∀ request ∈ backfill.queue lane, request ∈ after.queue lane) :
    Landed backfill after message := by
  -- A message goes back from the wire to the front of a queue.
  have here : backfill.lanes message = some .inFlight := flying
  constructor
  · constructor
    · rw [pending]
      refine kept.pending.insert _ _ _ message ?_ ?_
      · rintro ⟨lane, there, apart⟩
        rw [here] at there
        cases there
        exact apart rfl
      · intro other
        by_cases same : other = message
        · subst same
          simp [Waits, lanes, waits]
        · simp [Waits, lanes, same]
    · intro other lane' there stays
      rw [lanes] at there
      by_cases same : other = message
      · subst same
        rw [Function.update_self] at there
        cases there
        exact entry
      · rw [Function.update_of_ne same] at there
        obtain ⟨request, member, named⟩ := kept.entry other lane' there stays
        exact ⟨request, others lane' request member, named⟩
  · intro other
    rw [Flies, lanes]
    by_cases same : other = message
    · subst same
      simp [waits]
    · simp [same, Flies]
  · exact inFlight

theorem release_landed (kept : Kept backfill) (claim : Claim) (flying : backfill.Flies claim.request.message) :
    Landed backfill (backfill.release claim) claim.request.message := by
  have here : backfill.lanes claim.request.message = some .inFlight := flying
  unfold release
  dsimp only
  rw [if_neg (by simp [here])]
  split
  next => exact leave_landed backfill kept _ flying _ rfl rfl
  next =>
    split
    next =>
      refine returned_landed backfill _ kept _ flying .background (by simp) rfl rfl rfl
        ⟨claim.request, (mem_pushBackground _ _ _).mpr (.inl rfl), rfl⟩ ?_
      intro lane request member
      cases lane with
      | background => exact (mem_pushBackground _ _ _).mpr (.inr member)
      | _ => exact member
    next =>
      refine returned_landed backfill _ kept _ flying .interactive (by simp) rfl rfl rfl
        ⟨claim.request, List.mem_cons_self, rfl⟩ ?_
      intro lane request member
      cases lane with
      | interactive => exact List.mem_cons_of_mem _ member
      | _ => exact member
    next =>
      refine returned_landed backfill _ kept _ flying .fresh (by simp) rfl rfl rfl
        ⟨claim.request, List.mem_cons_self, rfl⟩ ?_
      intro lane request member
      cases lane with
      | fresh => exact List.mem_cons_of_mem _ member
      | _ => exact member

end Backfill

end Postio.Bodies

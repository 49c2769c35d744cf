import Postio.Sync.BackfillBooks

set_option autoImplicit false

namespace Postio.Bodies

theorem find_eraseP (queue : List BodyRequest) (goes : BodyRequest -> Bool) (request : BodyRequest)
    (found : queue.find? goes = some request) :
    ∃ before after, queue = before ++ request :: after ∧ queue.eraseP goes = before ++ after ∧ goes request = true ∧
      ∀ other ∈ before, goes other = false := by
  induction queue with
  | nil => cases found
  | cons head tail ih =>
    cases here : goes head with
    | true =>
      rw [List.find?_cons_of_pos here] at found
      cases found
      exact ⟨[], tail, rfl, by rw [List.eraseP_cons_of_pos here]; rfl, here, by simp⟩
    | false =>
      rw [List.find?_cons_of_neg (by simp [here])] at found
      obtain ⟨before, after, same, erased, goes, passed⟩ := ih found
      refine ⟨head :: before, after, by rw [same]; rfl, ?_, goes, ?_⟩
      · rw [List.eraseP_cons_of_neg (by simp [here]), erased]
        rfl
      · intro other member
        rcases List.mem_cons.mp member with rfl | later
        · exact here
        · exact passed other later

namespace Backfill

/-- An entry was taken out of the queue of its message's lane, and no other message lost one it needs. -/
structure Took (backfill after : Backfill) (request : BodyRequest) : Prop where
  lanes : after.lanes = backfill.lanes
  progress : after.progress = backfill.progress
  waits : backfill.Waits request.message
  entry : ∀ other lane, backfill.lanes other = some lane -> other ≠ request.message ->
    (∃ queued ∈ backfill.queue lane, queued.message = other) -> ∃ queued ∈ after.queue lane, queued.message = other

/-- Claims were handed out, of messages that waited. -/
structure Handed (backfill after : Backfill) (claims : List Claim) : Prop where
  kept : Kept after
  grounded : ∀ claim ∈ claims, ¬ backfill.Flies claim.request.message
  distinct : (claims.map (fun claim => claim.request.message)).Nodup
  flies : ∀ message, after.Flies message <->
    backfill.Flies message ∨ message ∈ claims.map (fun claim => claim.request.message)
  inFlight : after.progress.inFlight = backfill.progress.inFlight + claims.length

variable (backfill : Backfill)

theorem handed_nil (after : Backfill) (stays : Stays backfill after) : Handed backfill after [] :=
  ⟨stays.kept, by simp, by simp, fun message => by simp [stays.flights.flies], stays.flights.inFlight⟩

theorem handed_append (middle after : Backfill) (first second : List Claim)
    (before : Handed backfill middle first) (later : Handed middle after second) :
    Handed backfill after (first ++ second) := by
  constructor
  case kept => exact later.kept
  case grounded =>
    intro claim member flying
    rcases List.mem_append.mp member with early | late
    · exact before.grounded claim early flying
    · exact later.grounded claim late ((before.flies _).mpr (.inl flying))
  case distinct =>
    rw [List.map_append, List.nodup_append]
    refine ⟨before.distinct, later.distinct, fun message early other late same => ?_⟩
    obtain ⟨claim, member, named⟩ := List.mem_map.mp late
    refine later.grounded claim member ((before.flies _).mpr (.inr ?_))
    rw [named, ← same]
    exact early
  case flies =>
    intro message
    rw [later.flies, before.flies, List.map_append, List.mem_append, or_assoc]
  case inFlight =>
    rw [later.inFlight, before.inFlight, List.length_append]
    omega

theorem claim_handed (after : Backfill) (kept : Kept backfill) (request : BodyRequest)
    (took : Took backfill after request) (priority : Priority) :
    Handed backfill (after.claim request priority).1 [(after.claim request priority).2] := by
  have grounded : ¬ backfill.Flies request.message := by
    obtain ⟨lane, there, waits⟩ := took.waits
    intro flying
    rw [Flies, there] at flying
    exact waits (Option.some.inj flying)
  constructor
  case kept =>
    constructor
    · change Counted _ (after.progress.pending - 1)
      rw [took.progress]
      refine kept.pending.erase _ _ _ request.message took.waits (fun other => ?_)
      by_cases same : other = request.message
      · subst same
        simp [Waits, claim, putLane]
      · simp [Waits, claim, putLane, took.lanes, same]
    · intro other lane there waits
      by_cases same : other = request.message
      · subst same
        simp only [claim, putLane, Function.update_self, Option.some.injEq] at there
        exact absurd there.symm waits
      · simp only [claim, putLane, Function.update_of_ne same, took.lanes] at there
        obtain ⟨queued, member, named⟩ := took.entry other lane there same (kept.entry other lane there waits)
        exact ⟨queued, by cases lane <;> exact member, named⟩
  case grounded =>
    intro claim member
    rw [List.mem_singleton.mp member]
    exact grounded
  case distinct => simp
  case flies =>
    intro message
    by_cases same : message = request.message
    · subst same
      simp [Flies, claim, putLane]
    · simp [Flies, claim, putLane, took.lanes, same]
  case inFlight =>
    change after.progress.inFlight + 1 = _
    rw [took.progress]
    rfl

def TakesFrom (taken : Backfill × Option BodyRequest) : Prop :=
  -- Either nothing was taken, and nothing is missed, or an entry was.
  match taken.2 with
  | none => Stays backfill taken.1
  | some request => Took backfill taken.1 request

theorem claimed_handed (kept : Kept backfill) (taken : Backfill × Option BodyRequest)
    (takes : TakesFrom backfill taken) (priority : Priority) :
    Handed backfill (claimed taken priority).1 (claimed taken priority).2.toList := by
  obtain ⟨after, request⟩ := taken
  cases request with
  | none => exact handed_nil backfill after takes
  | some request => exact claim_handed backfill after kept request takes priority

theorem takeInteractive_takes (kept : Kept backfill) :
    TakesFrom backfill backfill.takeInteractive := by
  unfold takeInteractive
  cases found : firstIn backfill.lanes .interactive backfill.interactive with
  | none =>
    have nobody := firstIn_none _ _ _ found
    refine ⟨⟨kept.pending, fun message lane there waits => ?_⟩, fun _ => Iff.rfl, rfl⟩
    obtain ⟨queued, member, named⟩ := kept.entry message lane there waits
    cases lane with
    | interactive => exact absurd (by rw [named]; exact there) (nobody queued member)
    | _ => exact ⟨queued, member, named⟩
  | some pair =>
    obtain ⟨request, rest⟩ := pair
    obtain ⟨stale, same, here, passed⟩ := firstIn_some _ _ _ _ _ found
    refine ⟨rfl, rfl, ⟨.interactive, here, by simp⟩, fun other lane there apart queued => ?_⟩
    obtain ⟨queued, member, named⟩ := queued
    cases lane with
    | interactive =>
      refine ⟨queued, ?_, named⟩
      simp only [queue, same] at member
      rcases List.mem_append.mp member with old | new
      · exact absurd (by rw [named]; exact there) (passed queued old)
      · rcases List.mem_cons.mp new with equal | later
        · exact absurd (named.symm.trans (by rw [equal])) apart
        · exact later
    | _ => exact ⟨queued, member, named⟩

theorem takeBackground_takes (kept : Kept backfill) :
    TakesFrom backfill backfill.takeBackground := by
  unfold takeBackground
  cases found : firstIn backfill.lanes .background backfill.background with
  | none =>
    have nobody := firstIn_none _ _ _ found
    refine ⟨⟨kept.pending, fun message lane there waits => ?_⟩, fun _ => Iff.rfl, rfl⟩
    obtain ⟨queued, member, named⟩ := kept.entry message lane there waits
    cases lane with
    | background => exact absurd (by rw [named]; exact there) (nobody queued member)
    | _ => exact ⟨queued, member, named⟩
  | some pair =>
    obtain ⟨request, rest⟩ := pair
    obtain ⟨stale, same, here, passed⟩ := firstIn_some _ _ _ _ _ found
    refine ⟨rfl, rfl, ⟨.background, here, by simp⟩, fun other lane there apart queued => ?_⟩
    obtain ⟨queued, member, named⟩ := queued
    cases lane with
    | background =>
      refine ⟨queued, ?_, named⟩
      simp only [queue, same] at member
      rcases List.mem_append.mp member with old | new
      · exact absurd (by rw [named]; exact there) (passed queued old)
      · rcases List.mem_cons.mp new with equal | later
        · exact absurd (named.symm.trans (by rw [equal])) apart
        · exact later
    | _ => exact ⟨queued, member, named⟩

theorem takeFresh_takes (kept : Kept backfill) : TakesFrom backfill backfill.takeFresh := by
  unfold takeFresh
  dsimp only
  cases found : backfill.fresh.find? (fun request =>
      backfill.lanes request.message = some .fresh && !backfill.heldBack request) with
  | none => exact ⟨kept, SameFlights.refl backfill⟩
  | some request =>
    obtain ⟨before, after, same, erased, goes, -⟩ := find_eraseP _ _ _ found
    have here : backfill.lanes request.message = some .fresh := by
      simp only [Bool.and_eq_true, decide_eq_true_eq] at goes
      exact goes.1
    refine ⟨rfl, rfl, ⟨.fresh, here, by simp⟩, fun other lane there apart queued => ?_⟩
    obtain ⟨queued, member, named⟩ := queued
    cases lane with
    | fresh =>
      refine ⟨queued, List.mem_filter.mpr ⟨?_, by rw [named]; exact decide_eq_true there⟩, named⟩
      rw [erased]
      simp only [queue, same] at member
      rcases List.mem_append.mp member with old | new
      · exact List.mem_append_left _ old
      · rcases List.mem_cons.mp new with equal | later
        · exact absurd (named.symm.trans (by rw [equal])) apart
        · exact List.mem_append_right _ later
    | _ => exact ⟨queued, member, named⟩

/-! ### Handing out -/

theorem nextInteractiveBody_handed (kept : Kept backfill) :
    Handed backfill backfill.nextInteractiveBody.1 backfill.nextInteractiveBody.2.toList := by
  unfold nextInteractiveBody
  split
  next => exact handed_nil backfill backfill ⟨kept, SameFlights.refl backfill⟩
  next =>
    have first := claimed_handed backfill kept _ (takeInteractive_takes backfill kept) .interactive
    split
    next after claim same =>
      rw [same] at first
      exact first
    next after same =>
      rw [same] at first
      have second := claimed_handed after first.kept _ (takeFresh_takes after first.kept) .fresh
      exact handed_append backfill after _ [] _ first second

theorem nextBody_handed (kept : Kept backfill) :
    Handed backfill backfill.nextBody.1 backfill.nextBody.2.toList := by
  unfold nextBody
  split
  next => exact handed_nil backfill backfill ⟨kept, SameFlights.refl backfill⟩
  next =>
    have first := nextInteractiveBody_handed backfill kept
    split
    next after claim same =>
      rw [same] at first
      exact first
    next after same =>
      rw [same] at first
      split
      next =>
        have second := claimed_handed after first.kept _ (takeBackground_takes after first.kept) .background
        exact handed_append backfill after _ [] _ first second
      next => exact first

theorem batchInteractive_handed (kept : Kept backfill) (room : Nat) :
    Handed backfill (backfill.batchInteractive room).1 (backfill.batchInteractive room).2 := by
  induction room generalizing backfill with
  | zero => exact handed_nil backfill backfill ⟨kept, SameFlights.refl backfill⟩
  | succ room ih =>
    have first := nextInteractiveBody_handed backfill kept
    unfold batchInteractive
    split
    next after same =>
      rw [same] at first
      exact first
    next after claim same =>
      rw [same] at first
      exact handed_append backfill after _ [claim] _ first (ih after first.kept)

theorem batchBodies_handed (kept : Kept backfill) (bytes room : Nat) :
    Handed backfill (backfill.batchBodies bytes room).1 (backfill.batchBodies bytes room).2 := by
  induction room generalizing backfill bytes with
  | zero => exact handed_nil backfill backfill ⟨kept, SameFlights.refl backfill⟩
  | succ room ih =>
    have first := nextBody_handed backfill kept
    unfold batchBodies
    split
    next =>
      split
      next after same =>
        rw [same] at first
        exact first
      next after claim same =>
        rw [same] at first
        exact handed_append backfill after _ [claim] _ first (ih after first.kept _)
    next => exact handed_nil backfill backfill ⟨kept, SameFlights.refl backfill⟩

theorem nextBatch_handed (kept : Kept backfill) :
    Handed backfill backfill.nextBatch.1 backfill.nextBatch.2 := by
  have first := batchInteractive_handed backfill kept batchLen
  unfold nextBatch
  split
  next after same =>
    rw [same] at first
    exact handed_append backfill after _ [] _ first (batchBodies_handed after first.kept 0 batchLen)
  next after batch _ same =>
    rw [same] at first
    exact first

theorem finishedAt_outside (message : MessageId) (outside : backfill.lanes message = none)
    (outcome : Outcome) (now : Nat) : backfill.finishedAt message outcome now = backfill := by
  -- A report or a handing back of what is not on the wire.
  unfold finishedAt
  dsimp only
  rw [if_pos (by simp [outside]), putLane, ← outside, Function.update_eq_self]

theorem finishedAt_waiting (kept : Kept backfill) (message : MessageId)
    (waits : backfill.Waits message) (outcome : Outcome) (now : Nat) :
    ¬ Counted (backfill.finishedAt message outcome now).Waits (backfill.finishedAt message outcome now).progress.pending := by
  -- A report takes a waiting message out of its lane, and leaves it counted.
  obtain ⟨lane, there, apart⟩ := waits
  have unchanged : backfill.finishedAt message outcome now = backfill.putLane message none := by
    unfold finishedAt
    dsimp only
    rw [if_pos (by rw [there]; simpa using apart)]
  rw [unchanged]
  intro counted
  have fewer : Counted (backfill.putLane message none).Waits (backfill.progress.pending - 1) := by
    refine kept.pending.erase _ _ _ message ⟨lane, there, apart⟩ (fun other => ?_)
    by_cases same : other = message
    · subst same
      simp [Waits, putLane]
    · simp [Waits, putLane, same]
  have positive := kept.pending.positive _ _ message ⟨lane, there, apart⟩
  have equal := counted.unique _ _ _ fewer
  simp only [putLane] at equal
  omega

theorem release_outside (claim : Claim) (outside : ¬ backfill.Flies claim.request.message) :
    backfill.release claim = backfill := by
  have apart : backfill.lanes claim.request.message ≠ some .inFlight := outside
  unfold release
  dsimp only
  rw [if_pos apart]

theorem cancel_kept : Kept backfill.cancel := by
  constructor
  · refine Counted.none _ (fun message => ?_)
    rintro ⟨lane, there, -⟩
    cases there
  · intro message lane there
    cases there

end Backfill

/-! ### What the books say of a session -/

namespace Session

open Backfill

/-- The claims handed out, not handed back and not reported, against the queue. -/
structure Exact (session : Session) : Prop where
  pending : Counted session.backfill.Waits session.backfill.progress.pending
  entry : ∀ message lane, session.backfill.lanes message = some lane -> lane ≠ .inFlight ->
    ∃ request ∈ session.backfill.queue lane, request.message = message
  inFlight : session.backfill.progress.inFlight = session.live.length
  once : ∀ first second claim other, first ∈ session.live -> second ∈ session.live ->
    session.claims[first]? = some claim -> session.claims[second]? = some other ->
    claim.request.message = other.request.message -> first = second
  claimed : ∀ message, session.backfill.Flies message <->
    ∃ ticket ∈ session.live, ∃ claim, session.claims[ticket]? = some claim ∧ claim.request.message = message

/-- The tickets outstanding are tickets. -/
structure Sound (session : Session) : Prop where
  exact : Exact session
  nodup : session.live.Nodup
  issued : ∀ ticket ∈ session.live, ticket < session.claims.length

variable (session : Session) (event : Event)

theorem Exact.kept (exact : Exact session) : Kept session.backfill := ⟨exact.pending, exact.entry⟩

/-- A report or a handing back concerns a claim that is outstanding, or finds nothing to change. -/
def Steady : Event -> Prop
  | .release ticket => ∀ claim, session.claims[ticket]? = some claim -> ticket ∉ session.live ->
      ¬ session.backfill.Flies claim.request.message
  | .finished ticket _ _ => ∀ claim, session.claims[ticket]? = some claim -> ticket ∉ session.live ->
      session.backfill.lanes claim.request.message = none
  | .reported message _ _ => session.backfill.lanes message = none
  | _ => True

/-- A report of what nobody claims. -/
def Unclaimed : Event -> Prop
  | .finished ticket _ _ => ticket ∉ session.live
  | .release ticket => ticket ∉ session.live
  | .reported _ _ _ => True
  | _ => False

structure Balanced (session : Session) (event : Event) : Prop where
  exact : Exact (session.step event)
  unchanged : session.Unclaimed event -> (session.step event).backfill = session.backfill

theorem sound_stays (sound : Sound session) (after : Backfill)
    (stays : Stays session.backfill after) : Sound { session with backfill := after } := by
  refine ⟨⟨stays.kept.pending, stays.kept.entry, ?_, sound.exact.once, fun message => ?_⟩, sound.nodup, sound.issued⟩
  · rw [stays.flights.inFlight]
    exact sound.exact.inFlight
  · rw [stays.flights.flies]
    exact sound.exact.claimed message

theorem ticket_cases (sound : Sound session) (claims : List Claim) (ticket : Nat)
    (member : ticket ∈ session.live ++ List.range' session.claims.length claims.length) :
    ticket ∈ session.live ∧ (session.claims ++ claims)[ticket]? = session.claims[ticket]? ∨
      ∃ place, ticket = session.claims.length + place ∧ (session.claims ++ claims)[ticket]? = claims[place]? := by
  -- A ticket is one of those issued before, or the place of one of the claims handed out now.
  rcases List.mem_append.mp member with old | new
  · exact .inl ⟨old, List.getElem?_append_left (sound.issued ticket old)⟩
  · have bounds := List.mem_range'_1.mp new
    refine .inr ⟨ticket - session.claims.length, by omega, ?_⟩
    exact List.getElem?_append_right bounds.1

theorem sound_handOut (sound : Sound session) (after : Backfill) (claims : List Claim)
    (handed : Handed session.backfill after claims) : Sound (session.handOut after claims) := by
  have flying (ticket : Nat) (claim : Claim) (live : ticket ∈ session.live)
      (found : session.claims[ticket]? = some claim) : session.backfill.Flies claim.request.message :=
    (sound.exact.claimed _).mpr ⟨ticket, live, claim, found, rfl⟩
  have grounded (place : Nat) (claim : Claim) (found : claims[place]? = some claim) :
      ¬ session.backfill.Flies claim.request.message :=
    handed.grounded claim (List.mem_of_getElem? found)
  constructor
  case exact =>
    constructor
    case pending => exact handed.kept.pending
    case entry => exact handed.kept.entry
    case inFlight =>
      have before := sound.exact.inFlight
      have now := handed.inFlight
      simp only [handOut, List.length_append, List.length_range']
      omega
    case once =>
      intro first second claim other firstLive secondLive firstFound secondFound same
      simp only [handOut] at firstLive secondLive firstFound secondFound
      rcases ticket_cases session sound claims first firstLive with ⟨live, there⟩ | ⟨place, named, there⟩
      · rcases ticket_cases session sound claims second secondLive with ⟨live', there'⟩ | ⟨place', named', there'⟩
        · exact sound.exact.once first second claim other live live' (there ▸ firstFound) (there' ▸ secondFound) same
        · have up := flying first claim live (there ▸ firstFound)
          rw [same] at up
          exact absurd up (grounded place' other (there' ▸ secondFound))
      · rcases ticket_cases session sound claims second secondLive with ⟨live', there'⟩ | ⟨place', named', there'⟩
        · have up := flying second other live' (there' ▸ secondFound)
          rw [← same] at up
          exact absurd up (grounded place claim (there ▸ firstFound))
        · rw [there] at firstFound
          rw [there'] at secondFound
          have short : place < (claims.map (fun claim => claim.request.message)).length := by
            rw [List.length_map]
            exact (List.getElem?_eq_some_iff.mp firstFound).1
          have equal : place = place' := by
            refine (List.getElem?_inj short handed.distinct).mp ?_
            rw [List.getElem?_map, List.getElem?_map, firstFound, secondFound]
            exact congrArg some same
          rw [named, named', equal]
    case claimed =>
      intro message
      change after.Flies message <-> _
      rw [handed.flies, sound.exact.claimed]
      simp only [handOut]
      constructor
      · rintro (⟨ticket, live, claim, found, named⟩ | among)
        · refine ⟨ticket, List.mem_append_left _ live, claim, ?_, named⟩
          rw [List.getElem?_append_left (sound.issued ticket live)]
          exact found
        · obtain ⟨claim, member, named⟩ := List.mem_map.mp among
          obtain ⟨place, found⟩ := List.getElem?_of_mem member
          have short := (List.getElem?_eq_some_iff.mp found).1
          refine ⟨session.claims.length + place, List.mem_append_right _ ?_, claim, ?_, named⟩
          · exact List.mem_range'_1.mpr ⟨by omega, by omega⟩
          · rw [List.getElem?_append_right (by omega), Nat.add_sub_cancel_left]
            exact found
      · rintro ⟨ticket, live, claim, found, named⟩
        rcases ticket_cases session sound claims ticket live with ⟨old, there⟩ | ⟨place, -, there⟩
        · exact .inl ⟨ticket, old, claim, there ▸ found, named⟩
        · exact .inr (List.mem_map.mpr ⟨claim, List.mem_of_getElem? (there ▸ found), named⟩)
  case nodup =>
    simp only [handOut]
    refine List.nodup_append.mpr ⟨sound.nodup, List.nodup_range', fun ticket old other new same => ?_⟩
    have early := sound.issued ticket old
    have late := (List.mem_range'_1.mp new).1
    omega
  case issued =>
    intro ticket live
    simp only [handOut, List.length_append] at live ⊢
    rcases List.mem_append.mp live with old | new
    · have early := sound.issued ticket old
      omega
    · exact (List.mem_range'_1.mp new).2

theorem sound_landed (sound : Sound session) (after : Backfill) (ticket : Nat) (claim : Claim)
    (found : session.claims[ticket]? = some claim) (live : ticket ∈ session.live)
    (landed : Landed session.backfill after claim.request.message) :
    Sound { session with backfill := after, live := session.live.erase ticket } := by
  constructor
  case exact =>
    constructor
    case pending => exact landed.kept.pending
    case entry => exact landed.kept.entry
    case inFlight =>
      rw [landed.inFlight, sound.exact.inFlight, List.length_erase_of_mem live]
    case once =>
      intro first second one other firstLive secondLive
      exact sound.exact.once first second one other (List.mem_of_mem_erase firstLive) (List.mem_of_mem_erase secondLive)
    case claimed =>
      intro message
      rw [landed.flies, sound.exact.claimed]
      constructor
      · rintro ⟨⟨holder, held, one, there, named⟩, apart⟩
        refine ⟨holder, (List.mem_erase_of_ne ?_).mpr held, one, there, named⟩
        rintro rfl
        rw [found] at there
        cases there
        exact apart named.symm
      · rintro ⟨holder, held, one, there, named⟩
        obtain ⟨apart, held⟩ := sound.nodup.mem_erase_iff.mp held
        refine ⟨⟨holder, held, one, there, named⟩, fun same => apart ?_⟩
        exact sound.exact.once holder ticket one claim held live there found (named.trans same)
  case nodup => exact sound.nodup.erase ticket
  case issued => exact fun holder held => sound.issued holder (List.mem_of_mem_erase held)

theorem erase_late (ticket : Nat) (late : ticket ∉ session.live) :
    session.live.erase ticket = session.live := List.erase_of_not_mem late

theorem sound_step (sound : Sound session) (steady : session.Steady event) :
    Sound (session.step event) := by
  have kept := sound.exact.kept
  have quiet (after : Backfill) (lanes : after.lanes = session.backfill.lanes)
      (progress : after.progress = session.backfill.progress)
      (queues : ∀ lane, after.queue lane = session.backfill.queue lane) :
      Sound { session with backfill := after } :=
    sound_stays session sound after (stays_congr _ after kept lanes (by rw [progress]) (by rw [progress]) queues)
  cases event with
  | enqueue request now => exact sound_stays session sound _ (enqueueAt_stays _ kept request now)
  | requestNow request => exact sound_stays session sound _ (requestNow_stays _ kept request)
  | arrived text payloads => exact sound_stays session sound _ (arrived_stays _ kept text payloads)
  | nextBody => exact sound_handOut session sound _ _ (nextBody_handed _ kept)
  | nextInteractiveBody => exact sound_handOut session sound _ _ (nextInteractiveBody_handed _ kept)
  | nextBatch => exact sound_handOut session sound _ _ (nextBatch_handed _ kept)
  | release ticket =>
    simp only [step]
    cases found : session.claims[ticket]? with
    | none => exact sound
    | some claim =>
      by_cases live : ticket ∈ session.live
      · have flying := (sound.exact.claimed _).mpr ⟨ticket, live, claim, found, rfl⟩
        exact sound_landed session sound _ ticket claim found live (release_landed _ kept claim flying)
      · have outside := steady claim found live
        simp only [release_outside _ claim outside, erase_late session ticket live]
        exact sound
  | finished ticket outcome now =>
    simp only [step]
    cases found : session.claims[ticket]? with
    | none => exact sound
    | some claim =>
      by_cases live : ticket ∈ session.live
      · have flying := (sound.exact.claimed _).mpr ⟨ticket, live, claim, found, rfl⟩
        exact sound_landed session sound _ ticket claim found live (finishedAt_landed _ kept _ flying outcome now)
      · have outside := steady claim found live
        simp only [finishedAt_outside _ _ outside, erase_late session ticket live]
        exact sound
  | reported message outcome now =>
    have outside : session.backfill.lanes message = none := steady
    simp only [step, finishedAt_outside _ _ outside]
    exact sound
  | cancel =>
    have empty := cancel_kept session.backfill
    refine ⟨⟨empty.pending, empty.entry, rfl, by simp [step], fun message => ?_⟩, List.nodup_nil, by simp [step]⟩
    simp [step, Flies, cancel]
  | reconnected => exact quiet _ rfl rfl (fun lane => by cases lane <;> rfl)
  | restart => exact quiet _ rfl rfl (fun lane => by cases lane <;> rfl)
  | setMetered metered => exact quiet _ rfl rfl (fun lane => by cases lane <;> rfl)
  | setUserActive active => exact quiet _ rfl rfl (fun lane => by cases lane <;> rfl)
  | setDiskFull full => exact quiet _ rfl rfl (fun lane => by cases lane <;> rfl)

theorem landed_miscounts (sound : Sound session) (after : Backfill) (message : MessageId)
    (flying : session.backfill.Flies message) (landed : Landed session.backfill after message) :
    after.progress.inFlight ≠ session.live.length := by
  -- What is on the wire is counted, so the count cannot go down while every claim stays outstanding.
  obtain ⟨ticket, live, -⟩ := (sound.exact.claimed message).mp flying
  have some : 0 < session.live.length := List.length_pos_of_mem live
  rw [landed.inFlight, sound.exact.inFlight]
  omega

theorem report_outside (sound : Sound session) (message : MessageId) (outcome : Outcome) (now : Nat)
    (exact : Exact { session with backfill := session.backfill.finishedAt message outcome now }) :
    session.backfill.lanes message = none := by
  -- A report of a message nobody claims leaves the books wrong, unless the message is in no lane.
  have kept := sound.exact.kept
  cases here : session.backfill.lanes message with
  | none => rfl
  | some lane =>
    exfalso
    by_cases flying : lane = .inFlight
    · subst flying
      exact landed_miscounts session sound _ message here (finishedAt_landed _ kept message here outcome now)
        exact.inFlight
    · exact finishedAt_waiting _ kept message ⟨lane, here, flying⟩ outcome now exact.pending

theorem steady_of_balanced (sound : Sound session) (balanced : session.Balanced event) : session.Steady event:= by
  have exact := balanced.exact
  cases event with
  | release ticket =>
    intro claim found late flying
    simp only [step, found, erase_late session ticket late] at exact
    exact landed_miscounts session sound _ _ flying (release_landed _ sound.exact.kept claim flying) exact.inFlight
  | finished ticket outcome now =>
    intro claim found late
    simp only [step, found, erase_late session ticket late] at exact
    exact report_outside session sound _ outcome now exact
  | reported message outcome now => exact report_outside session sound message outcome now exact
  | _ => trivial

theorem balanced_of_steady (sound : Sound session) (steady : session.Steady event) : session.Balanced event:= by
  refine ⟨(sound_step session event sound steady).exact, fun unclaimed => ?_⟩
  cases event with
  | release ticket =>
    simp only [step]
    cases found : session.claims[ticket]? with
    | none => rfl
    | some claim => exact release_outside _ claim (steady claim found unclaimed)
  | finished ticket outcome now =>
    simp only [step]
    cases found : session.claims[ticket]? with
    | none => rfl
    | some claim => exact finishedAt_outside _ _ (steady claim found unclaimed) outcome now
  | reported message outcome now => exact finishedAt_outside _ _ steady outcome now
  | _ => exact unclaimed.elim

theorem sound_new (policy : BackfillPolicy) : Sound (new policy) := by
  refine ⟨⟨Counted.none _ ?_, ?_, rfl, by simp [new], fun message => ?_⟩, List.nodup_nil, by simp [new]⟩
  · rintro message ⟨lane, there, -⟩
    cases there
  · intro message lane there
    cases there
  · simp [new, Backfill.new, Flies]

theorem books_exact_iff (policy : BackfillPolicy) (events : List Event) :
    Run.Along step Balanced (new policy) events <-> Run.Along step Steady (new policy) events :=
  Run.along_iff step Sound Balanced Steady
    (fun session event sound steady => sound_step session event sound steady)
    (fun session event sound => ⟨steady_of_balanced session event sound, balanced_of_steady session event sound⟩)
    (new policy) events (sound_new policy)

end Session

/-! ### What a take finds -/

namespace Session

def hungry : BackfillPolicy :=
  { background := true, maxBodyBytes := none, pauseOnMetered := false, pauseWhenActive := false, maxBacklog := 10 }

def wanted : BodyRequest :=
  { message := ⟨1⟩, uid := 1, size := 10, textSize := 5, rank := 1, receivedAt := 0, want := .text }

def restarted : List Event := [.enqueue wanted 0, .nextBody, .cancel, .restart, .enqueue wanted 0]

/-- A report that arrives after a restart takes the message it names out of the backlog, and leaves it counted. -/
theorem late_report_uncounted :
    ¬ ∀ (policy : BackfillPolicy) (events : List Event), Run.Along step Balanced (new policy) events := by
  intro books
  have sound : Sound (Run.run step (new hungry) restarted) :=
    Run.run_invariant step Sound Steady (fun session event sound steady => sound_step session event sound steady)
      (new hungry) restarted (sound_new hungry) ⟨trivial, trivial, trivial, trivial, trivial, trivial⟩
  have along := books hungry (restarted ++ [.finished 0 (.stored 5) 0])
  have last := ((Run.along_append step Balanced (new hungry) restarted _).mp along).2.1
  have steady := steady_of_balanced _ _ sound last
  have claimed : (Run.run step (new hungry) restarted).claims[0]? =
      some { request := wanted, priority := .background, cancel := 0 } := by decide
  have late : 0 ∉ (Run.run step (new hungry) restarted).live := by decide
  have outside := steady _ claimed late
  have waiting : (Run.run step (new hungry) restarted).backfill.lanes wanted.message = some .background := by decide
  rw [waiting] at outside
  cases outside

end Session

end Postio.Bodies

import Postio.Contacts.FoldAgrees

set_option autoImplicit false

namespace Postio.Sightings

open ContactSync Run

variable (setting : Setting)

/-! The evidence of every address along a run: an owned one's agrees, and one that nobody owns has none. -/

structure Sound (state : State) : Prop where
  numbered : state.stored.Pairwise (fun first second => first.id < second.id)
  positive : ∀ message ∈ state.stored, 0 < message.id
  rows : ∀ message ∈ state.stored, ∀ header ∈ message.headers, normalized setting header ∈ state.addresses
  agrees : FoldAgrees setting state
  fresh : ∀ address, state.owned address = false ->
    state.evidence address = .empty ∧ ∀ message ∈ state.recorded, seenOn setting address message = none

variable (own : List Text) (addresses : List AddressKey) (account : Nat) (address : AddressKey) (state : State)
    (message : Stored) (seen : Seen)

theorem recordedOnce_last (messages : List Stored) (message : Stored) :
    recordedOnce setting address (messages ++ [message]) =
      (seenOn setting address message).elim (recordedOnce setting address messages)
        (fun seen => note setting (recordingOf message) seen (recordedOnce setting address messages)) := by
  simp [recordedOnce]

theorem recordedOnce_unseen (messages more : List Stored)
    (unseen : ∀ message ∈ more, seenOn setting address message = none) :
    recordedOnce setting address (messages ++ more) = recordedOnce setting address messages := by
  induction more using List.reverseRecOn with
  | nil => rw [List.append_nil]
  | append_singleton more message ih =>
    rw [← List.append_assoc, recordedOnce_last, unseen message (by simp)]
    exact ih (fun other member => unseen other (List.mem_append_left _ member))

namespace Sound

variable {setting} {state : State}

theorem history_numbered (sound : Sound setting state) :
    (history setting state).Pairwise (fun first second => first.id < second.id) := sound.numbered.filter _

theorem history_positive (sound : Sound setting state) : ∀ message ∈ history setting state, 0 < message.id :=
  fun message member => sound.positive message (List.mem_of_mem_filter member)

theorem history_none (sound : Sound setting state) (never : setting.historyThrough = 0) : history setting state = [] := by
  refine List.filter_eq_nil_iff.mpr (fun message member => ?_)
  have positive := sound.positive message member
  simp only [decide_eq_true_eq]
  omega

theorem history_unseen (sound : Sound setting state) (address : AddressKey) (absent : address ∉ state.addresses) :
    recordedOnce setting address (history setting state) = .empty := by
  have unseen : ∀ message ∈ history setting state, seenOn setting address message = none := by
    intro message member
    cases found : seenOn setting address message with
    | none => rfl
    | some seen =>
      obtain ⟨header, inside, same⟩ := List.any_eq_true.mp (seenOn_mentions setting address message seen found)
      have row := sound.rows message (List.mem_of_mem_filter member) header inside
      rw [of_decide_eq_true same] at row
      exact absurd row absent
  have none := recordedOnce_unseen setting address [] (history setting state) unseen
  simpa [recordedOnce] using none

theorem unowned_once (sound : Sound setting state) (address : AddressKey) (unowned : state.owned address = false) :
    recordedOnce setting address (history setting state ++ state.recorded) =
      recordedOnce setting address (history setting state) :=
  recordedOnce_unseen setting address _ _ (sound.fresh address unowned).2

end Sound

theorem addressRow_mem (other : AddressKey) :
    other ∈ addressRow addresses address <-> other ∈ addresses ∨ other = address := by
  unfold addressRow
  split
  next there =>
    refine ⟨.inl, fun either => either.elim id (fun same => ?_)⟩
    rwa [same]
  next => simp

theorem addressRows_mem (new : List AddressKey) (other : AddressKey) :
    other ∈ new.foldl addressRow addresses <-> other ∈ addresses ∨ other ∈ new := by
  induction new generalizing addresses with
  | nil => simp
  | cons address rest ih =>
    rw [List.foldl_cons, ih, addressRow_mem, List.mem_cons, or_assoc]

theorem began_sound (began : Began setting state) : Sound setting state where
  numbered := began.numbered
  positive := began.positive
  rows := began.rows
  agrees address owned := by
    rw [began.unowned address] at owned
    cases owned
  fresh address _ := ⟨began.bare address, by simp [began.unrecorded]⟩

theorem sound_rows (addresses : List AddressKey) (sound : Sound setting state)
    (more : ∀ address ∈ state.addresses, address ∈ addresses) : Sound setting { state with addresses } where
  numbered := sound.numbered
  positive := sound.positive
  rows message member header inside := more _ (sound.rows message member header inside)
  agrees := sound.agrees
  fresh := sound.fresh

/-! ### Storing and adopting -/

theorem sound_store (sound : Sound setting state)
    (promised : Promised setting state (.store message)) : Sound setting (step setting state (.store message)) := by
  obtain ⟨since, newest⟩ := promised
  have same : history setting (step setting state (.store message)) = history setting state := by
    simp only [history, step, List.filter_append]
    have later : ¬ message.id ≤ setting.historyThrough := Nat.not_le.mpr since
    simp [later]
  constructor
  case numbered =>
    refine List.pairwise_append.mpr ⟨sound.numbered, List.pairwise_singleton _ _, ?_⟩
    intro other member last among
    cases List.mem_singleton.mp among
    exact newest other member
  case positive =>
    intro other member
    rcases List.mem_append.mp member with before | last
    next => exact sound.positive other before
    next =>
      cases List.mem_singleton.mp last
      exact Nat.lt_of_le_of_lt (Nat.zero_le _) since
  case rows =>
    intro other member header inside
    refine (addressRows_mem _ _ _).mpr ?_
    rcases List.mem_append.mp member with before | last
    next => exact .inl (sound.rows other before header inside)
    next =>
      cases List.mem_singleton.mp last
      exact .inr (List.mem_map_of_mem inside)
  case agrees =>
    intro address owned
    rw [same]
    exact sound.agrees address owned
  case fresh => exact sound.fresh

theorem adopt_stored :
    (adopt setting address state).stored = state.stored ∧ (adopt setting address state).recorded = state.recorded ∧
      (adopt setting address state).addresses = state.addresses := by
  unfold adopt
  split <;> exact ⟨rfl, rfl, rfl⟩

theorem adopt_history :
    history setting (adopt setting address state) = history setting state := by
  rw [history, (adopt_stored setting address state).1, history]

theorem sound_adopt (sound : Sound setting state)
    (folds : state.owned address = false -> everyOwn setting address = false -> setting.historyThrough ≠ 0 ->
      Folds setting (everyOwn setting) address (history setting state)) : Sound setting (adopt setting address state) := by
  have history := adopt_history setting address state
  obtain ⟨stored, recorded, addresses⟩ := adopt_stored setting address state
  have kept : ∀ other, other ≠ address -> (adopt setting address state).owned other = state.owned other ∧
      (adopt setting address state).evidence other = state.evidence other := by
    intro other apart
    unfold adopt
    split
    next => exact ⟨rfl, rfl⟩
    next => simp [apart]
  by_cases idle : (state.owned address || everyOwn setting address) = true
  case pos =>
    have same : adopt setting address state = state := by simp [adopt, idle]
    rwa [same]
  case neg =>
    simp only [Bool.or_eq_true, not_or, Bool.not_eq_true] at idle
    obtain ⟨unowned, foreign⟩ := idle
    have made : (adopt setting address state).owned address = true ∧ (adopt setting address state).evidence address =
        recordedOnce setting address (Sightings.history setting state ++ state.recorded) := by
      rw [sound.unowned_once address unowned]
      simp only [adopt, unowned, foreign, Bool.or_self, Bool.false_eq_true, if_false, if_true, true_and, (sound.fresh address unowned).1]
      split
      next since =>
        exact foldSightings_set setting _ address _ (folds unowned foreign since) sound.history_numbered sound.history_positive
      next never =>
        rw [sound.history_none (by simpa using never)]
        rfl
    constructor
    case numbered => rw [stored]; exact sound.numbered
    case positive => rw [stored]; exact sound.positive
    case rows => rw [stored, addresses]; exact sound.rows
    case agrees =>
      intro other owned
      rw [history, recorded]
      by_cases same : other = address
      case pos =>
        subst same
        exact made.2
      case neg =>
        rw [(kept other same).1] at owned
        rw [(kept other same).2]
        exact sound.agrees other owned
    case fresh =>
      intro other free
      rw [recorded]
      have apart : other ≠ address := by
        rintro rfl
        rw [made.1] at free
        cases free
      rw [(kept other apart).1] at free
      rw [(kept other apart).2]
      exact sound.fresh other free

theorem sound_adopts (sound : Sound setting state) (folds : setting.historyThrough ≠ 0 -> ∀ address ∈ addresses,
      Folds setting (everyOwn setting) address (history setting state)) :
    Sound setting (addresses.foldl (fun state address => adopt setting address state) state) := by
  induction addresses generalizing state with
  | nil => exact sound
  | cons address rest ih =>
    refine ih _ (sound_adopt setting address state sound (fun _ _ since => folds since address (List.mem_cons_self ..))) ?_
    intro since other member
    rw [adopt_history]
    exact folds since other (List.mem_cons_of_mem _ member)

/-! ### Recording -/

/-- What recording a correspondent leaves of their address's evidence. -/
def recordedEvidence (state : State) : Evidence :=
  let counted := note setting (recordingOf message) seen (state.evidence (normalized setting seen.address))
  if !state.owned (normalized setting seen.address) && decide (normalized setting seen.address ∈ state.addresses) &&
      decide (setting.historyThrough ≠ 0) then
    foldSightings setting (history setting state) (givenOwn setting own) (normalized setting seen.address) true counted
  else counted

theorem recordIn_evidence (state : State) (address : AddressKey) :
    (recordIn setting own message seen state).evidence address =
      if address = normalized setting seen.address then recordedEvidence setting own message seen state
      else state.evidence address := rfl

/-- What the recording of a message's correspondents does, address by address. -/
structure Records (own : List Text) (message : Stored) (seens : List Seen) (state after : State) : Prop where
  stored : after.stored = state.stored
  recorded : after.recorded = state.recorded
  rows : ∀ address ∈ state.addresses, address ∈ after.addresses
  kept : ∀ address, (∀ seen ∈ seens, normalized setting seen.address ≠ address) ->
    after.owned address = state.owned address ∧ after.evidence address = state.evidence address
  counted : ∀ seen ∈ seens, after.owned (normalized setting seen.address) = true ∧
    after.evidence (normalized setting seen.address) = recordedEvidence setting own message seen state

theorem recordIn_records (seens : List Seen) (state : State)
    (distinct : (seens.map (fun seen => normalized setting seen.address)).Nodup) :
    Records setting own message seens state
      (seens.foldl (fun state seen => recordIn setting own message seen state) state) := by
  induction seens generalizing state with
  | nil => exact ⟨rfl, rfl, fun _ there => there, fun _ _ => ⟨rfl, rfl⟩, by simp⟩
  | cons first rest ih =>
    rw [List.map_cons, List.nodup_cons] at distinct
    have later := ih (recordIn setting own message first state) distinct.2
    have apart : ∀ seen ∈ rest, normalized setting seen.address ≠ normalized setting first.address :=
      fun seen member same => distinct.1 (same ▸ List.mem_map_of_mem member)
    constructor
    case stored => exact later.stored
    case recorded => exact later.recorded
    case rows =>
      exact fun address there => later.rows address ((addressRow_mem state.addresses _ address).mpr (.inl there))
    case kept =>
      intro address others
      have other := others first (List.mem_cons_self ..)
      obtain ⟨owned, evidence⟩ := later.kept address (fun seen member => others seen (List.mem_cons_of_mem _ member))
      rw [List.foldl_cons, owned, evidence, recordIn_evidence, if_neg other.symm]
      exact ⟨if_neg other.symm, rfl⟩
    case counted =>
      intro seen member
      rw [List.foldl_cons]
      rcases List.mem_cons.mp member with rfl | among
      next =>
        obtain ⟨owned, evidence⟩ := later.kept (normalized setting seen.address) apart
        rw [owned, evidence, recordIn_evidence, if_pos rfl]
        exact ⟨if_pos rfl, rfl⟩
      next =>
        have other := apart seen among
        obtain ⟨owned, evidence⟩ := later.counted seen among
        refine ⟨owned, evidence.trans ?_⟩
        -- Recording one correspondent says nothing of another's address.
        have row : normalized setting seen.address ∈ (recordIn setting own message first state).addresses <->
            normalized setting seen.address ∈ state.addresses := by
          refine (addressRow_mem state.addresses (normalized setting first.address) _).trans ⟨fun either => ?_, .inl⟩
          exact either.elim id (fun same => absurd same other)
        have mine : (recordIn setting own message first state).owned (normalized setting seen.address) =
            state.owned (normalized setting seen.address) := if_neg other
        simp only [recordedEvidence, recordIn_evidence, if_neg other, row, mine]
        rfl

theorem recordedEvidence_once (sound : Sound setting state)
    (promised : Promised setting state (.record message)) (agreeing : Agreeing setting state (.record message))
    (member : seen ∈ correspondents setting (ownOf setting message.account) message) :
    recordedEvidence setting (ownOf setting message.account) message seen state =
      note setting (recordingOf message) seen
        (recordedOnce setting (normalized setting seen.address) (history setting state ++ state.recorded)) := by
  obtain ⟨inside, since, -⟩ := promised
  unfold recordedEvidence
  cases owned : state.owned (normalized setting seen.address) with
  | true => simp [sound.agrees _ owned]
  | false =>
    rw [sound.unowned_once _ owned, (sound.fresh _ owned).1]
    by_cases known : normalized setting seen.address ∈ state.addresses ∧ setting.historyThrough ≠ 0
    case pos =>
      obtain ⟨folds, joins⟩ := agreeing seen member owned known.1 known.2
      have later : ∀ other ∈ history setting state, other.id < message.id := by
        intro other among
        have within : other.id ≤ setting.historyThrough := by simpa using (List.mem_filter.mp among).2
        omega
      simp only [known.1, known.2, Bool.not_false, decide_true, ne_eq, not_false_eq_true, Bool.and_self, if_true]
      exact foldSightings_add setting _ _ _ message seen folds joins sound.history_numbered sound.history_positive later
        (sound.positive message inside)
    case neg =>
      have none : recordedOnce setting (normalized setting seen.address) (history setting state) = .empty := by
        by_cases row : normalized setting seen.address ∈ state.addresses
        case pos =>
          rw [sound.history_none (by simpa [row] using known)]
          rfl
        case neg => exact sound.history_unseen _ row
      rw [none, if_neg (by simpa using known)]

theorem sound_record (sound : Sound setting state)
    (promised : Promised setting state (.record message)) (agreeing : Agreeing setting state (.record message)) :
    Sound setting (step setting state (.record message)) := by
  have records := recordIn_records setting (ownOf setting message.account) message _ state
    (correspondents_once setting (ownOf setting message.account) message).1
  have stored : (step setting state (.record message)).stored = state.stored := records.stored
  have recorded : (step setting state (.record message)).recorded = state.recorded ++ [message] :=
    congrArg (fun before => before ++ [message]) records.recorded
  have same : history setting (step setting state (.record message)) = history setting state := by
    rw [history, stored, history]
  constructor
  case numbered => rw [stored]; exact sound.numbered
  case positive => rw [stored]; exact sound.positive
  case rows =>
    rw [stored]
    exact fun other inside header among => records.rows _ (sound.rows other inside header among)
  case agrees =>
    intro address owned
    rw [same, recorded, ← List.append_assoc, recordedOnce_last]
    by_cases met : ∃ seen ∈ correspondents setting (ownOf setting message.account) message, normalized setting seen.address = address
    case pos =>
      obtain ⟨seen, member, rfl⟩ := met
      rw [seenOn_correspondent setting message seen member]
      exact (records.counted seen member).2.trans (recordedEvidence_once setting state message seen sound promised agreeing member)
    case neg =>
      push Not at met
      obtain ⟨owner, evidence⟩ := records.kept address met
      rw [seenOn_none setting address message met]
      exact evidence.trans (sound.agrees address (owner.symm.trans owned))
  case fresh =>
    intro address free
    by_cases met : ∃ seen ∈ correspondents setting (ownOf setting message.account) message, normalized setting seen.address = address
    case pos =>
      obtain ⟨seen, member, rfl⟩ := met
      exact absurd ((records.counted seen member).1.symm.trans free) (by simp)
    case neg =>
      push Not at met
      obtain ⟨owner, evidence⟩ := records.kept address met
      obtain ⟨bare, unseen⟩ := sound.fresh address (owner.symm.trans free)
      refine ⟨evidence.trans bare, ?_⟩
      intro other inside
      rw [recorded] at inside
      rcases List.mem_append.mp inside with before | last
      next => exact unseen other before
      next =>
        cases List.mem_singleton.mp last
        exact seenOn_none setting address message met

theorem sound_step (event : Event) (sound : Sound setting state)
    (allowed : Promised setting state event ∧ Agreeing setting state event) : Sound setting (step setting state event) := by
  obtain ⟨promised, agreeing⟩ := allowed
  cases event with
  | store message => exact sound_store setting state message sound promised
  | record message => exact sound_record setting state message sound promised agreeing
  | adopt address =>
    refine sound_adopt setting _ _ (sound_rows setting state _ sound (fun other there => ?_)) agreeing
    exact (addressRow_mem state.addresses _ other).mpr (.inl there)
  | catchUp before limit => exact sound_adopts setting _ state sound agreeing

/-- However the history is folded in and the mail is recorded, each owned address's evidence is what recording every message
once would give, as long as whatever is folded counts as recording it would. -/
theorem fold_agrees (events : List Event) (began : Began setting state)
    (promised : Along (step setting) (Promised setting) state events)
    (agreeing : Along (step setting) (Agreeing setting) state events) :
    FoldAgrees setting (run (step setting) state events) := by
  have allowed := (along_and (step setting) (Promised setting) (Agreeing setting) state events).mpr ⟨promised, agreeing⟩
  exact (run_invariant (step setting) (Sound setting) _ (fun state event sound both => sound_step setting state event sound both)
    state events (began_sound setting state began) allowed).agrees

/-! ### A letter to somebody, from before contacts began, and their answer -/

def plain (letter : Char) : EmailAddress := { name := none, address := [letter] }

def mail (id account : Nat) (sender recipient : Char) : Stored :=
  { id
    account := ⟨account⟩
    date := id * 1000
    seen := false
    source := [plain sender]
    sender := none
    replyTo := []
    addressed := [plain recipient]
    cc := []
    bcc := [] }

def twoAddresses : Setting where
  spelling := asciiSpelling
  accounts := [{ id := ⟨1⟩, address := ['a'], identities := [] }, { id := ⟨2⟩, address := ['b'], identities := [] }]
  historyThrough := 1

/-- The letter was sent from an account, and the answer came to the first. -/
def answeredFrom (own : Char) : State where
  stored := [mail 1 account own 'x', mail 2 1 'x' 'a']
  recorded := []
  addresses := ([plain own, plain 'x', plain 'a'].map (normalized twoAddresses)).foldl addressRow []
  owned := fun _ => false
  evidence := fun _ => .empty

theorem answered_began (own : Char) : Began twoAddresses (answeredFrom account own) where
  numbered := by simp [answeredFrom, mail]
  positive := by simp [answeredFrom, mail]
  rows := by
    intro message member header inside
    refine (addressRows_mem _ _ _).mpr (.inr (List.mem_map_of_mem ?_))
    simp only [answeredFrom, List.mem_cons, List.not_mem_nil, or_false] at member
    rcases member with rfl | rfl
    all_goals
      simp only [mail, Stored.headers, Stored.allRecipients, Option.toList_none, List.append_nil, List.singleton_append,
        List.mem_cons, List.not_mem_nil, or_false] at inside
      rcases inside with rfl | rfl <;> simp
  unowned _ := rfl
  bare _ := rfl
  unrecorded := rfl

theorem answered_promised (own : Char) :
    Promised twoAddresses (answeredFrom account own) (.record (mail 2 1 'x' 'a')) :=
  ⟨by simp [answeredFrom], by decide, by simp [answeredFrom]⟩

theorem answered_within : FoldAgrees twoAddresses
    (run (step twoAddresses) (answeredFrom 1 'a') [.record (mail 2 1 'x' 'a')]) := by
  refine fold_agrees twoAddresses _ _ (answered_began 1 'a') ⟨answered_promised 1 'a', trivial⟩ ⟨?_, trivial⟩
  have found : correspondents twoAddresses (ownOf twoAddresses ⟨1⟩) (mail 2 1 'x' 'a') =
      [{ address := plain 'x', written := false, sender := true }] := by decide
  intro seen member _ _ _
  rw [show (mail 2 1 'x' 'a').account = ⟨1⟩ from rfl, found] at member
  cases List.mem_singleton.mp member
  have history : history twoAddresses (answeredFrom 1 'a') = [mail 1 1 'a' 'x'] := by decide
  rw [history]
  constructor
  next =>
    constructor
    case counted =>
      intro message inside _
      cases List.mem_singleton.mp inside
      exact ⟨{ address := plain 'x', written := true, sender := false }, by decide, by decide, by decide⟩
    case dated =>
      intro message inside _
      cases List.mem_singleton.mp inside
      decide
    case named =>
      intro account
      by_cases first : account = ⟨1⟩
      case pos =>
        subst first
        decide
      case neg =>
        have none : mailOf twoAddresses ['x'] account [mail 1 1 'a' 'x'] = [] := by
          have other : ¬ (mail 1 1 'a' 'x').account = account := fun same => first same.symm
          simp [mailOf, other]
        exact (congrArg (fun mails => newestName twoAddresses ['x'] mails = (recordedName twoAddresses ['x'] mails).bind Prod.snd)
          none).mpr rfl
  next =>
    intro last name known
    have left : recordedName twoAddresses ['x'] (mailOf twoAddresses ['x'] ⟨1⟩ [mail 1 1 'a' 'x']) = some (1000, none) := by decide
    cases left.symm.trans known
    exact .inl (by decide)

theorem answered_across : Began twoAddresses (answeredFrom 2 'b') ∧
    Along (step twoAddresses) (Promised twoAddresses) (answeredFrom 2 'b') [.record (mail 2 1 'x' 'a')] ∧
      ¬ FoldAgrees twoAddresses (run (step twoAddresses) (answeredFrom 2 'b') [.record (mail 2 1 'x' 'a')]) := by
  refine ⟨answered_began 2 'b', ⟨answered_promised 2 'b', trivial⟩, fun agrees => ?_⟩
  have same := agrees ['x'] (by decide)
  have written := congrArg (fun evidence => (evidence.sightings ⟨2⟩).map Sighting.timesWritten) same
  exact absurd written (by decide)

end Postio.Sightings

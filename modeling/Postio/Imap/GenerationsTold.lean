import Postio.Imap.Selection

set_option autoImplicit false

namespace Postio

namespace ConnectionPool

variable {Name : Type}

def reported (pool : ConnectionPool Name) (event : SelectionEvent Name) : Option (Name × MailboxPath × UidValidity) :=
  -- What an event has a session report to its caller.
  (pool.turn event).bind (fun taken =>
    match taken.2.2.outcome with
    | some (.ok observed) => some (taken.1, taken.2.1, observed)
    | _ => none)

def Told (pool : ConnectionPool Name) (event : SelectionEvent Name) : Prop :=
  ∀ report ∈ pool.reported event, ∀ earlier ∈ pool.learned report.1 report.2.1, report.2.2 = earlier

def Missed (pool : ConnectionPool Name) (name : Name) (call : SelectCall) (reply : Option (SelectData × Nat)) : Prop :=
  -- An answer that agrees with the log reaches a session that left the mailbox before the log changed.
  (pool.sessions name).promised call.path = none ∧
    (∃ earlier ∈ pool.learned name call.path, pool.generations.known call.path ≠ some earlier) ∧
    ∃ answer ∈ reply, answer.1.uidValidity.isSome ∧ answer.1.uidValidity = pool.generations.known call.path

def Remembered (pool : ConnectionPool Name) : SelectionEvent Name -> Prop
  | .answer name reply => ∀ call ∈ (pool.sessions name).calling, ¬ pool.Missed name call reply
  | .ensureSelected .. | .select .. | .abandon .. | .pass .. => True

/-- What ties the sessions to what their callers learned. -/
structure Held (pool : ConnectionPool Name) : Prop where
  logged : ∀ name path, (pool.learned name path).isSome -> (pool.generations path).isSome
  selected : ∀ name, ∀ selected ∈ (pool.sessions name).selected, ∀ earlier ∈ pool.learned name selected.path,
    selected.uidValidity = earlier
  promised : ∀ name, ∀ call ∈ (pool.sessions name).calling, ∀ promised, call.stage = .rechecking promised ->
    promised = (pool.sessions name).promised call.path

theorem held_opened (maxAge : Nat) (now : Instant) (condstore : Name -> Bool) :
    (opened maxAge now condstore).Held where
  logged := fun _ _ known => absurd known (by simp [opened])
  selected := fun _ _ there => absurd there (by simp [opened, ImapSession.opened])
  promised := fun _ _ there => absurd there (by simp [opened, ImapSession.opened])

theorem promised_eq (session : ImapSession) (path : MailboxPath) (promised : UidValidity) :
    session.promised path = some promised <->
      ∃ selected, session.selected = some selected ∧ selected.path = path ∧ selected.uidValidity = promised := by
  unfold ImapSession.promised
  cases session.selected with
  | none => simp
  | some selected => by_cases same : selected.path = path <;> simp [Option.filter_some, same]

theorem Held.of_promised {pool : ConnectionPool Name} (held : pool.Held) (name : Name) (path : MailboxPath)
    (promised earlier : UidValidity) (made : (pool.sessions name).promised path = some promised)
    (known : pool.learned name path = some earlier) : promised = earlier := by
  obtain ⟨selected, there, same, rfl⟩ := (promised_eq _ _ _).mp made
  subst same
  exact held.selected name selected there earlier known

/-- What one turn of a session may do, for the pool to stay tied to its sessions. -/
structure Proper (pool : ConnectionPool Name) (name : Name) (path : MailboxPath) (turn : SelectTurn) : Prop where
  logged : ∀ other, (pool.generations other).isSome -> (turn.generations other).isSome
  adopted : (heard (pool.learned name path) turn.outcome).isSome -> (turn.generations path).isSome
  selected : turn.session.selected = (pool.sessions name).selected ∧
      (∀ selected ∈ turn.session.selected, selected.path = path ->
        ∀ earlier ∈ heard (pool.learned name path) turn.outcome, selected.uidValidity = earlier) ∨
    ∃ selected, turn.session.selected = some selected ∧ selected.path = path ∧
      ∀ earlier ∈ heard (pool.learned name path) turn.outcome, selected.uidValidity = earlier
  promised : ∀ call ∈ turn.session.calling, ∀ promised, call.stage = .rechecking promised ->
    promised = turn.session.promised call.path

theorem proper_failed (pool : ConnectionPool Name) (name : Name) (path : MailboxPath) (error : SelectError)
    (held : pool.Held) (silent : ∀ mailbox known observed, error ≠ .uidValidityChanged mailbox known observed) :
    pool.Proper name path ((pool.sessions name).failed pool.generations error) := by
  have same : heard (pool.learned name path) (some (.error error)) = pool.learned name path := by
    cases error with
    | uidValidityChanged mailbox known observed => exact absurd rfl (silent mailbox known observed)
    | _ => rfl
  refine ⟨fun _ known => known, ?_, .inl ⟨rfl, ?_⟩, ?_⟩
  · exact fun known => held.logged name path (same ▸ known)
  · intro selected there here earlier known
    subst here
    exact held.selected name selected there earlier (same ▸ known)
  · intro call there
    cases there

theorem proper_ask (pool : ConnectionPool Name) (name : Name) (path : MailboxPath) (call : SelectCall) (held : pool.Held)
    (made : ∀ promised, call.stage = .rechecking promised -> promised = (pool.sessions name).promised call.path) :
    pool.Proper name path ((pool.sessions name).ask pool.generations call) := by
  refine ⟨fun _ known => known, fun known => held.logged name path known, .inl ⟨rfl, ?_⟩, ?_⟩
  · intro selected there here earlier known
    subst here
    exact held.selected name selected there earlier known
  · intro other there promised stage
    cases Option.mem_some_iff.mp there
    exact made promised stage

theorem proper_conclude (pool : ConnectionPool Name) (name : Name) (call : SelectCall) (promised : Option UidValidity)
    (data : SelectData) (observed : UidValidity) :
    pool.Proper name call.path
      ((pool.sessions name).conclude pool.generations pool.now call promised data observed) := by
  refine ⟨?_, ?_, .inr ⟨_, rfl, rfl, ?_⟩, ?_⟩
  · intro other known
    simp only [ImapSession.conclude, Generations.observe]
    by_cases same : other = call.path
    · rw [same, Function.update_self]
      rfl
    · rw [Function.update_of_ne same]
      exact known
  · intro _
    simp only [ImapSession.conclude, Generations.observe, Function.update_self]
    rfl
  · intro earlier known
    simp only [ImapSession.conclude, Generations.observe] at known ⊢
    cases weighed : pool.generations.verdict call.path promised observed with
    | unchanged =>
      rw [weighed] at known
      exact Option.some.inj known
    | changed before =>
      rw [weighed] at known
      cases known
  · intro other there
    cases there

theorem proper_weigh (pool : ConnectionPool Name) (name : Name) (call : SelectCall) (data : SelectData)
    (observed : UidValidity) (held : pool.Held) :
    pool.Proper name call.path ((pool.sessions name).weigh pool.generations pool.now call data observed) := by
  unfold ImapSession.weigh
  simp only
  split
  · apply proper_ask pool name call.path _ held
    intro promised stage
    exact (SelectStage.rechecking.inj stage).symm
  · exact proper_conclude pool name call _ data observed

theorem proper_answered (pool : ConnectionPool Name) (name : Name) (call : SelectCall)
    (reply : Option (SelectData × Nat)) (held : pool.Held) :
    pool.Proper name call.path ((pool.sessions name).answered pool.generations pool.now call reply) := by
  unfold ImapSession.answered
  split
  · exact proper_failed pool name call.path _ held (by intros; simp)
  · split
    · exact proper_weigh pool name call _ _ held
    · exact proper_weigh pool name call _ _ held
    · exact proper_ask pool name call.path _ held (by intros; contradiction)
    · split
      · exact proper_failed pool name call.path _ held (by intros; simp)
      · exact proper_failed pool name call.path _ held (by intros; simp)
    · exact proper_conclude pool name call _ _ _
    · exact proper_failed pool name call.path _ held (by intros; simp)

theorem proper_selectNow (pool : ConnectionPool Name) (name : Name) (path : MailboxPath) (mode : SelectMode)
    (wantCondstore : Bool) (held : pool.Held) :
    pool.Proper name path ((pool.sessions name).selectNow pool.generations path mode wantCondstore) := by
  unfold ImapSession.selectNow
  split
  · exact proper_failed pool name path _ held (by intros; simp)
  · exact proper_ask pool name path _ held (by intros; contradiction)

theorem covers_path (generations : Generations) (maxAge : Nat) (now : Instant) (path : MailboxPath)
    (wantCondstore : Bool) (selected : SelectedMailbox)
    (covers : ImapSession.covers generations maxAge now path wantCondstore selected = true) :
    selected.path = path ∧ some selected.epoch = generations.epoch path := by
  simp only [ImapSession.covers, Bool.and_eq_true, decide_eq_true_eq] at covers
  exact ⟨covers.1.1.1.1, covers.1.2⟩

theorem proper_ensureSelected (pool : ConnectionPool Name) (name : Name) (path : MailboxPath) (wantCondstore : Bool)
    (held : pool.Held) (free : (pool.sessions name).calling = none) :
    pool.Proper name path ((pool.sessions name).ensureSelected pool.generations pool.selectionMaxAge pool.now path
      wantCondstore) := by
  unfold ImapSession.ensureSelected
  split
  next selected found =>
    obtain ⟨there, covering⟩ := Option.filter_eq_some_iff.mp found
    obtain ⟨here, logged⟩ := covers_path _ _ _ _ _ _ covering
    refine ⟨fun _ known => known, ?_, .inl ⟨rfl, ?_⟩, ?_⟩
    · intro _
      unfold Generations.epoch at logged
      cases log : pool.generations path with
      | none =>
        rw [log] at logged
        cases logged
      | some generation =>
        simp only [log]
        rfl
    · intro other member _ earlier known
      have same : other = selected := Option.some.inj (member.symm.trans there)
      subst same
      exact Option.some.inj known
    · intro call member
      rw [free] at member
      cases member
  next => exact proper_selectNow pool name path _ _ held

theorem turn_proper (pool : ConnectionPool Name) (event : SelectionEvent Name) (held : pool.Held) (name : Name)
    (path : MailboxPath) (turn : SelectTurn) (taken : pool.turn event = some (name, path, turn)) :
    pool.Proper name path turn := by
  cases event with
  | ensureSelected session mailbox wantCondstore =>
    simp only [ConnectionPool.turn] at taken
    split at taken
    next free =>
      cases taken
      exact proper_ensureSelected pool name path wantCondstore held free
    next => cases taken
  | select session mailbox mode =>
    simp only [ConnectionPool.turn] at taken
    split at taken
    next =>
      cases taken
      exact proper_selectNow pool name path mode _ held
    next => cases taken
  | answer session reply =>
    simp only [ConnectionPool.turn] at taken
    split at taken
    next call _ =>
      cases taken
      exact proper_answered pool name call reply held
    next => cases taken
  | abandon session =>
    simp only [ConnectionPool.turn] at taken
    split at taken
    next =>
      cases taken
      exact proper_failed pool name _ _ held (by intros; simp)
    next => cases taken
  | pass time => cases taken

/-! ### What an answer has a session report -/

theorem verdict_unchanged (seen : Generations) (path : MailboxPath) (promised : Option UidValidity)
    (observed : UidValidity) :
    seen.verdict path promised observed = .unchanged <-> ∀ known ∈ promised.or (seen.known path), known = observed := by
  unfold Generations.verdict
  cases promised.or (seen.known path) with
  | none => simp
  | some known => by_cases same : known = observed <;> simp [same]

theorem conclude_ok (session : ImapSession) (generations : Generations) (now : Instant) (call : SelectCall)
    (promised : Option UidValidity) (data : SelectData) (observed reported : UidValidity) :
    (session.conclude generations now call promised data observed).outcome = some (.ok reported) <->
      observed = reported ∧ ∀ known ∈ promised.or (generations.known call.path), known = reported := by
  have weighed := verdict_unchanged generations call.path promised observed
  simp only [ImapSession.conclude, Generations.observe, Option.some.injEq]
  cases judged : generations.verdict call.path promised observed with
  | unchanged =>
    have agreed := weighed.mp judged
    simp only [Except.ok.injEq]
    constructor
    · rintro rfl
      exact ⟨rfl, agreed⟩
    · exact fun both => both.1
  | changed before =>
    rw [judged] at weighed
    simp only [reduceCtorEq, false_iff]
    rintro ⟨rfl, agreed⟩
    cases weighed.mpr agreed

theorem weigh_ok (session : ImapSession) (generations : Generations) (now : Instant) (call : SelectCall)
    (data : SelectData) (observed reported : UidValidity) :
    (session.weigh generations now call data observed).outcome = some (.ok reported) <->
      observed = reported ∧
        ∀ known ∈ (session.promised call.path).or (generations.known call.path), known = reported := by
  unfold ImapSession.weigh
  simp only
  split
  next disputed =>
    simp only [ImapSession.ask, reduceCtorEq, false_iff]
    rintro ⟨rfl, agreed⟩
    obtain ⟨known, there, differs⟩ := (Option.any_eq_true _ _).mp disputed
    exact (of_decide_eq_true differs) (agreed known there)
  next => exact conclude_ok session generations now call _ data observed reported

theorem answered_ok (pool : ConnectionPool Name) (held : pool.Held) (name : Name) (call : SelectCall)
    (calling : (pool.sessions name).calling = some call) (reply : Option (SelectData × Nat)) (reported : UidValidity) :
    ((pool.sessions name).answered pool.generations pool.now call reply).outcome = some (.ok reported) <->
      (∃ answer ∈ reply, answer.1.uidValidity = some reported) ∧
        ∀ known ∈ ((pool.sessions name).promised call.path).or (pool.generations.known call.path), known = reported := by
  -- A session reports a generation exactly when the answer carries it and what was believed agrees.
  unfold ImapSession.answered
  cases reply with
  | none => simp [ImapSession.failed]
  | some reply =>
    obtain ⟨data, skipped⟩ := reply
    simp only [Option.mem_some_iff, exists_eq_left']
    cases carried : data.uidValidity with
    | none =>
      cases call.stage with
      | first => simp [ImapSession.ask]
      | rechecking promised => simp [ImapSession.failed]
      | retried earlier =>
        simp only
        split
        · simp [ImapSession.failed]
        · simp [ImapSession.failed]
    | some observed =>
      simp only [Option.some.injEq]
      cases stage : call.stage with
      | first => exact weigh_ok _ _ _ _ _ _ _
      | retried earlier => exact weigh_ok _ _ _ _ _ _ _
      | rechecking promised =>
        rw [held.promised name call calling promised stage]
        exact conclude_ok _ _ _ _ _ _ _ _

theorem told_answer (pool : ConnectionPool Name) (held : pool.Held) (name : Name) (reply : Option (SelectData × Nat)) :
    pool.Told (.answer name reply) <-> pool.Remembered (.answer name reply) := by
  cases calling : (pool.sessions name).calling with
  | none =>
    have nothing : pool.reported (.answer name reply) = none := by simp only [reported, turn, calling, Option.bind_none]
    simp [Told, Remembered, nothing, calling]
  | some call =>
    have answers := answered_ok pool held name call calling reply
    have reports : pool.reported (.answer name reply) =
        match ((pool.sessions name).answered pool.generations pool.now call reply).outcome with
        | some (.ok observed) => some (name, call.path, observed)
        | _ => none := by
      simp only [reported, turn, calling, Option.bind_some]
    have remembers : pool.Remembered (.answer name reply) <-> ¬ pool.Missed name call reply := by
      simp only [Remembered, calling, Option.mem_some_iff, forall_eq']
    unfold Told
    rw [reports, remembers]
    constructor
    · rintro told ⟨left, ⟨earlier, learned, differs⟩, answer, there, carried, confirmed⟩
      obtain ⟨reported, named⟩ := Option.isSome_iff_exists.mp carried
      have outcome := (answers reported).mpr ⟨⟨answer, there, named⟩, by
        rw [left, Option.none_or, ← confirmed, named]
        exact fun known same => (Option.mem_some_iff.mp same).symm⟩
      rw [outcome] at told
      have same := told _ rfl earlier learned
      simp only at same
      rw [← confirmed, named, same] at differs
      exact differs rfl
    · intro remembered report there earlier learned
      split at there
      next reported outcome =>
        cases there
        simp only at learned ⊢
        obtain ⟨⟨answer, received, carried⟩, agreed⟩ := (answers reported).mp outcome
        cases promised : (pool.sessions name).promised call.path with
        | some made =>
          rw [← agreed made (by simp [promised])]
          exact held.of_promised name call.path made earlier promised learned
        | none =>
          obtain ⟨generation, logged⟩ :=
            Option.isSome_iff_exists.mp (held.logged name call.path (Option.isSome_iff_exists.mpr ⟨earlier, learned⟩))
          have believed : pool.generations.known call.path = some generation.uidValidity := by
            rw [Generations.known, logged]
            rfl
          have same := agreed generation.uidValidity (by simp [promised, believed])
          by_contra apart
          refine remembered ⟨promised, ⟨earlier, learned, ?_⟩, answer, received, ?_, ?_⟩
          · rw [believed, same]
            exact fun equal => apart (Option.some.inj equal)
          · rw [carried]
            rfl
          · rw [carried, believed, same]
      next => cases there

theorem selectNow_silent (session : ImapSession) (generations : Generations) (path : MailboxPath) (mode : SelectMode)
    (wantCondstore : Bool) (reported : UidValidity) :
    (session.selectNow generations path mode wantCondstore).outcome ≠ some (.ok reported) := by
  unfold ImapSession.selectNow
  split
  · simp [ImapSession.failed]
  · simp [ImapSession.ask]

theorem told_iff (pool : ConnectionPool Name) (event : SelectionEvent Name) (held : pool.Held) :
    pool.Told event <-> pool.Remembered event := by
  -- Only an answer may have a session report what its caller was not told to forget.
  cases event with
  | answer name reply => exact told_answer pool held name reply
  | ensureSelected name path wantCondstore =>
    refine iff_of_true ?_ trivial
    intro report there earlier learned
    obtain ⟨⟨session, mailbox, turn⟩, taken, outcome⟩ := Option.bind_eq_some_iff.mp there
    simp only [ConnectionPool.turn] at taken
    split at taken
    next =>
      cases taken
      split at outcome
      next reported answered =>
        cases outcome
        unfold ImapSession.ensureSelected at answered
        split at answered
        next selected found =>
          obtain ⟨holding, covering⟩ := Option.filter_eq_some_iff.mp found
          have here := (covers_path _ _ _ _ _ _ covering).1
          subst here
          cases answered
          exact held.selected name selected holding earlier learned
        next => exact absurd answered (selectNow_silent _ _ _ _ _ _)
      next => cases outcome
    next => cases taken
  | select name path mode =>
    refine iff_of_true ?_ trivial
    intro report there earlier learned
    obtain ⟨⟨session, mailbox, turn⟩, taken, outcome⟩ := Option.bind_eq_some_iff.mp there
    simp only [ConnectionPool.turn] at taken
    split at taken
    next =>
      cases taken
      split at outcome
      next answered => exact absurd answered (selectNow_silent _ _ _ _ _ _)
      next => cases outcome
    next => cases taken
  | abandon name =>
    refine iff_of_true ?_ trivial
    intro report there earlier learned
    obtain ⟨⟨session, mailbox, turn⟩, taken, outcome⟩ := Option.bind_eq_some_iff.mp there
    simp only [ConnectionPool.turn] at taken
    split at taken
    next =>
      cases taken
      cases outcome
    next => cases taken
  | pass time =>
    refine iff_of_true ?_ trivial
    intro report there
    cases there

/-! ### Runs of a pool -/

variable [DecidableEq Name]

theorem held_take (pool : ConnectionPool Name) (name : Name) (path : MailboxPath) (turn : SelectTurn)
    (held : pool.Held) (proper : pool.Proper name path turn) : (pool.take name path turn).Held where
  logged := by
    intro other mailbox known
    simp only [take] at known ⊢
    by_cases same : other = name
    · subst same
      rw [Function.update_self] at known
      by_cases here : mailbox = path
      · subst here
        rw [Function.update_self] at known
        exact proper.adopted known
      · rw [Function.update_of_ne here] at known
        exact proper.logged mailbox (held.logged other mailbox known)
    · rw [Function.update_of_ne same] at known
      exact proper.logged mailbox (held.logged other mailbox known)
  selected := by
    intro other selected there earlier known
    simp only [take] at there known
    by_cases same : other = name
    · subst same
      rw [Function.update_self] at there known
      by_cases here : selected.path = path
      · rw [here, Function.update_self] at known
        rcases proper.selected with ⟨-, kept⟩ | ⟨fresh, adopted, -, kept⟩
        · exact kept selected there here earlier known
        · rw [adopted, Option.mem_some_iff] at there
          subst there
          exact kept earlier known
      · rw [Function.update_of_ne here] at known
        rcases proper.selected with ⟨unchanged, -⟩ | ⟨fresh, adopted, there', -⟩
        · rw [unchanged] at there
          exact held.selected other selected there earlier known
        · rw [adopted, Option.mem_some_iff] at there
          subst there
          exact absurd there' here
    · rw [Function.update_of_ne same] at there known
      exact held.selected other selected there earlier known
  promised := by
    intro other call there promised stage
    simp only [take] at there ⊢
    by_cases same : other = name
    · subst same
      rw [Function.update_self] at there ⊢
      exact proper.promised call there promised stage
    · rw [Function.update_of_ne same] at there ⊢
      exact held.promised other call there promised stage

theorem held_step (pool : ConnectionPool Name) (event : SelectionEvent Name) (held : pool.Held) :
    (pool.step event).Held := by
  unfold step
  split
  · exact ⟨held.logged, held.selected, held.promised⟩
  · split
    next taken => exact held_take pool _ _ _ held (turn_proper pool event held _ _ _ taken)
    next => exact held

/-- Over any run of a pool, no caller is given another generation of a mailbox than the one it was given before without
being told of the change, exactly if no session comes back to a mailbox whose change another session recorded. -/
theorem generations_told_iff (maxAge : Nat) (now : Instant) (condstore : Name -> Bool)
    (events : List (SelectionEvent Name)) :
    Run.Along step Told (opened maxAge now condstore) events <->
      Run.Along step Remembered (opened maxAge now condstore) events :=
  Run.along_iff step Held Told Remembered (fun pool event held _ => held_step pool event held) told_iff _ events
    (held_opened maxAge now condstore)

instance (pool : ConnectionPool Name) (event : SelectionEvent Name) : Decidable (pool.Told event) :=
  inferInstanceAs (Decidable (∀ report ∈ pool.reported event, ∀ earlier ∈ pool.learned report.1 report.2.1,
    report.2.2 = earlier))

def answering (generation : Nat) : Option (SelectData × Nat) :=
  some ({ uidValidity := some ⟨generation⟩, existing := some 3 }, 0)

def leftBeforeTheChange : List (SelectionEvent Bool) :=
  -- One session reads the inbox and moves on; another is told the inbox was renumbered; the first comes back.
  [.ensureSelected false ['I'] false, .answer false (answering 1),
    .ensureSelected false ['A'] false, .answer false (answering 7),
    .ensureSelected true ['I'] false, .answer true (answering 2), .answer true (answering 2),
    .ensureSelected false ['I'] false, .answer false (answering 2)]

theorem change_never_told :
    ¬ Run.Along step Told (opened 60 0 (fun _ => false)) leftBeforeTheChange := by
  decide

end ConnectionPool

end Postio

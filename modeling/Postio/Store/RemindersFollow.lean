import Postio.Store.Filing

set_option autoImplicit false

namespace Postio.Followed

/-- Every standing reminder is on the conversation its message is in, and no other stands there. -/
structure Follows (store : Followed) : Prop where
  placed : ∀ reminder ∈ store.reminders.rows, reminder.stands ->
    store.threadOf reminder.anchor = some reminder.threadId
  single : ∀ first ∈ store.reminders.rows, ∀ second ∈ store.reminders.rows, first.stands -> second.stands ->
    first.threadId = second.threadId -> first = second

variable (own : List Address) (store : Followed) (role : MailboxRole) (id : ReminderId) (entry : Instant × Event)
    (thread : ThreadId) (filed : List Filed) (reminder : ReminderRow) (now : Instant)

def opened : Followed where
  mails := .empty _
  threads := .empty _
  links := []
  reminders := .empty _
  own

def awaited : List MessageId :=
  (store.reminders.rows.filter ReminderRow.stands).map ReminderRow.anchor

def waits : List (MessageId × ThreadId) :=
  (store.reminders.rows.filter ReminderRow.stands).map (fun reminder => (reminder.anchor, reminder.threadId))

def answers (fetched : Fetched) (mail : Mail) : Bool :=
  fetched.arrival && mayAnswer role mail && store.fromSomebodyElse mail

/-- A watched message, and the conversation it is to be in. -/
abbrev Watched := MessageId × ThreadId

/-- No filing of a unit absorbs a watched message's conversation, or files the message elsewhere; an answer is watched
once it is filed itself. -/
def FiledInPlace (counts : Fetched -> Mail -> Bool) (account : AccountId) (now : Instant) :
    List Watched -> Conversations -> List (Fetched × Mail) -> Prop
  | _, _, [] => True
  | watched, store, (fetched, mail) :: rest =>
    (∀ watch ∈ watched, watch.2 ∉ (assign (.of mail) (store.index account none)).absorbed ∧
        (watch.1 = mail.id -> (assign (.of mail) (store.index account none)).thread = some watch.2)) ∧
      FiledInPlace counts account now
        (if counts fetched mail then (mail.id, (store.file now account mail).2) :: watched else watched)
        (store.file now account mail).1 rest

instance decidableFiledInPlace (counts : Fetched -> Mail -> Bool) (account : AccountId) (now : Instant) :
    ∀ watched store written, Decidable (FiledInPlace counts account now watched store written)
  | _, _, [] => isTrue trivial
  | watched, store, (fetched, mail) :: rest =>
    have := decidableFiledInPlace counts account now
      (if counts fetched mail then (mail.id, (store.file now account mail).2) :: watched else watched)
      (store.file now account mail).1 rest
    instDecidableAnd

def InPlace : Prop :=
  -- No conversation takes in a message that is waited on.
  match entry.2 with
  | .unit role account _ unit =>
    FiledInPlace (store.answers role) account entry.1 store.waits (store.upsertAll unit).1 (store.upsertAll unit).2
  | .merge keep absorb => keep = absorb ∨ ∀ message ∈ store.awaited, store.threadOf message ≠ some absorb
  | .reconsider account message =>
    ∀ mail, store.mails.get message.get = some mail ->
      ∀ current assignment, store.reconsidered account mail = some (current, assignment) ->
        ∀ waiting ∈ store.awaited, ∀ thread ∈ current :: assignment.absorbed, store.threadOf waiting ≠ some thread
  | .set thread anchor _ => store.threadOf anchor = some thread
  | _ => True

def answersOf (account : AccountId) (unit : List Fetched) (now : Instant) :
    List Filed :=
  (((store.upsertAll unit).1.fileAll now account (store.upsertAll unit).2).2.filter
    (fun entry => store.answers role entry.1 entry.2.mail)).map Prod.snd

def Answered : Prop :=
  -- After a unit no reminder stands on a conversation that an answer of the unit is in.
  match entry.2 with
  | .unit role account true unit =>
    ∀ answer ∈ store.answersOf role account unit entry.1, ∀ reminder ∈ (store.step entry).reminders.rows,
      reminder.stands -> (store.step entry).threadOf reminder.anchor ≠ (store.step entry).threadOf answer.mail.id
  | _ => True

theorem mem_awaited (member : reminder ∈ store.reminders.rows)
    (stands : reminder.stands) : reminder.anchor ∈ store.awaited :=
  List.mem_map_of_mem (List.mem_filter.mpr ⟨member, stands⟩)

/-! ### What keeps the reminders where they are -/

theorem follows_moved (moved : Conversations) (follows : store.Follows)
    (kept : ∀ message ∈ store.awaited, moved.threadOf message = store.threadOf message) :
    Follows { store with toConversations := moved } := by
  -- Conversations may change in any way that leaves the awaited messages where they are.
  constructor
  · intro reminder member stands
    exact (kept reminder.anchor (store.mem_awaited reminder member stands)).trans
      (follows.placed reminder member stands)
  · exact follows.single

theorem follows_marked (id : Nat) (change : ReminderRow -> ReminderRow)
    (kept : ∀ row, (change row).id.get = row.id.get) (follows : store.Follows)
    (marked : ∀ row, (change row).stands ->
      (change row).threadId = row.threadId ∧ (change row).anchor = row.anchor ∧ row.stands) :
    Follows { store with reminders := store.reminders.updateAt id change kept } := by
  -- A mark on a reminder may end it, never move or revive it.
  have standing : ∀ reminder ∈ (store.reminders.updateAt id change kept).rows, reminder.stands ->
      ∃ row ∈ store.reminders.rows, row.id.get = reminder.id.get ∧ reminder.threadId = row.threadId ∧
        reminder.anchor = row.anchor ∧ row.stands := by
    intro reminder member stands
    obtain ⟨row, there, rfl⟩ := List.mem_map.mp member
    by_cases named : row.id.get = id
    · rw [if_pos named] at stands ⊢
      obtain ⟨thread, anchor, stood⟩ := marked row stands
      exact ⟨row, there, (kept row).symm, thread, anchor, stood⟩
    · rw [if_neg named] at stands ⊢
      exact ⟨row, there, rfl, rfl, rfl, stands⟩
  constructor
  · intro reminder member stands
    obtain ⟨row, there, -, thread, anchor, stood⟩ := standing reminder member stands
    rw [anchor, thread]
    exact follows.placed row there stood
  · intro first firstMember second secondMember firstStands secondStands threads
    obtain ⟨row, there, named, thread, -, stood⟩ := standing first firstMember firstStands
    obtain ⟨other, otherThere, otherNamed, otherThread, -, otherStood⟩ := standing second secondMember secondStands
    have one : row = other := follows.single row there other otherThere stood otherStood
      (by rw [← thread, ← otherThread, threads])
    apply (store.reminders.updateAt id change kept).key_injective first second firstMember secondMember
    rw [← named, ← otherNamed, one]

theorem follows_removed (gone : ReminderRow -> Bool) (follows : store.Follows) :
    Follows { store with reminders := store.reminders.remove gone } := by
  constructor
  · intro reminder member stands
    exact follows.placed reminder (List.mem_of_mem_filter member) stands
  · intro first firstMember second secondMember
    exact follows.single first (List.mem_of_mem_filter firstMember) second (List.mem_of_mem_filter secondMember)

theorem follows_fire (follows : store.Follows) : (store.fire id now).Follows:= by
  apply follows_marked store id.get _ _ follows
  intro row stands
  by_cases waiting : (row.firedAt.isNone && row.stands) = true
  · rw [if_pos waiting]
    exact ⟨rfl, rfl, (Bool.and_eq_true_iff.mp waiting).2⟩
  · rw [if_neg waiting] at stands ⊢
    exact ⟨rfl, rfl, stands⟩

theorem follows_cancel (follows : store.Follows) : (store.cancel id now).Follows:= by
  apply follows_marked store id.get _ _ follows
  intro row stands
  by_cases waiting : (row.firedAt.isNone && row.stands) = true
  · rw [if_pos waiting] at stands
    simp [ReminderRow.stands] at stands
  · rw [if_neg waiting] at stands ⊢
    exact ⟨rfl, rfl, stands⟩

theorem follows_settle (follows : store.Follows) : (store.settle id now).Follows:= by
  apply follows_marked store id.get _ _ follows
  intro row stands
  by_cases stood : row.stands = true
  · rw [if_pos stood] at stands
    simp [ReminderRow.stands] at stands
  · rw [if_neg stood] at stands
    exact absurd stands stood

theorem standing_mem (found : store.standing thread = some reminder) :
    reminder ∈ store.reminders.rows ∧ reminder.threadId = thread ∧ reminder.stands := by
  have member := List.mem_filter.mp (List.mem_of_getLast? found)
  exact ⟨member.1, by simpa using member.2⟩

theorem standing_none (none : store.standing thread = none)
    (reminder : ReminderRow) (member : reminder ∈ store.reminders.rows) (stands : reminder.stands) :
    reminder.threadId ≠ thread := by
  intro same
  have empty := List.getLast?_eq_none_iff.mp none
  have there : reminder ∈ store.reminders.rows.filter (fun row => row.threadId = thread && row.stands) :=
    List.mem_filter.mpr ⟨member, by simp [same, stands]⟩
  rw [empty] at there
  cases there

theorem follows_set (anchor : MessageId) (dueAt now : Instant)
    (follows : store.Follows) (placed : store.threadOf anchor = some thread) :
    (store.set thread anchor dueAt now).Follows := by
  -- A reminder set on the conversation its message is in replaces the one standing there.
  unfold set
  cases found : store.standing thread with
  | some reminder =>
    obtain ⟨there, named, stands⟩ := store.standing_mem thread reminder found
    simp only
    constructor
    · intro row member stood
      obtain ⟨old, oldMember, rfl⟩ := List.mem_map.mp member
      by_cases same : old.id.get = reminder.id.get
      · have one : old = reminder := store.reminders.key_injective old reminder oldMember there same
        rw [if_pos same, one]
        exact placed.trans (congrArg some named.symm)
      · rw [if_neg same] at stood ⊢
        exact follows.placed old oldMember stood
    · intro first firstMember second secondMember firstStands secondStands threads
      obtain ⟨row, rowMember, rfl⟩ := List.mem_map.mp firstMember
      obtain ⟨other, otherMember, rfl⟩ := List.mem_map.mp secondMember
      have one : row = other := by
        apply follows.single row rowMember other otherMember
        · split at firstStands
          · exact firstStands
          · exact firstStands
        · split at secondStands
          · exact secondStands
          · exact secondStands
        · split at threads
          · split at threads
            · exact threads
            · exact threads
          · split at threads
            · exact threads
            · exact threads
      rw [one]
  | none =>
    simp only
    constructor
    · intro row member stood
      rcases List.mem_append.mp member with old | new
      · exact follows.placed row old stood
      · rw [List.mem_singleton.mp new]
        exact placed
    · intro first firstMember second secondMember firstStands secondStands threads
      rcases List.mem_append.mp firstMember with old | new
      · rcases List.mem_append.mp secondMember with otherOld | otherNew
        · exact follows.single first old second otherOld firstStands secondStands threads
        · rw [List.mem_singleton.mp otherNew] at threads
          exact absurd threads (store.standing_none thread found first old firstStands)
      · rcases List.mem_append.mp secondMember with otherOld | otherNew
        · rw [List.mem_singleton.mp new] at threads
          exact absurd threads.symm (store.standing_none thread found second otherOld secondStands)
        · rw [List.mem_singleton.mp new, List.mem_singleton.mp otherNew]

theorem toConversations_set (anchor : MessageId) (dueAt now : Instant) :
    (store.set thread anchor dueAt now).toConversations = store.toConversations := by
  unfold set
  split
  · rfl
  · rfl

theorem follows_clear (follows : store.Follows) : (store.clear thread).Follows:= follows_removed store _ follows

theorem anchors_placed (messages : List MessageId) (thread : ThreadId) (anchor : MessageId)
    (member : (thread, anchor) ∈ store.anchors messages) : store.threadOf anchor = some thread := by
  -- Each conversation's anchor is one of its messages.
  obtain ⟨group, grouped, first⟩ := List.mem_filterMap.mp member
  obtain ⟨-, same⟩ := (mem_groupBy _ _ group.1 group.2).mp grouped
  have row := List.mem_of_mem_head? first
  rw [same] at row
  replace row := List.mem_of_mem_filter row
  obtain ⟨id, -, found⟩ := List.mem_filterMap.mp row
  obtain ⟨other, there, pair⟩ := Option.map_eq_some_iff.mp found
  cases pair
  exact there

theorem follows_remind (messages : List MessageId) (dueAt : Option Instant) (now : Instant)
    (follows : store.Follows) : (store.remind messages dueAt now).Follows := by
  have walk (turn : Followed -> ThreadId × MessageId -> Followed)
      (keeps : ∀ (current : Followed) (thread : ThreadId) (anchor : MessageId), current.Follows ->
        current.threadOf anchor = some thread -> (turn current (thread, anchor)).Follows)
      (same : ∀ (current : Followed) (target : ThreadId × MessageId),
        (turn current target).toConversations = current.toConversations)
      (targets : List (ThreadId × MessageId)) (current : Followed) (kept : current.Follows)
      (placed : ∀ target ∈ targets, current.threadOf target.2 = some target.1) : (targets.foldl turn current).Follows := by
    induction targets generalizing current with
    | nil => exact kept
    | cons target rest ih =>
      apply ih
      · exact keeps current target.1 target.2 kept (placed target List.mem_cons_self)
      · intro other member
        rw [same]
        exact placed other (List.mem_cons_of_mem _ member)
  unfold remind
  refine walk _ ?_ ?_ _ store follows (fun target member => store.anchors_placed messages target.1 target.2 member)
  · intro current thread anchor kept placed
    cases dueAt with
    | some due => exact follows_set current thread anchor due now kept placed
    | none => exact follows_clear current thread kept
  · intro current target
    cases dueAt with
    | some due => exact toConversations_set current target.1 target.2 due now
    | none => rfl

/-! ### A unit of a pass -/

def Conversations.Home (store : Conversations) (written : List (Fetched × Mail)) (watch : Watched) : Prop :=
  store.threadOf watch.1 = some watch.2 ∨ store.threadOf watch.1 = none ∧ ∃ entry ∈ written, entry.2.id = watch.1

theorem home_file (store : Conversations) (now : Instant) (account : AccountId) (mail : Mail) (fetched : Fetched)
    (rest : List (Fetched × Mail)) (watch : Watched) (present : (store.mails.get mail.id.get).isSome)
    (home : Conversations.Home store ((fetched, mail) :: rest) watch)
    (apart : watch.2 ∉ (assign (.of mail) (store.index account none)).absorbed)
    (own : watch.1 = mail.id -> (assign (.of mail) (store.index account none)).thread = some watch.2) :
    Conversations.Home (store.file now account mail).1 rest watch := by
  -- A filing in place leaves a watched message where it is, or brings it there.
  by_cases same : watch.1 = mail.id
  · left
    rw [same, store.threadOf_filed now account mail present]
    have joined := own same
    cases assignment : assign (.of mail) (store.index account none) with
    | new =>
      rw [assignment] at joined
      cases joined
    | join thread =>
      rw [assignment] at joined
      rw [← joined]
      simp [Conversations.file, Conversations.apply, Conversations.settle, assignment, Assignment.thread]
    | merge into absorb =>
      rw [assignment] at joined
      rw [← joined]
      simp [Conversations.file, Conversations.apply, Conversations.settle, assignment, Assignment.thread]
  · have stays : (store.file now account mail).1.threadOf watch.1 = store.threadOf watch.1 := by
      apply store.threadOf_apply now account mail.id watch.1
      refine ⟨fun thread absorbed inside => ?_, fun named => absurd named same⟩
      rcases home with there | ⟨nowhere, -⟩
      · rw [there] at inside
        exact apart (Option.some.inj inside ▸ absorbed)
      · rw [nowhere] at inside
        cases inside
    unfold Conversations.Home
    rw [stays]
    rcases home with there | ⟨nowhere, entry, member, named⟩
    · exact .inl there
    · rcases List.mem_cons.mp member with first | later
      · rw [first] at named
        exact absurd named.symm same
      · exact .inr ⟨nowhere, entry, later, named⟩

theorem fileAll_in_place (counts : Fetched -> Mail -> Bool) (account : AccountId) (now : Instant)
    (watched : List Watched) (store : Conversations) (written : List (Fetched × Mail))
    (there : ∀ entry ∈ written, (store.mails.get entry.2.id.get).isSome)
    (home : ∀ watch ∈ watched, Conversations.Home store written watch)
    (inPlace : FiledInPlace counts account now watched store written) :
    (∀ watch ∈ watched, (store.fileAll now account written).1.threadOf watch.1 = some watch.2) ∧
      ∀ entry ∈ (store.fileAll now account written).2, counts entry.1 entry.2.mail ->
        (store.fileAll now account written).1.threadOf entry.2.mail.id = some entry.2.thread := by
  -- Watched messages are where they are to be after a unit, and each answer of it is where it was filed.
  induction written generalizing watched store with
  | nil =>
    refine ⟨fun watch member => ?_, fun _ member => by cases member⟩
    rcases home watch member with there | ⟨-, _, member, -⟩
    · exact there
    · cases member
  | cons first rest ih =>
    obtain ⟨fetched, mail⟩ := first
    obtain ⟨apart, later⟩ := inPlace
    have present := there _ List.mem_cons_self
    have filed := store.threadOf_filed now account mail present
    have stays : ∀ watch ∈ watched, Conversations.Home (store.file now account mail).1 rest watch := fun watch member =>
      home_file store now account mail fetched rest watch present (home watch member) (apart watch member).1
        (apart watch member).2
    obtain ⟨kept, answered⟩ := ih
      (if counts fetched mail then (mail.id, (store.file now account mail).2) :: watched else watched)
      (store.file now account mail).1
      (fun entry member => (store.isSome_file now account mail _).trans (there entry (List.mem_cons_of_mem _ member)))
      (by
        intro watch member
        split at member
        · rcases List.mem_cons.mp member with own | other
          · rw [own]
            exact .inl filed
          · exact stays watch other
        · exact stays watch member)
      later
    constructor
    · intro watch member
      apply kept watch
      split
      · exact List.mem_cons_of_mem _ member
      · exact member
    · intro entry member counted
      rcases List.mem_cons.mp member with own | other
      · subst own
        exact kept (mail.id, (store.file now account mail).2) (by simp [counted])
      · exact answered entry other counted

def replied (thread : ThreadId) : Bool :=
  filed.any (fun entry => entry.thread = thread && mayAnswer role entry.mail && store.fromSomebodyElse entry.mail)

theorem settle_standing (row : ReminderRow)
    (member : row ∈ (store.settle id now).reminders.rows) (stands : row.stands) :
    row ∈ store.reminders.rows ∧ row.id ≠ id := by
  obtain ⟨old, there, rfl⟩ := List.mem_map.mp member
  by_cases named : old.id.get = id.get
  · by_cases stood : old.stands = true
    · simp only [named, stood, if_true] at stands
      simp [ReminderRow.stands] at stands
    · simp [named, stood] at stands
  · simp only [named, if_false]
    exact ⟨there, fun same => named (congrArg ReminderId.get same)⟩

theorem cancel_standing (row : ReminderRow)
    (member : row ∈ (store.cancel id now).reminders.rows) (stands : row.stands) :
    row ∈ store.reminders.rows ∧ (row.id = id -> row.firedAt.isSome) := by
  obtain ⟨old, there, rfl⟩ := List.mem_map.mp member
  by_cases named : old.id.get = id.get
  · by_cases waiting : (old.firedAt.isNone && old.stands) = true
    · simp only [named, waiting, if_true] at stands
      simp [ReminderRow.stands] at stands
    · simp only [named, waiting, if_true] at stands ⊢
      refine ⟨there, fun _ => ?_⟩
      by_contra unfired
      have none : old.firedAt = none := Option.not_isSome_iff_eq_none.mp unfired
      apply waiting
      rw [none]
      simpa using stands
  · simp only [named, if_false]
    exact ⟨there, fun same => absurd (congrArg ReminderId.get same) named⟩

theorem answer_spec (store : Followed) (reminder : ReminderRow) (follows : store.Follows) :
    (answer role filed now store reminder).Follows ∧
      (answer role filed now store reminder).toConversations = store.toConversations ∧
      (answer role filed now store reminder).own = store.own ∧
      ∀ row ∈ (answer role filed now store reminder).reminders.rows, row.stands ->
        row ∈ store.reminders.rows ∧ (row = reminder -> store.replied role filed reminder.threadId = false) := by
  unfold answer
  split
  next hit =>
    split
    next fired =>
      refine ⟨follows_settle store reminder.id now follows, rfl, rfl, ?_⟩
      intro row member stands
      obtain ⟨there, other⟩ := settle_standing store reminder.id now row member stands
      exact ⟨there, fun same => absurd (congrArg ReminderRow.id same) other⟩
    next unfired =>
      refine ⟨follows_cancel store reminder.id now follows, rfl, rfl, ?_⟩
      intro row member stands
      obtain ⟨there, fired⟩ := cancel_standing store reminder.id now row member stands
      refine ⟨there, fun same => absurd (fired (congrArg ReminderRow.id same)) ?_⟩
      rw [same]
      exact unfired
  next missed =>
    refine ⟨follows, rfl, rfl, ?_⟩
    intro row member _
    exact ⟨member, fun _ => by simpa only [replied, Bool.not_eq_true] using missed⟩

theorem answers_spec (reminders : List ReminderRow) (store : Followed) (follows : store.Follows) :
    (reminders.foldl (answer role filed now) store).Follows ∧
      (reminders.foldl (answer role filed now) store).toConversations = store.toConversations ∧
      ∀ row ∈ (reminders.foldl (answer role filed now) store).reminders.rows, row.stands ->
        row ∈ store.reminders.rows ∧ (row ∈ reminders -> store.replied role filed row.threadId = false) := by
  induction reminders generalizing store with
  | nil => exact ⟨follows, rfl, fun row member _ => ⟨member, fun none => by cases none⟩⟩
  | cons reminder rest ih =>
    obtain ⟨next, conversations, own, standing⟩ := answer_spec role filed now store reminder follows
    obtain ⟨last, same, stood⟩ := ih (answer role filed now store reminder) next
    refine ⟨last, same.trans conversations, ?_⟩
    intro row member stands
    obtain ⟨there, asked⟩ := stood row member stands
    obtain ⟨before, first⟩ := standing row there stands
    refine ⟨before, fun listed => ?_⟩
    rcases List.mem_cons.mp listed with named | other
    · rw [named]
      exact first named
    · have answered := asked other
      simpa only [replied, fromSomebodyElse, own] using answered

theorem answerReminders_spec (follows : store.Follows) : (store.answerReminders role filed now).Follows ∧
      (store.answerReminders role filed now).toConversations = store.toConversations ∧
      ∀ reminder ∈ (store.answerReminders role filed now).reminders.rows, reminder.stands ->
        store.replied role filed reminder.threadId = false := by
  obtain ⟨kept, same, standing⟩ := answers_spec role filed now
    (store.reminders.rows.filter (fun reminder =>
      ((filed.filter (fun entry => mayAnswer role entry.mail)).map Filed.thread).contains reminder.threadId &&
        reminder.stands)) store follows
  refine ⟨kept, same, ?_⟩
  intro reminder member stands
  obtain ⟨there, asked⟩ := standing reminder member stands
  by_contra hit
  obtain ⟨entry, listed, answer⟩ := List.any_eq_true.mp ((Bool.not_eq_false _).mp hit)
  simp only [Bool.and_eq_true, decide_eq_true_eq] at answer
  apply hit
  apply asked
  apply List.mem_filter.mpr
  refine ⟨there, ?_⟩
  simp only [stands, Bool.and_true, List.contains_eq_mem, decide_eq_true_eq]
  exact List.mem_map.mpr ⟨entry, List.mem_filter.mpr ⟨listed, answer.1.2⟩, answer.1.1⟩

theorem mem_waits (member : reminder ∈ store.reminders.rows)
    (stands : reminder.stands) : (reminder.anchor, reminder.threadId) ∈ store.waits :=
  List.mem_map.mpr ⟨reminder, List.mem_filter.mpr ⟨member, stands⟩, rfl⟩

theorem fileUnit_spec (account : AccountId) (filing : Bool)
    (unit : List Fetched) (now : Instant) (follows : store.Follows)
    (inPlace : store.InPlace (now, .unit role account filing unit)) :
    (store.fileUnit role account filing unit now).Follows ∧
      store.Answered (now, .unit role account filing unit) := by
  obtain ⟨-, written⟩ := store.isSome_upsertAll unit
  obtain ⟨kept, filed⟩ := fileAll_in_place (store.answers role) account now store.waits _ _ written
    (by
      intro watch member
      obtain ⟨reminder, listed, rfl⟩ := List.mem_map.mp member
      obtain ⟨there, stands⟩ := List.mem_filter.mp listed
      exact (store.threadOf_upsertAll unit reminder.anchor).2 _ (follows.placed reminder there stands))
    inPlace
  have threaded : Follows
      { store with
        toConversations := ((store.upsertAll unit).1.fileAll now account (store.upsertAll unit).2).1 } := by
    constructor
    · intro reminder member stands
      exact kept _ (store.mem_waits reminder member stands)
    · exact follows.single
  cases filing with
  | false => exact ⟨threaded, trivial⟩
  | true =>
    obtain ⟨last, conversations, standing⟩ := answerReminders_spec _ role
      ((((store.upsertAll unit).1.fileAll now account (store.upsertAll unit).2).2.filter
        (fun entry => entry.1.arrival)).map Prod.snd) now threaded
    refine ⟨last, ?_⟩
    intro answer listed reminder member stands together
    obtain ⟨entry, entryListed, rfl⟩ := List.mem_map.mp listed
    obtain ⟨entryThere, counts⟩ := List.mem_filter.mp entryListed
    have here := congrArg (fun conversations => conversations.threadOf entry.2.mail.id) conversations
    have joined : some reminder.threadId = some entry.2.thread := by
      rw [← filed entry entryThere counts, ← last.placed reminder member stands]
      exact together.trans here
    apply Bool.false_ne_true
    rw [← standing reminder member stands]
    simp only [answers, Bool.and_eq_true] at counts
    apply List.any_eq_true.mpr
    refine ⟨entry.2, List.mem_map_of_mem (List.mem_filter.mpr ⟨entryThere, counts.1.1⟩), ?_⟩
    simp only [Option.some.inj joined, counts.1.2, Bool.and_true, decide_true, Bool.true_and]
    exact counts.2

/-! ### Every step -/

theorem follows_reconsider (account : AccountId) (message : MessageId)
    (follows : store.Follows) (inPlace : store.InPlace (now, .reconsider account message)) :
    (store.step (now, .reconsider account message)).Follows := by
  simp only [step]
  cases found : store.mails.get message.get with
  | none => exact follows
  | some mail =>
    apply follows_moved store _ follows
    intro waiting awaited
    unfold Conversations.reconsider
    cases moved : store.reconsidered account mail with
    | none => rfl
    | some target =>
      obtain ⟨current, assignment⟩ := target
      have apart := inPlace mail found current assignment moved waiting awaited
      have own := store.threadOf_reconsidered account mail current assignment moved
      have there : store.threadOf mail.id = some current := by
        rw [store.mails_id message mail found, Conversations.threadOf, found]
        exact own
      have leaves : store.Leaves assignment mail.id waiting := by
        refine ⟨fun thread absorbed => apart thread (List.mem_cons_of_mem _ absorbed), ?_⟩
        intro same
        rw [same] at apart
        exact absurd there (apart current List.mem_cons_self)
      have filed := store.threadOf_apply now account mail.id waiting (.of mail) assignment leaves
      refine Eq.trans ?_ filed
      apply Conversations.threadOf_merge
      exact .inr (fun inside => apart current List.mem_cons_self (filed.symm.trans inside))

theorem follows_expunge (messages : List MessageId) (follows : store.Follows) :
    (store.step (now, .expunge messages)).Follows := by
  constructor
  · intro reminder member stands
    obtain ⟨there, kept⟩ := List.mem_filter.mp member
    have placed := follows.placed reminder there stands
    obtain ⟨mail, present, joined⟩ := Option.bind_eq_some_iff.mp placed
    have named := store.mails_id reminder.anchor mail present
    have outside : reminder.anchor ∉ messages := by simpa using kept
    simp only [Conversations.threadOf, step, Table.get_remove, present]
    simpa [Option.filter_some, named, outside] using joined
  · intro first firstMember second secondMember
    exact follows.single first (List.mem_of_mem_filter firstMember) second (List.mem_of_mem_filter secondMember)

theorem follows_step (follows : store.Follows) (inPlace : store.InPlace entry) : (store.step entry).Follows:= by
  obtain ⟨now, event⟩ := entry
  cases event with
  | unit role account filing unit => exact (fileUnit_spec store role account filing unit now follows inPlace).1
  | merge keep absorb =>
    apply follows_moved store _ follows
    intro message member
    apply store.threadOf_merge
    exact inPlace.imp_right (fun apart => apart message member)
  | reconsider account message => exact follows_reconsider store now account message follows inPlace
  | expunge messages => exact follows_expunge store now messages follows
  | remind messages dueAt => exact follows_remind store messages dueAt now follows
  | set thread anchor dueAt => exact follows_set store thread anchor dueAt now follows inPlace
  | clear thread => exact follows_clear store thread follows
  | fire id => exact follows_fire store id now follows
  | cancel id => exact follows_cancel store id now follows
  | settle id => exact follows_settle store id now follows

theorem answered_step (follows : store.Follows) (inPlace : store.InPlace entry) : store.Answered entry:= by
  obtain ⟨now, event⟩ := entry
  cases event with
  | unit role account filing unit => exact (fileUnit_spec store role account filing unit now follows inPlace).2
  | _ => trivial

theorem follows_opened : (opened own).Follows :=
  ⟨fun _ member => (by cases member), fun _ member => (by cases member)⟩

/-- While no conversation takes in a message that is waited on, every standing reminder is on the conversation its
message is in, alone there, and each answer filed into that conversation ends it. -/
theorem reminder_follows_conversation (events : List (Instant × Event))
    (inPlace : Run.Along step InPlace (opened own) events) :
    (Run.run step (opened own) events).Follows ∧ Run.Along step Answered (opened own) events :=
  ⟨Run.run_invariant step Follows InPlace follows_step _ events (follows_opened own) inPlace,
    Run.along_invariant step Follows InPlace Answered follows_step answered_step _ events (follows_opened own) inPlace⟩

/-! ### A late parent -/

def letter (sender : Address) (name : List Char) (references : List RfcMessageId) (received : Instant) : Fetched where
  known := none
  arrival := true
  mail :=
    { id := ⟨0⟩
      accountId := ⟨1⟩
      mailboxId := ⟨1⟩
      threadId := none
      rfcMessageId := some name
      source := [sender]
      flags := ∅
      labels := ∅
      receivedAt := received
      sortAt := received
      deletedLocally := false
      snoozedUntil := none
      sendState := none
      remoteId := none
      subject := none
      inReplyTo := none
      references
      hasAttachments := false }

def me : Address := ⟨['m', 'e']⟩

def friend : Address := ⟨['f', 'r', 'i', 'e', 'n', 'd']⟩

def waiting : List (Instant × Event) :=
  [(1000, .unit .inbox ⟨1⟩ true [letter friend ['a'] [] 1000, letter friend ['b'] [] 1000]),
    (2000, .remind [⟨2⟩] (some 90000))]

/-- An answer that names both messages makes one conversation of the two, and the reminder waits on the one that is
gone. -/
theorem late_answer_leaves_reminder_behind :
    ¬ (Run.run step (opened [me])
        (waiting ++ [(3000, .unit .inbox ⟨1⟩ true [letter friend ['c'] [['a'], ['b']] 3000])])).Follows ∧
      ¬ Run.Along step Answered (opened [me])
        (waiting ++ [(3000, .unit .inbox ⟨1⟩ true [letter friend ['c'] [['a'], ['b']] 3000])]) := by
  constructor
  · intro follows
    have placed := follows.placed
    revert placed
    decide
  · intro answered
    obtain ⟨-, -, last, -⟩ := answered
    revert last
    unfold Answered
    decide

/-- An answer that names the message waited on is found. -/
theorem answer_found :
    (Run.run step (opened [me])
        (waiting ++ [(3000, .unit .inbox ⟨1⟩ true [letter friend ['c'] [['b']] 3000])])).Follows ∧
      Run.Along step Answered (opened [me])
        (waiting ++ [(3000, .unit .inbox ⟨1⟩ true [letter friend ['c'] [['b']] 3000])]) := by
  apply reminder_follows_conversation
  refine ⟨?_, trivial, ?_, trivial⟩
  · unfold InPlace
    decide
  · unfold InPlace
    decide

end Postio.Followed

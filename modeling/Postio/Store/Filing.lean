import Postio.Store.Threading
import Postio.Lib.Run

set_option autoImplicit false

namespace Postio

/-- A message as a pass fetched it: the row it is matched to, and whether the pass counts it an arrival. -/
structure Fetched where
  known : Option MessageId
  arrival : Bool
  mail : Mail
  deriving DecidableEq

structure Filed where
  mail : Mail
  thread : ThreadId

def Fetched.refreshed (fetched : Fetched) (row : Mail) : Mail :=
  -- A row refreshed takes what was fetched, and with it that the message is in no conversation yet. Its snooze and its
  -- place in the lists are the store's.
  { fetched.mail with
    id := row.id
    threadId := none
    labels := if fetched.mail.labels = ∅ then row.labels else fetched.mail.labels
    sortAt := max row.sortAt fetched.mail.receivedAt
    snoozedUntil := row.snoozedUntil
    sendState := row.sendState }

variable (fetched : Fetched)

def Fetched.fresh (id : MessageId) : Mail :=
  { fetched.mail with id, threadId := none, sortAt := fetched.mail.receivedAt, snoozedUntil := none, sendState := none }

theorem Fetched.refreshed_id : ∀ row, (fetched.refreshed row).id.get = row.id.get := fun _ => rfl

theorem Fetched.fresh_id : ∀ id, (fetched.fresh ⟨id⟩).id.get = id := fun _ => rfl

namespace Conversations

variable (store : Conversations) (fetched : Fetched)

def upsert : Conversations × Mail :=
  match fetched.known.bind (fun id => store.mails.get id.get) with
  | some row =>
    ({ store with mails := store.mails.updateAt row.id.get fetched.refreshed fetched.refreshed_id }, fetched.refreshed row)
  | none =>
    ({ store with mails := store.mails.insert (fun id => fetched.fresh ⟨id⟩) fetched.fresh_id },
      fetched.fresh ⟨store.mails.nextId⟩)

def upsertAll (store : Conversations) : List Fetched -> Conversations × List (Fetched × Mail)
  | [] => (store, [])
  | fetched :: rest =>
    let (next, mail) := store.upsert fetched
    let (last, written) := next.upsertAll rest
    (last, (fetched, mail) :: written)

/-- Each message's thread is the one it was filed into, whatever a later one of the unit merges. -/
def fileAll (store : Conversations) (now : Instant) (account : AccountId) :
    List (Fetched × Mail) -> Conversations × List (Fetched × Filed)
  | [] => (store, [])
  | (fetched, mail) :: rest =>
    let (next, thread) := store.file now account mail
    let (last, filed) := next.fileAll now account rest
    (last, (fetched, { mail, thread }) :: filed)

/-! ### What a unit leaves where it was -/

theorem threadOf_upsert (message : MessageId) (thread : ThreadId) (there : store.threadOf message = some thread) :
    (store.upsert fetched).1.threadOf message = some thread ∨
      (store.upsert fetched).1.threadOf message = none ∧ (store.upsert fetched).2.id = message := by
  -- A row refreshed is in no conversation until it is filed, and no other row is taken out of its own.
  obtain ⟨mail, present, joined⟩ := Option.bind_eq_some_iff.mp there
  unfold upsert
  split
  next row found =>
    simp only [threadOf, Table.get_updateAt, present]
    by_cases same : message.get = row.id.get
    · have named : row.id = message := MessageId.get_injective same.symm
      exact .inr ⟨by simp [same, Fetched.refreshed], named⟩
    · exact .inl (by simp [same, joined])
  next =>
    have issued := store.mails.issued mail ((store.mails.get_eq_some _ _).mp present).1
    rw [((store.mails.get_eq_some _ _).mp present).2] at issued
    simp only [threadOf, Table.get_insert, present]
    exact .inl (by simp [Nat.ne_of_lt issued, joined])

theorem threadOf_upsert_none (message : MessageId)
    (nowhere : store.threadOf message = none) : (store.upsert fetched).1.threadOf message = none := by
  unfold upsert
  split
  next row found =>
    simp only [threadOf, Table.get_updateAt] at nowhere ⊢
    by_cases same : message.get = row.id.get
    · rw [if_pos same, Option.bind_map]
      cases store.mails.get message.get with
      | none => rfl
      | some mail => rfl
    · rw [if_neg same]
      exact nowhere
  next =>
    simp only [threadOf, Table.get_insert] at nowhere ⊢
    split
    · rfl
    · exact nowhere

theorem threadOf_upsertAll (unit : List Fetched) (message : MessageId) :
    (store.threadOf message = none -> (store.upsertAll unit).1.threadOf message = none) ∧
      ∀ thread, store.threadOf message = some thread ->
        (store.upsertAll unit).1.threadOf message = some thread ∨
          (store.upsertAll unit).1.threadOf message = none ∧
            ∃ entry ∈ (store.upsertAll unit).2, entry.2.id = message := by
  induction unit generalizing store with
  | nil => exact ⟨id, fun _ there => .inl there⟩
  | cons fetched rest ih =>
    obtain ⟨noneLater, later⟩ := ih (store.upsert fetched).1
    constructor
    · intro nowhere
      exact noneLater (threadOf_upsert_none store fetched message nowhere)
    · intro thread there
      rcases threadOf_upsert store fetched message thread there with kept | ⟨out, named⟩
      · rcases later thread kept with still | ⟨gone, entry, member, same⟩
        · exact .inl still
        · exact .inr ⟨gone, entry, List.mem_cons_of_mem _ member, same⟩
      · exact .inr ⟨noneLater out, _, List.mem_cons_self, named⟩

theorem isSome_upsert : (∀ id, (store.mails.get id).isSome -> ((store.upsert fetched).1.mails.get id).isSome) ∧
      ((store.upsert fetched).1.mails.get (store.upsert fetched).2.id.get).isSome := by
  unfold upsert
  split
  next row found =>
    obtain ⟨id, -, known⟩ := Option.bind_eq_some_iff.mp found
    have named := ((store.mails.get_eq_some _ _).mp known).2
    constructor
    · intro other there
      simp only [Table.get_updateAt]
      split
      · simpa using there
      · exact there
    · simp [Table.get_updateAt, Fetched.refreshed, named, known]
  next =>
    constructor
    · intro other there
      simp only [Table.get_insert]
      split
      · rfl
      · exact there
    · simp [Table.get_insert, Fetched.fresh]

theorem isSome_upsertAll (unit : List Fetched) :
    (∀ id, (store.mails.get id).isSome -> ((store.upsertAll unit).1.mails.get id).isSome) ∧
      ∀ written ∈ (store.upsertAll unit).2, ((store.upsertAll unit).1.mails.get written.2.id.get).isSome := by
  induction unit generalizing store with
  | nil => exact ⟨fun _ there => there, fun _ member => by cases member⟩
  | cons fetched rest ih =>
    obtain ⟨kept, own⟩ := isSome_upsert store fetched
    obtain ⟨later, written⟩ := ih (store.upsert fetched).1
    constructor
    · intro id there
      exact later id (kept id there)
    · intro entry member
      rcases List.mem_cons.mp member with first | other
      · subst first
        exact later _ own
      · exact written entry other

theorem isSome_file (now : Instant) (account : AccountId) (mail : Mail) (id : Nat) :
    ((store.file now account mail).1.mails.get id).isSome = (store.mails.get id).isSome :=
  store.isSome_apply now account mail.id (.of mail) (assign (.of mail) (store.index account none)) id

end Conversations

structure ReminderId where
  get : Nat
  deriving DecidableEq, Repr

/-- A row of `reminders`. -/
structure ReminderRow extends Reminder where
  id : ReminderId
  anchor : MessageId
  setAt : Instant
  dueAt : Instant
  deriving DecidableEq

def ReminderRow.stands (reminder : ReminderRow) : Bool := reminder.cancelledAt.isNone && reminder.settledAt.isNone

structure Followed extends Conversations where
  reminders : Table ReminderRow (fun reminder => reminder.id.get)
  own : List Address

namespace Followed

variable (store : Followed) (role : MailboxRole) (thread : ThreadId) (id : ReminderId) (now : Instant)

def standing : Option ReminderRow :=
  (store.reminders.rows.filter (fun reminder => reminder.threadId = thread && reminder.stands)).getLast?

def set (anchor : MessageId) (dueAt now : Instant) : Followed :=
  -- Setting another replaces the one standing, fired or not.
  match store.standing thread with
  | some reminder =>
    { store with
      reminders := store.reminders.updateAt reminder.id.get
        (fun row => { row with anchor, setAt := now, dueAt, firedAt := none }) (fun _ => rfl) }
  | none =>
    { store with
      reminders := store.reminders.insert
        (fun id =>
          { id := ⟨id⟩, threadId := thread, anchor, setAt := now, dueAt, firedAt := none, cancelledAt := none,
            settledAt := none })
        (fun _ => rfl) }

def clear : Followed :=
  { store with reminders := store.reminders.remove (fun reminder => reminder.threadId = thread && reminder.stands) }

def fire : Followed :=
  { store with
    reminders := store.reminders.updateAt id.get
      (fun row => if row.firedAt.isNone && row.stands then { row with firedAt := some now } else row)
      (fun row => by split <;> rfl) }

def cancel : Followed :=
  { store with
    reminders := store.reminders.updateAt id.get
      (fun row => if row.firedAt.isNone && row.stands then { row with cancelledAt := some now } else row)
      (fun row => by split <;> rfl) }

def settle : Followed :=
  { store with
    reminders := store.reminders.updateAt id.get
      (fun row => if row.stands then { row with settledAt := some now } else row)
      (fun row => by split <;> rfl) }

def anchors (messages : List MessageId) : List (ThreadId × MessageId) :=
  let rows := messages.filterMap (fun id => (store.threadOf id).map (fun thread => (thread, id)))
  (groupBy (fun row : ThreadId × MessageId => row.1.get) rows).filterMap (fun group => group.2.head?)

def remind (messages : List MessageId) (dueAt : Option Instant) (now : Instant) : Followed :=
  -- Waits for a reply in each targeted conversation, or with no time stops waiting.
  (store.anchors messages).foldl (fun store (thread, anchor) =>
    match dueAt with
    | some due => store.set thread anchor due now
    | none => store.clear thread) store

/-! ### Filing -/

def mayAnswer (mail : Mail) : Bool :=
  -- A reply, filed somewhere other than the person's own folders and not in Junk.
  (mail.inReplyTo.isSome || !mail.references.isEmpty) &&
    match role with
    | .sent | .drafts | .outbox | .junk => false
    | _ => true

def fromSomebodyElse (mail : Mail) : Bool := mail.source.any (fun sender => !store.own.contains sender)

def answer (filed : List Filed) (now : Instant) (store : Followed) (reminder : ReminderRow) :
    Followed :=
  -- A reply from somebody else cancels the reminder waiting on it, and settles one that had surfaced.
  if filed.any (fun entry => entry.thread = reminder.threadId && mayAnswer role entry.mail &&
      store.fromSomebodyElse entry.mail) then
    if reminder.firedAt.isSome then store.settle reminder.id now else store.cancel reminder.id now
  else store

def answerReminders (filed : List Filed) (now : Instant) : Followed :=
  let threads := (filed.filter (fun entry => mayAnswer role entry.mail)).map Filed.thread
  (store.reminders.rows.filter (fun reminder => threads.contains reminder.threadId && reminder.stands)).foldl
    (answer role filed now) store

def fileUnit (account : AccountId) (filing : Bool) (unit : List Fetched)
    (now : Instant) : Followed :=
  -- One unit of a pass: the messages are stored, threaded, and the arrivals handed to the filing pass.
  let (stored, written) := store.upsertAll unit
  let (threaded, filed) := stored.fileAll now account written
  let arrivals := (filed.filter (fun entry => entry.1.arrival)).map Prod.snd
  let next : Followed := { store with toConversations := threaded }
  if filing then next.answerReminders role arrivals now else next

inductive Event where
  | unit (role : MailboxRole) (account : AccountId) (filing : Bool) (unit : List Fetched)
  | merge (keep absorb : ThreadId)
  | reconsider (account : AccountId) (message : MessageId)
  | expunge (messages : List MessageId)
  | remind (messages : List MessageId) (dueAt : Option Instant)
  | set (thread : ThreadId) (anchor : MessageId) (dueAt : Instant)
  | clear (thread : ThreadId)
  | fire (id : ReminderId)
  | cancel (id : ReminderId)
  | settle (id : ReminderId)

def step (entry : Instant × Event) : Followed :=
  match entry with
  | (now, .unit role account filing unit) => store.fileUnit role account filing unit now
  | (now, .merge keep absorb) => { store with toConversations := store.merge now keep absorb }
  | (now, .reconsider account message) =>
    match store.mails.get message.get with
    | some mail => { store with toConversations := store.toConversations.reconsider now account mail }
    | none => store
  -- A reminder goes with the message it was set on.
  | (_, .expunge messages) =>
    { store with
      mails := store.mails.remove (fun mail => messages.contains mail.id)
      reminders := store.reminders.remove (fun reminder => messages.contains reminder.anchor) }
  | (now, .remind messages dueAt) => store.remind messages dueAt now
  | (now, .set thread anchor dueAt) => store.set thread anchor dueAt now
  | (_, .clear thread) => store.clear thread
  | (now, .fire id) => store.fire id now
  | (now, .cancel id) => store.cancel id now
  | (now, .settle id) => store.settle id now

end Followed

end Postio

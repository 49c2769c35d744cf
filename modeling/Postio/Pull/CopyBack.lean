import Postio.Pull.MailRows

set_option autoImplicit false

namespace Postio.Pull

/-! ### A batch written a unit at a time, and what the store made of it carried back -/

namespace Store

variable (store : Store)

def copyFor (mail : Mail) : Mail :=
  match store.existing mail with
  | some id => { store.reconciled id mail with id }
  | none => { mail with id := ⟨store.messages.nextId⟩ }

/-- `upsertAll`, with the messages as it leaves them. -/
def upsertEach (store : Store) : List Mail -> Option (Store × List Mail)
  | [] => some (store, [])
  | mail :: rest =>
    (store.upsert mail).bind (fun next =>
      (next.upsertEach rest).map (fun written => (written.1, store.copyFor mail :: written.2)))

def upsertBatchInPlace (batch : List Mail) : Option (Store × List Mail) :=
  store.upsertEach (batch.filter store.retained)

/-- The row the store already holds exactly as a message was fetched, if the pass knew the message's UID. -/
def heldAsFetched (mailboxId : MailboxId) (known : List Uid) (message : Mail) : Option Mail :=
  match message.server.uid, message.server.uidValidity with
  | some uid, some validity =>
    if uid ∈ known then
      (store.messages.rows.find? (fun row =>
        row.mailboxId = mailboxId && row.server.uidValidity = some validity && row.server.uid = some uid)).filter
        (fun row => row.threadId.isSome && row.server.remoteId = message.server.remoteId &&
          row.server.modSeq = message.server.modSeq && row.flags = persistable message.flags)
    else none
  | _, _ => none

end Store

/-- Carries the written messages back onto the caller's, in one walk down both. -/
def copyBack : List Mail -> List Mail -> List Mail
  | slice, [] => slice
  | [], _ :: _ => []
  | slot :: slice, candidate :: stored =>
    if candidate.server.remoteId = slot.server.remoteId then candidate :: copyBack slice stored
    else slot :: copyBack slice (candidate :: stored)

/-- One write unit: how many rows it may take, what others have written by the time it has the write lock, and what its own
transaction does after the upsert (threads, correspondents, filing), or none where it fails. -/
structure WriteUnit where
  rows : Nat
  before : Store -> Store
  after : Store -> Option Store

def writeBatch : List WriteUnit -> Store -> List Mail -> Option (Store × List Mail)
  | _, store, [] => some (store, [])
  | [], _, _ :: _ => none
  | unit :: units, store, message :: messages =>
    let rest := message :: messages
    let take := min unit.rows rest.length
    ((unit.before store).upsertBatchInPlace (rest.take take)).bind (fun (stored, written) =>
      (unit.after stored).bind (fun left =>
        (writeBatch units left (rest.drop take)).map (fun (final, others) =>
          (final, copyBack (rest.take take) written ++ others))))

variable (store : Store) (mailboxId : MailboxId) (known : List Uid) (messages : List Mail)

/-- The messages, each marked where the store already holds it, with the id and thread its row has. -/
def unchanged : List (Mail × Bool) :=
  messages.map (fun message =>
    match store.heldAsFetched mailboxId known message with
    | some row => ({ message with id := row.id, threadId := row.threadId }, true)
    | none => (message, false))

/-- The messages that were written, back in their positions. -/
def putBack : List (Mail × Bool) -> List Mail -> List Mail
  | [], _ => []
  | (message, true) :: rest, changed => message :: putBack rest changed
  | (message, false) :: rest, [] => message :: putBack rest []
  | (_, false) :: rest, written :: changed => written :: putBack rest changed

def commitBatch (units : List WriteUnit) (messages : List Mail) :
    Option (Store × List Mail) :=
  let marks := unchanged store mailboxId known messages
  if marks.all (fun mark => !mark.2) then writeBatch units store (marks.map Prod.fst)
  else
    (writeBatch units store ((marks.filter (fun mark => !mark.2)).map Prod.fst)).map (fun (final, changed) =>
      (final, putBack marks changed))

/-! ### What is at each position afterwards -/

def Store.StoredAs (copy : Mail) : Prop :=
  ∃ row, store.get copy.id = some row ∧ (row.body = copy.body ∨ copy.body.state = .headersOnly) ∧
    row = { Store.rowValues copy with body := row.body, sortAt := row.sortAt, snoozedUntil := row.snoozedUntil }

/-- One unit, a position at a time: what the store drops is unchanged, and what it keeps is the copy of that very message, in
a row that stays as the copy says for as long as the unit writes no other message to it. -/
inductive Filed (start : Store) : Store -> List Mail -> List Mail -> List Mail -> Store -> Prop
  | done (here : Store) : Filed start here [] [] [] here
  | dropped (here final : Store) (message : Mail) (rest copies results : List Mail) :
      start.retained message = false -> Filed start here rest copies results final ->
      Filed start here (message :: rest) copies (message :: results) final
  | kept (here next final : Store) (message : Mail) (rest copies results : List Mail) :
      start.retained message = true -> here.upsert message = some next -> next.StoredAs (here.copyFor message) ->
      (final.StoredAs (here.copyFor message) ∨ ∃ later ∈ copies, later.id = (here.copyFor message).id) ->
      Filed start next rest copies results final ->
      Filed start here (message :: rest) (here.copyFor message :: copies) (here.copyFor message :: results) final

/-- The units of a batch, one after the other. -/
inductive WrittenInUnits : List WriteUnit -> Store -> List Mail -> List Mail -> Store -> Prop
  | done (units : List WriteUnit) (store : Store) : WrittenInUnits units store [] [] store
  | unit (unit : WriteUnit) (units : List WriteUnit) (store stored left final : Store)
      (slice copies results rest others : List Mail) :
      Filed (unit.before store) (unit.before store) slice copies results stored -> unit.after stored = some left ->
      WrittenInUnits units left rest others final ->
      WrittenInUnits (unit :: units) store (slice ++ rest) (results ++ others) final

/-- What the store already held as fetched has its row's id and thread, and the rest is what was written. -/
inductive Placed (store : Store) (mailboxId : MailboxId) (known : List Uid) :
    List Mail -> List Mail -> List Mail -> List Mail -> Prop
  | done : Placed store mailboxId known [] [] [] []
  | held (message row : Mail) (messages results pending written : List Mail) :
      store.heldAsFetched mailboxId known message = some row -> store.get row.id = some row ->
      Placed store mailboxId known messages results pending written ->
      Placed store mailboxId known (message :: messages) ({ message with id := row.id, threadId := row.threadId } :: results)
        pending written
  | written (message result : Mail) (messages results pending written : List Mail) :
      store.heldAsFetched mailboxId known message = none ->
      Placed store mailboxId known messages results pending written ->
      Placed store mailboxId known (message :: messages) (result :: results) (message :: pending) (result :: written)

def SameMessage (message result : Mail) : Prop :=
  result = { message with
    id := result.id, threadId := result.threadId, flags := result.flags, labels := result.labels }

/-! ### One unit -/

namespace Store

variable (store : Store) (mail : Mail)

theorem copyFor_same : SameMessage mail (store.copyFor mail) := by
  unfold copyFor SameMessage reconciled
  split
  next => rfl
  next => rfl

theorem SameMessage.server (message result : Mail) (same : SameMessage message result) : result.server = message.server := by
  rw [same]

theorem retained_named (other : Mail) (mailbox : mail.mailboxId = other.mailboxId)
    (remoteId : mail.server.remoteId = other.server.remoteId) : store.retained mail = store.retained other := by
  -- Both retains look at the mailbox and the remote id only.
  unfold retained
  rw [mailbox, remoteId]

theorem written_storedAs (copy stored : Mail) (here : stored.id = copy.id) :
    written copy stored = { rowValues copy with
      body := (written copy stored).body, sortAt := (written copy stored).sortAt,
      snoozedUntil := (written copy stored).snoozedUntil } ∧
    ((written copy stored).body = copy.body ∨ copy.body.state = .headersOnly) := by
  unfold written keepFetchedContent rowValues
  split
  next headers =>
    split
    next => exact ⟨by simp [here], .inl rfl⟩
    next => exact ⟨by simp [here], .inr headers⟩
  next => exact ⟨by simp [here], .inl rfl⟩

theorem upsert_storedAs (next : Store) (done : store.upsert mail = some next) :
    next.StoredAs (store.copyFor mail) ∧ ∀ id, id ≠ (store.copyFor mail).id -> next.get id = store.get id := by
  rcases store.upsert_cases mail next done with ⟨id, row, covers⟩ | fresh
  next =>
    have copy : store.copyFor mail = { store.reconciled id mail with id } := by
      unfold copyFor
      rw [covers.found]
    have named : row.id = id := store.get_id id row covers.held
    have same : Store.written (store.reconciled id mail) row = Store.written (store.copyFor mail) row := by
      rw [copy]
      unfold Store.written keepFetchedContent rowValues
      dsimp only
      split
      next => split <;> rfl
      next => rfl
    have here : (store.copyFor mail).id = id := by rw [copy]
    obtain ⟨shape, body⟩ := written_storedAs (store.copyFor mail) row (named.trans here.symm)
    refine ⟨⟨Store.written (store.copyFor mail) row, ?_, body, shape⟩, ?_⟩
    next => rw [here, covers.here, same]
    next => exact fun other apart => covers.others other (here ▸ apart)
  next =>
    have copy : store.copyFor mail = { mail with id := ⟨store.messages.nextId⟩ } := by
      unfold copyFor
      rw [fresh.unknown]
    refine ⟨⟨inserted mail store.messages.nextId, ?_, ?_, ?_⟩, ?_⟩
    next => rw [copy]; exact fresh.here
    next => rw [copy]; exact .inl rfl
    next => rw [copy]; rfl
    next => exact fun other apart => fresh.others other (by rw [copy] at apart; exact apart)

theorem StoredAs.frame (next : Store) (copy : Mail) (held : store.StoredAs copy)
    (same : next.get copy.id = store.get copy.id) : next.StoredAs copy := by
  obtain ⟨row, here, body, shape⟩ := held
  exact ⟨row, same.trans here, body, shape⟩

theorem upsertEach_cons (rest : List Mail) (final : Store) (copies : List Mail)
    (done : store.upsertEach (mail :: rest) = some (final, copies)) :
    ∃ next others, store.upsert mail = some next ∧ next.upsertEach rest = some (final, others) ∧
      copies = store.copyFor mail :: others := by
  obtain ⟨next, first, last⟩ := Option.bind_eq_some_iff.mp done
  obtain ⟨⟨reached, others⟩, rest_done, same⟩ := Option.map_eq_some_iff.mp last
  cases same
  exact ⟨next, others, first, rest_done, rfl⟩

theorem upsertEach_same (batch : List Mail) (final : Store) (copies : List Mail)
    (done : store.upsertEach batch = some (final, copies)) : List.Forall₂ SameMessage batch copies := by
  induction batch generalizing store copies with
  | nil =>
    cases done
    exact .nil
  | cons mail rest ih =>
    obtain ⟨next, others, _, last, rfl⟩ := store.upsertEach_cons mail rest final copies done
    exact .cons (store.copyFor_same mail) (ih next others last)

theorem upsertEach_storedAs (batch : List Mail) (final : Store) (copies : List Mail)
    (done : store.upsertEach batch = some (final, copies)) (copy : Mail) (held : store.StoredAs copy) :
    final.StoredAs copy ∨ ∃ later ∈ copies, later.id = copy.id := by
  induction batch generalizing store copies with
  | nil =>
    cases done
    exact .inl held
  | cons mail rest ih =>
    obtain ⟨next, others, first, last, rfl⟩ := store.upsertEach_cons mail rest final copies done
    by_cases again : (store.copyFor mail).id = copy.id
    next => exact .inr ⟨_, List.mem_cons_self, again⟩
    next =>
      have frame := (store.upsert_storedAs mail next first).2 copy.id (Ne.symm again)
      rcases ih next others last (held.frame store next copy frame) with kept | ⟨later, inside, same⟩
      next => exact .inl kept
      next => exact .inr ⟨later, List.mem_cons_of_mem _ inside, same⟩

end Store

theorem copyBack_nil (slice : List Mail) : copyBack slice [] = slice := by
  cases slice <;> rfl

theorem copyBack_files (start here final : Store) (mailboxId : MailboxId) (slice copies : List Mail)
    (placed : ∀ message ∈ slice, message.mailboxId = mailboxId)
    (done : here.upsertEach (slice.filter start.retained) = some (final, copies)) :
    Filed start here slice copies (copyBack slice copies) final := by
  induction slice generalizing here copies with
  | nil =>
    cases done
    exact .done _
  | cons message rest ih =>
    have others_placed : ∀ other ∈ rest, other.mailboxId = mailboxId :=
      fun other inside => placed other (List.mem_cons_of_mem _ inside)
    cases keeps : start.retained message with
    | true =>
      rw [List.filter_cons_of_pos keeps] at done
      obtain ⟨next, others, first, last, rfl⟩ := here.upsertEach_cons message _ final copies done
      have server := Store.SameMessage.server _ _ (here.copyFor_same message)
      have walk : copyBack (message :: rest) (here.copyFor message :: others) =
          here.copyFor message :: copyBack rest others := by
        simp only [copyBack, server, if_true]
      have stored := (here.upsert_storedAs message next first).1
      rw [walk]
      exact .kept here next final message rest others _ keeps first stored
        (next.upsertEach_storedAs _ final others last _ stored) (ih next others others_placed last)
    | false =>
      rw [List.filter_cons_of_neg (by simp [keeps])] at done
      have further := ih here copies others_placed done
      have walk : copyBack (message :: rest) copies = message :: copyBack rest copies := by
        cases copies with
        | nil => rw [copyBack_nil, copyBack_nil]
        | cons candidate stored =>
          have other : candidate.server.remoteId ≠ message.server.remoteId := by
            intro same
            obtain ⟨kept, others, isCopy, _, read⟩ := List.forall₂_cons_right_iff.mp (here.upsertEach_same _ final _ done)
            have inside : kept ∈ rest.filter start.retained := read ▸ List.mem_cons_self
            obtain ⟨among, retained⟩ := List.mem_filter.mp inside
            have server := Store.SameMessage.server kept candidate isCopy
            have mailbox : kept.mailboxId = message.mailboxId :=
              (others_placed kept among).trans (placed message List.mem_cons_self).symm
            rw [start.retained_named kept message mailbox (by rw [← server, same]), keeps] at retained
            cases retained
          simp only [copyBack, if_neg other]
      rw [walk]
      exact .dropped here final message rest copies _ keeps further

theorem filed_same (start here final : Store) (slice copies results : List Mail)
    (filed : Filed start here slice copies results final) : List.Forall₂ SameMessage slice results := by
  induction filed with
  | done here => exact .nil
  | dropped here final message rest copies results dropped filed ih => exact .cons rfl ih
  | kept here next final message rest copies results kept done stored stays filed ih =>
    exact .cons (here.copyFor_same message) ih

/-! ### The whole batch -/

theorem writeBatch_units (units : List WriteUnit) (store final : Store) (mailboxId : MailboxId) (messages results : List Mail)
    (placed : ∀ message ∈ messages, message.mailboxId = mailboxId)
    (done : writeBatch units store messages = some (final, results)) :
    WrittenInUnits units store messages results final ∧ List.Forall₂ SameMessage messages results := by
  induction units generalizing store messages results with
  | nil =>
    cases messages with
    | nil =>
      cases done
      exact ⟨.done [] _, .nil⟩
    | cons message messages => cases done
  | cons unit units ih =>
    cases messages with
    | nil =>
      cases done
      exact ⟨.done _ _, .nil⟩
    | cons message messages =>
      unfold writeBatch at done
      extract_lets rest take at done
      obtain ⟨⟨stored, copies⟩, upserted, more⟩ := Option.bind_eq_some_iff.mp done
      obtain ⟨left, settled, more⟩ := Option.bind_eq_some_iff.mp more
      obtain ⟨⟨reached, others⟩, last, same⟩ := Option.map_eq_some_iff.mp more
      cases same
      have taken_placed : ∀ other ∈ rest.take take, other.mailboxId = mailboxId :=
        fun other inside => placed other (List.mem_of_mem_take inside)
      have filed := copyBack_files (unit.before store) (unit.before store) stored mailboxId (rest.take take) copies
        taken_placed upserted
      obtain ⟨written, same⟩ := ih left (rest.drop take) others
        (fun other inside => placed other (List.mem_of_mem_drop inside)) last
      have whole : message :: messages = rest.take take ++ rest.drop take := (List.take_append_drop take rest).symm
      rw [whole]
      exact ⟨.unit unit units store stored left final _ copies _ _ others filed settled written,
        List.rel_append (filed_same _ _ _ _ _ _ filed) same⟩

theorem heldAsFetched_held (message row : Mail)
    (held : store.heldAsFetched mailboxId known message = some row) : store.get row.id = some row := by
  unfold Store.heldAsFetched at held
  split at held
  next =>
    split at held
    next =>
      obtain ⟨found, _⟩ := Option.filter_eq_some_iff.mp held
      exact store.get_of_mem row (List.mem_of_find?_eq_some found)
    next => cases held
  next => cases held

theorem putBack_placed (changed : List Mail) (written : List.Forall₂ SameMessage
      (((unchanged store mailboxId known messages).filter (fun mark => !mark.2)).map Prod.fst) changed) :
    Placed store mailboxId known messages (putBack (unchanged store mailboxId known messages) changed)
      (((unchanged store mailboxId known messages).filter (fun mark => !mark.2)).map Prod.fst) changed ∧
    List.Forall₂ SameMessage messages (putBack (unchanged store mailboxId known messages) changed) := by
  induction messages generalizing changed with
  | nil =>
    cases written
    exact ⟨.done, .nil⟩
  | cons message messages ih =>
    unfold unchanged at written ⊢
    rw [List.map_cons] at written ⊢
    cases held : store.heldAsFetched mailboxId known message with
    | some row =>
      rw [held] at written
      obtain ⟨others, same⟩ := ih changed written
      exact ⟨.held message row messages _ _ changed held (heldAsFetched_held store mailboxId known message row held) others,
        .cons rfl same⟩
    | none =>
      rw [held] at written
      obtain ⟨result, rest, isResult, further, rfl⟩ := List.forall₂_cons_left_iff.mp written
      obtain ⟨others, same⟩ := ih rest further
      exact ⟨.written message result messages _ _ rest held others, .cons isResult same⟩

theorem marks_placed (pending : List Mail) (placed : ∀ message ∈ messages, message.mailboxId = mailboxId)
    (read : pending = ((unchanged store mailboxId known messages).filter (fun mark => !mark.2)).map Prod.fst) :
    ∀ message ∈ pending, message.mailboxId = mailboxId := by
  intro message inside
  rw [read] at inside
  obtain ⟨mark, among, rfl⟩ := List.mem_map.mp inside
  obtain ⟨other, origin, same⟩ := List.mem_map.mp (List.mem_filter.mp among).1
  rw [← same]
  split
  next => exact placed other origin
  next => exact placed other origin

theorem putBack_written (marks : List (Mail × Bool)) (changed : List Mail) (unmarked : ∀ mark ∈ marks, mark.2 = false)
    (fits : changed.length = marks.length) : putBack marks changed = changed := by
  induction marks generalizing changed with
  | nil => simp [putBack, List.length_eq_zero_iff.mp fits]
  | cons mark marks ih =>
    obtain ⟨message, marked⟩ := mark
    obtain rfl : marked = false := unmarked _ List.mem_cons_self
    cases changed with
    | nil => cases fits
    | cons written changed =>
      simp only [putBack]
      rw [ih changed (fun mark inside => unmarked mark (List.mem_cons_of_mem _ inside)) (by simpa using fits)]

/-- After `commit_batch`, every message is at its own position: with its row's id and thread where the store held it as it was
fetched, unchanged where the store dropped it, and otherwise as the copy of that message that the store wrote. -/
theorem commitBatch_places (final : Store) (mailboxId : MailboxId) (known : List Uid) (units : List WriteUnit)
    (messages results : List Mail) (fetched : ∀ message ∈ messages, message.mailboxId = mailboxId)
    (done : commitBatch store mailboxId known units messages = some (final, results)) :
    (∃ pending written, Placed store mailboxId known messages results pending written ∧
      WrittenInUnits units store pending written final) ∧
    List.Forall₂ SameMessage messages results := by
  unfold commitBatch at done
  extract_lets marks at done
  have pending_placed := marks_placed store mailboxId known messages _ fetched rfl
  split at done
  next none =>
    have unmarked : ∀ mark ∈ marks, mark.2 = false := by simpa using none
    have all : marks.filter (fun mark => !mark.2) = marks := List.filter_eq_self.mpr (by simpa using unmarked)
    have placed := putBack_placed store mailboxId known messages results
    change List.Forall₂ _ ((marks.filter _).map _) _ -> Placed _ _ _ _ (putBack marks _) ((marks.filter _).map _) _ ∧ _ at placed
    change ∀ message ∈ (marks.filter _).map _, _ at pending_placed
    rw [all] at placed pending_placed
    obtain ⟨written, same⟩ := writeBatch_units units store final mailboxId _ results pending_placed done
    have fits : results.length = marks.length := by simpa using same.length_eq.symm
    have whole := placed same
    change _ ∧ List.Forall₂ _ _ (putBack marks results) at whole
    rw [putBack_written marks results unmarked fits] at whole
    exact ⟨⟨_, _, whole.1, written⟩, whole.2⟩
  next =>
    obtain ⟨⟨reached, changed⟩, ran, same⟩ := Option.map_eq_some_iff.mp done
    cases same
    obtain ⟨written, same⟩ := writeBatch_units units store final mailboxId _ changed pending_placed ran
    obtain ⟨placed, whole⟩ := putBack_placed store mailboxId known messages changed same
    exact ⟨⟨_, _, placed, written⟩, whole⟩

/-! A folder of drafts of which the server lists a copy this client put there, and one message twice. -/

def inDrafts (remoteId : Nat) (uid : Uid) (flags : FlagSet) : Mail :=
  ({ uid, uidValidity := ⟨1⟩, modSeq := none, remoteId := ⟨remoteId⟩, flags, internalDate := 5, size := 1,
     envelope := none, bodyStructure := none } : FetchedMessage).intoMessage ⟨1⟩ ⟨1⟩

def drafting : Store :=
  { messages := Table.empty _
    queue := OperationQueue.empty
    drafts := [{ accountId := ⟨1⟩, messageId := none, remoteId := some ⟨8⟩ }]
    mailboxes := [{ id := ⟨1⟩, accountId := ⟨1⟩, role := .drafts, path := [], selectable := true }] }

def listed : List Mail := [inDrafts 7 3 ∅, inDrafts 8 2 ∅, inDrafts 9 1 ∅, inDrafts 9 1 {.seen}]

def oneUnit : WriteUnit := { rows := 4, before := fun store => store, after := some }

def filedDrafts : Store × List Mail := (commitBatch drafting ⟨1⟩ [] [oneUnit] listed).getD (drafting, [])

/-- The own copy keeps its place and has no row, and the message listed twice has one row. -/
theorem drafts_placed :
    filedDrafts.2.map (fun mail => mail.id) = [⟨1⟩, ⟨0⟩, ⟨2⟩, ⟨2⟩] ∧ List.Forall₂ SameMessage listed filedDrafts.2 :=
  ⟨by decide, (commitBatch_places drafting filedDrafts.1 ⟨1⟩ [] [oneUnit] listed filedDrafts.2 (by decide) rfl).2⟩

end Postio.Pull

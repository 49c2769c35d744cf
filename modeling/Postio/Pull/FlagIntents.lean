import Mathlib.Data.Finset.SDiff
import Postio.Pull.MailRows

set_option autoImplicit false

namespace Postio.Pull

theorem persistable_idem (flags : FlagSet) : persistable (persistable flags) = persistable flags := by
  simp [persistable]

namespace Store

/-! ### What a pull reports of a row -/

variable (counted : MessageId -> Prop) (store : Store) (report : List FetchedMessage)
    (updates : List (MessageId × FlagSet)) (batch : List Mail) (next : Store) (mail : Mail) (id : MessageId)
    (after : Store) (other : Mail) (remoteId : RemoteId) (row : Mail)

def reports : List (MessageId × FlagSet) :=
  (store.landings batch).map (fun landed => (landed.1, landed.2.flags))

def lastReport (reported : List (MessageId × FlagSet)) : Option FlagSet := lastFor id reported

theorem mergedFlags_congr (queue : after.queue = store.queue) (id : MessageId) (flags : FlagSet) :
    after.mergedFlags id flags = store.mergedFlags id flags := by rw [mergedFlags, mergedFlags, queue]

theorem written_flags (mail row : Mail) :
    (written (store.reconciled id mail) row).flags = store.mergedFlags id mail.flags := by
  unfold written rowValues keepFetchedContent
  split
  next =>
    split
    next => rfl
    next => rfl
  next => rfl

theorem upsertAll_flags (done : store.upsertAll batch = some after)
    (id : MessageId) (row : Mail) (held : store.get id = some row) :
    ∃ later, after.get id = some later ∧
      later.flags = (lastReport id (store.reports batch)).elim row.flags (store.mergedFlags id) := by
  obtain ⟨past, onto⟩ := upsertAll_landed (fun mail row => row.flags = store.mergedFlags id mail.flags) id store.queue True
    (fun middle mail old _ queue _ =>
      (middle.written_flags id mail old).trans (store.mergedFlags_congr middle queue id mail.flags))
    (fun mail fresh => absurd trivial fresh) batch store after rfl done (fun _ => by simp [held])
  unfold lastReport reports
  rw [lastFor_map]
  cases landed : lastFor id (store.landings batch) with
  | none => exact ⟨row, (past landed).trans held, rfl⟩
  | some mail => exact onto mail landed

/-! ### The flag sweep's write -/

def corrected (server : FlagSet) : Mail :=
  if persistable row.flags = store.mergedFlags id server then row
  else { row with flags := store.mergedFlags id server, sync := { row.sync with flagsDirty := false } }

theorem get_setServerFlags (flags : FlagSet) (other : MessageId) : (store.setServerFlags id flags).get other =
      if other = id then (store.get id).map (fun row =>
        { row with flags := persistable flags, sync := { row.sync with flagsDirty := false } })
      else store.get other := by
  have now := store.messages.get_updateAt id.get (fun row =>
    { row with flags := persistable flags, sync := { row.sync with flagsDirty := false } }) (fun _ => rfl) other.get
  by_cases same : other = id
  next =>
    subst same
    rw [if_pos rfl] at now ⊢
    exact now
  next =>
    rw [if_neg same]
    rw [if_neg (get_ne id other same)] at now
    exact now

theorem mergedFlags_persistable (flags : FlagSet) :
    persistable (store.mergedFlags id flags) = store.mergedFlags id flags := persistable_idem _

def reportsFor (updates : List (MessageId × FlagSet)) : List FlagSet :=
  (updates.filter (fun update => update.1 = id)).map (fun update => update.2)

theorem applyServerFlags_queue : (store.applyServerFlags updates).1.queue = store.queue:= by
  induction updates generalizing store with
  | nil => rfl
  | cons update rest ih =>
    unfold applyServerFlags
    split
    next => exact ih store
    next row _ =>
      split
      next => exact ih store
      next => exact ih (store.setServerFlags update.1 (store.mergedFlags update.1 update.2))

theorem applyServerFlags_get : (store.applyServerFlags updates).1.get id =
      (store.get id).map (fun row => (reportsFor id updates).foldl (store.corrected id) row) := by
  induction updates generalizing store with
  | nil => simp [applyServerFlags, reportsFor]
  | cons update rest ih =>
    obtain ⟨named, server⟩ := update
    by_cases same : named = id
    next =>
      subst same
      have told : reportsFor named ((named, server) :: rest) = server :: reportsFor named rest := by simp [reportsFor]
      rw [told]
      unfold applyServerFlags
      cases held : store.get named with
      | none => simp [ih store, held]
      | some row =>
        dsimp only
        by_cases settled : persistable row.flags = store.mergedFlags named server
        next => simp [ih store, held, corrected, settled]
        next =>
          rw [if_neg settled]
          have now := get_setServerFlags store named (store.mergedFlags named server) named
          rw [if_pos rfl, held] at now
          have words : (store.setServerFlags named (store.mergedFlags named server)).corrected named =
              store.corrected named := rfl
          rw [ih, now, words]
          simp [corrected, settled, mergedFlags_persistable]
    next =>
      have told : reportsFor id ((named, server) :: rest) = reportsFor id rest := by simp [reportsFor, same]
      rw [told]
      unfold applyServerFlags
      cases held : store.get named with
      | none => exact ih store
      | some row =>
        dsimp only
        by_cases settled : persistable row.flags = store.mergedFlags named server
        next =>
          rw [if_pos settled]
          exact ih store
        next =>
          rw [if_neg settled]
          have now := get_setServerFlags store named (store.mergedFlags named server) id
          rw [if_neg (Ne.symm same)] at now
          have words : (store.setServerFlags named (store.mergedFlags named server)).corrected id = store.corrected id :=
            rfl
          rw [ih, now, words]

theorem corrected_cases (reported : List FlagSet) (row : Mail) : (reported.foldl (store.corrected id) row = row ∧
        ∀ server ∈ reported, store.mergedFlags id server = persistable row.flags) ∨
      ∃ last, reported.getLast? = some last ∧
        reported.foldl (store.corrected id) row =
          { row with flags := store.mergedFlags id last, sync := { row.sync with flagsDirty := false } } := by
  -- Either every report agrees with the row and nothing is written, or the row ends with the last one.
  induction reported using List.reverseRecOn with
  | nil => exact .inl ⟨rfl, by simp⟩
  | append_singleton earlier server ih =>
    rw [List.foldl_append, List.foldl_cons, List.foldl_nil]
    rcases ih with ⟨same, agree⟩ | ⟨last, _, same⟩
    next =>
      rw [same]
      by_cases settled : persistable row.flags = store.mergedFlags id server
      next =>
        left
        refine ⟨by simp [corrected, settled], ?_⟩
        intro other member
        rcases List.mem_append.mp member with before | here
        next => exact agree other before
        next =>
          cases List.mem_singleton.mp here
          exact settled.symm
      next =>
        right
        exact ⟨server, by simp, by simp [corrected, settled]⟩
    next =>
      right
      refine ⟨server, by simp, ?_⟩
      rw [same]
      by_cases settled : persistable (store.mergedFlags id last) = store.mergedFlags id server
      next =>
        rw [mergedFlags_persistable] at settled
        simp [corrected, mergedFlags_persistable, settled]
      next => simp [corrected, settled]

theorem corrected_again (reported : List FlagSet) (row : Mail) :
    reported.foldl (store.corrected id) (reported.foldl (store.corrected id) row) =
      reported.foldl (store.corrected id) row := by
  -- Reported twice over, a row is left as the first time left it.
  rcases store.corrected_cases id reported row with ⟨same, _⟩ | ⟨last, ends, same⟩
  next => rw [same, same]
  next =>
    rw [same]
    rcases store.corrected_cases id reported
      { row with flags := store.mergedFlags id last, sync := { row.sync with flagsDirty := false } } with
      ⟨still, _⟩ | ⟨other, also, still⟩
    next => exact still
    next =>
      rw [ends] at also
      cases also
      exact still

/-! ### A report pulled again -/

/-- A message stands in its row, under its name. In the rows counted, it stands as writing it once more would leave it. -/
structure Settled (counted : MessageId -> Prop) (store : Store) (mail : Mail) (remoteId : RemoteId) (id : MessageId)
    (row : Mail) : Prop where
  named : mail.server.remoteId = some remoteId
  found : store.findByRemoteId mail.mailboxId remoteId = some id
  held : store.get id = some row
  free : store.uidTaken id mail = false
  server : row.server = mail.server
  mailboxId : row.mailboxId = mail.mailboxId
  fixed : counted id -> written (store.reconciled id mail) row = row

theorem written_server : (written mail row).server = mail.server := by
  unfold written rowValues keepFetchedContent
  split
  next =>
    split
    next => rfl
    next => rfl
  next => rfl

theorem written_mailboxId : (written mail row).mailboxId = mail.mailboxId := by
  unfold written rowValues keepFetchedContent
  split
  next =>
    split
    next => rfl
    next => rfl
  next => rfl

theorem existing_named (id : MessageId)
    (named : mail.server.remoteId = some remoteId) (found : store.findByRemoteId mail.mailboxId remoteId = some id) :
    store.existing mail = some id := by
  have known : store.known mail = some id := by
    unfold known
    rw [named, Option.bind_some, found]
  unfold existing
  rw [known]

theorem writeUpdate_fixed (mail row : Mail) (held : store.get id = some row)
    (free : store.uidTaken id mail = false) (fixed : written mail row = row) :
    store.writeUpdate id mail = some store := by
  have same : store.messages.updateAt id.get (written mail) (fun _ => rfl) = store.messages := by
    have rows : store.messages.rows.map (fun row => if row.id.get = id.get then written mail row else row) =
        store.messages.rows := by
      conv_rhs => rw [← List.map_id store.messages.rows]
      apply List.map_congr_left
      intro other member
      by_cases named : other.id.get = id.get
      next =>
        have there := (store.messages.get_eq_some id.get other).mpr ⟨member, named⟩
        cases held.symm.trans there
        rw [if_pos named, fixed]
        rfl
      next =>
        rw [if_neg named]
        rfl
    cases store with
    | mk messages queue drafts mailboxes =>
      cases messages with
      | mk table nextId ordered issued =>
        simp only [Table.updateAt, Table.update]
        congr
  unfold writeUpdate
  rw [if_neg (by simp [held, free]), same]

theorem upsert_settled (id : MessageId) (row : Mail) (settled : Settled counted store mail remoteId id row) (counts : counted id) :
    store.upsert mail = some store := by
  unfold upsert
  rw [store.existing_named mail remoteId id settled.named settled.found]
  exact store.writeUpdate_fixed id (store.reconciled id mail) row settled.held settled.free (settled.fixed counts)

theorem upsert_named (id : MessageId) (row : Mail) (settled : Settled counted store mail remoteId id row) :
    ∃ next, store.upsert mail = some next ∧ ∃ old, Written store mail id old next := by
  have found := store.existing_named mail remoteId id settled.named settled.found
  have done : store.upsert mail = store.writeUpdate id (store.reconciled id mail) := by
    unfold upsert
    rw [found]
  cases result : store.writeUpdate id (store.reconciled id mail) with
  | none =>
    unfold writeUpdate at result
    rw [if_neg (by simp [settled.held, uidTaken_reconciled, settled.free])] at result
    cases result
  | some next => exact ⟨next, done.trans result, store.writeUpdate_written mail id next found result⟩

theorem written_labels : (written mail row).labels = mail.labels := by
  unfold written rowValues keepFetchedContent
  split
  next =>
    split
    next => rfl
    next => rfl
  next => rfl

theorem reconciled_again (mail row : Mail) (held : store.get id = some row)
    (now : next.get id = some (written (store.reconciled id mail) row)) (queue : next.queue = store.queue) :
    next.reconciled id mail = store.reconciled id mail := by
  unfold reconciled
  rw [queue, now, held]
  simp only [Option.elim_some, written_labels]
  by_cases silent : mail.labels = ∅
  next => simp [reconciled, silent, held]
  next => simp [silent]

theorem written_written : written mail (written mail row) = written mail row := by
  -- A content already fetched is kept the second time as it was the first.
  have once : ∀ stored : Mail, written mail stored =
      { rowValues mail with
        body := (keepFetchedContent stored mail).body
        id := stored.id, sortAt := max stored.sortAt mail.receivedAt, snoozedUntil := stored.snoozedUntil } := by
    intro stored
    unfold written keepFetchedContent
    split
    next =>
      split
      next => rfl
      next => rfl
    next => rfl
  rw [once (written mail row), once row]
  have body : (keepFetchedContent
      { rowValues mail with
        body := (keepFetchedContent row mail).body
        id := row.id, sortAt := max row.sortAt mail.receivedAt, snoozedUntil := row.snoozedUntil } mail).body =
      (keepFetchedContent row mail).body := by
    unfold keepFetchedContent
    by_cases refresh : mail.body.state = .headersOnly
    next =>
      by_cases bare : row.body.state = .headersOnly
      next => simp [refresh, bare]
      next => simp [refresh, bare]
    next => simp [refresh]
  simp [body]

theorem written_settled (id : MessageId) (row : Mail) (named : mail.server.remoteId = some remoteId) (covers : Written store mail id row next) :
    Settled counted next mail remoteId id (written (store.reconciled id mail) row) := by
  have server : (written (store.reconciled id mail) row).server = mail.server := written_server _ _
  have mailbox : (written (store.reconciled id mail) row).mailboxId = mail.mailboxId := written_mailboxId _ _
  refine ⟨named, ?_, covers.here, ?_, server, mailbox, fun _ => ?_⟩
  next =>
    apply (next.find_eq_some _ id).mpr
    refine ⟨⟨_, covers.here, by simp [server, mailbox, named]⟩, ?_⟩
    intro other later there fits
    by_cases same : other = id
    next => rw [same]
    next =>
      -- another row under this name was there before, and the lookup by name took the lowest
      rw [covers.others other same] at there
      cases byName : store.findByRemoteId mail.mailboxId remoteId with
      | none =>
        have missed := (store.find_eq_none _).mp byName other later there
        exact absurd (missed.symm.trans fits) (by decide)
      | some first =>
        have taken := covers.found.symm.trans (store.existing_named mail remoteId first named byName)
        cases taken
        exact ((store.find_eq_some _ id).mp byName).2 other later there fits
  next =>
    have free := covers.free
    unfold uidTaken at free ⊢
    rw [List.any_eq_false] at free ⊢
    intro other member
    by_cases same : other.id = id
    next => simp [same]
    next =>
      have there := next.get_of_mem other member
      rw [covers.others other.id same] at there
      exact free other (store.get_mem other.id other there)
  next =>
    rw [reconciled_again store next id mail row covers.held covers.here covers.queue]
    exact written_written _ _

theorem existing_unnamed (named : mail.server.remoteId = some remoteId) (unknown : store.existing mail = none) (id : MessageId) (row : Mail)
    (held : store.get id = some row) : (row.mailboxId = mail.mailboxId && row.server.remoteId = some remoteId) = false := by
  cases byName : store.findByRemoteId mail.mailboxId remoteId with
  | none => exact (store.find_eq_none _).mp byName id row held
  | some first =>
    have taken := unknown.symm.trans (store.existing_named mail remoteId first named byName)
    cases taken

theorem inserted_written (id : Nat) (bare : unacknowledged store.queue ⟨id⟩ = [])
    (held : store.get ⟨id⟩ = some (inserted mail id)) :
    written (store.reconciled ⟨id⟩ mail) (inserted mail id) = inserted mail id := by
  have same : store.reconciled ⟨id⟩ mail = mail := by
    unfold reconciled
    rw [bare, held]
    by_cases silent : mail.labels = ∅
    next =>
      simp only [withUnacknowledged, List.foldl_nil, Option.elim_some, inserted, rowValues, silent, if_true]
      rw [← silent]
    next => simp [withUnacknowledged, silent]
  rw [same]
  have body : keepFetchedContent (inserted mail id) mail = mail := by
    unfold keepFetchedContent
    by_cases refresh : mail.body.state = .headersOnly
    next => simp [refresh, inserted, rowValues]
    next => simp [refresh]
  unfold written
  rw [body]
  simp [inserted]

theorem inserted_settled (named : mail.server.remoteId = some remoteId)
    (bare : counted ⟨store.messages.nextId⟩ -> unacknowledged store.queue ⟨store.messages.nextId⟩ = [])
    (fresh : Inserted store mail next) :
    Settled counted next mail remoteId ⟨store.messages.nextId⟩ (inserted mail store.messages.nextId) := by
  refine ⟨named, ?_, fresh.here, ?_, rfl, rfl, fun counts => ?_⟩
  next =>
    apply (next.find_eq_some _ _).mpr
    refine ⟨⟨_, fresh.here, by simp [inserted, rowValues, named]⟩, ?_⟩
    intro other later there fits
    by_cases same : other = ⟨store.messages.nextId⟩
    next => rw [same]
    next =>
      rw [fresh.others other same] at there
      have missed := store.existing_unnamed mail remoteId named fresh.unknown other later there
      exact absurd (missed.symm.trans fits) (by decide)
  next =>
    have free := fresh.free
    unfold uidTaken at free ⊢
    rw [List.any_eq_false] at free ⊢
    intro other member
    by_cases same : other.id = ⟨store.messages.nextId⟩
    next => simp [same]
    next =>
      have there := next.get_of_mem other member
      rw [fresh.others other.id same] at there
      exact free other (store.get_mem other.id other there)
  next =>
    have quiet := bare counts
    rw [← fresh.queue] at quiet
    exact next.inserted_written mail store.messages.nextId quiet fresh.here

/-! ### Messages with names of their own -/

structure Apart (mail other : Mail) : Prop where
  names : mail.server.remoteId ≠ other.server.remoteId
  uids : ¬ (mail.server.uid = other.server.uid ∧ mail.server.uidValidity = other.server.uidValidity)

theorem Apart.symm (apart : Apart mail other) : Apart other mail :=
  ⟨apart.names.symm, fun same => apart.uids ⟨same.1.symm, same.2.symm⟩⟩

theorem existing_apart (id : MessageId) (row : Mail) (settled : Settled counted store mail remoteId id row) (apart : Apart mail other) :
    store.existing other ≠ some id := by
  -- A message of another name is not written over this one's row.
  intro found
  have away : ¬ row.server.remoteId = other.server.remoteId := by
    rw [settled.server]
    exact apart.names
  have server : row.server.remoteId = some remoteId := by
    rw [settled.server]
    exact settled.named
  unfold existing at found
  split at found
  next byServer =>
    cases found
    unfold known at byServer
    split at byServer
    next byName =>
      cases byServer
      obtain ⟨otherId, same, taken⟩ := Option.bind_eq_some_iff.mp byName
      obtain ⟨there, held, fits⟩ := store.find_held _ _ taken
      cases settled.held.symm.trans held
      simp only [Bool.and_eq_true, decide_eq_true_eq] at fits
      exact away (fits.2.trans same.symm)
    next uid validity byUid _ _ =>
      obtain ⟨there, held, fits⟩ := store.find_held _ _ byServer
      cases settled.held.symm.trans held
      simp only [Bool.and_eq_true, decide_eq_true_eq, settled.server] at fits
      apply apart.uids
      simp_all
    next => cases byServer
  next =>
    obtain ⟨there, held, fits⟩ := store.find_held _ _ found
    cases settled.held.symm.trans held
    simp [awaits, server] at fits
  next =>
    obtain ⟨there, held, fits⟩ := store.find_held _ _ found
    cases settled.held.symm.trans held
    simp [awaits, server] at fits

theorem settled_kept (id : MessageId) (row : Mail) (settled : Settled counted store mail remoteId id row) (apart : Apart mail other)
    (placed : MessageId) (elsewhere : placed ≠ id) (now : Mail) (here : next.get placed = some now)
    (server : now.server = other.server)
    (others : ∀ another, another ≠ placed -> next.get another = store.get another) (queue : next.queue = store.queue) :
    Settled counted next mail remoteId id row := by
  -- Writing a message of another name leaves this one as it stands.
  have held : next.get id = some row := (others id (Ne.symm elsewhere)).trans settled.held
  refine ⟨settled.named, ?_, held, ?_, settled.server, settled.mailboxId, fun counts => ?_⟩
  next =>
    apply (next.find_eq_some _ id).mpr
    refine ⟨⟨row, held, by simp [settled.server, settled.mailboxId, settled.named]⟩, ?_⟩
    intro another later there fits
    by_cases same : another = placed
    next =>
      subst same
      cases here.symm.trans there
      simp only [server, Bool.and_eq_true, decide_eq_true_eq] at fits
      exact absurd (settled.named.trans fits.2.symm) apart.names
    next =>
      rw [others another same] at there
      exact ((store.find_eq_some _ id).mp settled.found).2 another later there fits
  next =>
    have free := settled.free
    unfold uidTaken at free ⊢
    rw [List.any_eq_false] at free ⊢
    intro another member
    have there := next.get_of_mem another member
    by_cases same : another.id = placed
    next =>
      rw [same] at there
      cases here.symm.trans there
      have uids := apart.uids
      rw [server]
      grind
    next =>
      rw [others another.id same] at there
      exact free another (store.get_mem another.id another there)
  next =>
    have same : next.reconciled id mail = store.reconciled id mail := by
      unfold reconciled
      rw [queue, held, settled.held]
    rw [same]
    exact settled.fixed counts

theorem settled_upsert (id : MessageId) (row : Mail) (settled : Settled counted store mail remoteId id row) (apart : Apart mail other)
    (step : store.upsert other = some next) : Settled counted next mail remoteId id row := by
  rcases store.upsert_cases other next step with ⟨placed, old, covers⟩ | fresh
  next =>
    have elsewhere : placed ≠ id := by
      intro same
      exact store.existing_apart counted mail other remoteId id row settled apart (same ▸ covers.found)
    exact settled_kept counted store next mail other remoteId id row settled apart placed elsewhere _ covers.here
      (written_server _ _) covers.others covers.queue
  next =>
    have elsewhere : ⟨store.messages.nextId⟩ ≠ id := by
      intro same
      have held := settled.held
      rw [← same, store.get_next] at held
      cases held
    exact settled_kept counted store next mail other remoteId id row settled apart _ elsewhere _ fresh.here rfl
      fresh.others fresh.queue

theorem upsertAll_settled (store after : Store)
    (apart : batch.Pairwise Apart) (named : ∀ mail ∈ batch, mail.server.remoteId.isSome)
    (bare : ∀ id, counted id -> store.get id = none -> unacknowledged store.queue id = [])
    (done : store.upsertAll batch = some after) (mail : Mail) (member : mail ∈ batch) :
    ∃ remoteId id row, Settled counted after mail remoteId id row := by
  -- After a batch whose messages the server tells apart, every one of them is settled.
  induction batch generalizing store with
  | nil => cases member
  | cons first rest ih =>
    obtain ⟨next, step, last⟩ := store.upsertAll_cons first rest after done
    obtain ⟨ahead, behind⟩ := List.pairwise_cons.mp apart
    have queue := store.upsert_queue first next step
    rcases List.mem_cons.mp member with here | later
    next =>
      subst here
      obtain ⟨remoteId, name⟩ := Option.isSome_iff_exists.mp (named mail (List.mem_cons_self ..))
      have settled : ∃ id row, Settled counted next mail remoteId id row := by
        rcases store.upsert_cases mail next step with ⟨id, row, covers⟩ | fresh
        next => exact ⟨id, _, written_settled counted store next mail remoteId id row name covers⟩
        next =>
          exact ⟨_, _, inserted_settled counted store next mail remoteId name
            (fun counts => bare _ counts store.get_next) fresh⟩
      have kept := upsertAll_invariant (fun now => ∃ id row, Settled counted now mail remoteId id row) rest
        (fun middle other now inside wrote holds => by
          obtain ⟨id, row, holds⟩ := holds
          exact ⟨id, row, settled_upsert counted middle now mail other remoteId id row holds (ahead other inside) wrote⟩)
        next after last settled
      exact ⟨remoteId, kept⟩
    next =>
      refine ih next behind (fun other inside => named other (List.mem_cons_of_mem first inside)) ?_ last later
      intro id counts missing
      rw [queue]
      apply bare id counts
      rcases store.upsert_cases first next step with ⟨placed, row, covers⟩ | fresh
      next =>
        by_cases same : id = placed
        next =>
          rw [same, covers.here] at missing
          cases missing
        next => exact (covers.others id same).symm.trans missing
      next =>
        by_cases same : id = ⟨store.messages.nextId⟩
        next =>
          rw [same, fresh.here] at missing
          cases missing
        next => exact (fresh.others id same).symm.trans missing

theorem upsertAll_again (store : Store) (apart : batch.Pairwise Apart)
    (settled : ∀ mail ∈ batch, ∃ remoteId id row, Settled counted store mail remoteId id row) :
    ∃ again, store.upsertAll batch = some again ∧ ∀ id, counted id -> again.get id = store.get id := by
  -- A batch already settled goes through, and the rows counted do not change.
  induction batch generalizing store with
  | nil => exact ⟨store, rfl, fun _ _ => rfl⟩
  | cons first rest ih =>
    obtain ⟨ahead, behind⟩ := List.pairwise_cons.mp apart
    obtain ⟨remoteId, id, row, here⟩ := settled first (List.mem_cons_self ..)
    obtain ⟨next, step, old, covers⟩ := upsert_named counted store first remoteId id row here
    have rows : ∀ other, counted other -> next.get other = store.get other := by
      intro other counts
      by_cases same : other = id
      next =>
        subst same
        have still := store.upsert_settled counted first remoteId other row here counts
        rw [step] at still
        cases still
        rfl
      next => exact covers.others other same
    have kept : ∀ mail ∈ rest, ∃ remoteId id row, Settled counted next mail remoteId id row := by
      intro mail member
      obtain ⟨name, place, stored, holds⟩ := settled mail (List.mem_cons_of_mem first member)
      exact ⟨name, place, stored, settled_upsert counted store next mail first name place stored holds
        (Apart.symm first mail (ahead mail member)) step⟩
    obtain ⟨again, last, same⟩ := ih next behind kept
    refine ⟨again, ?_, fun other counts => (same other counts).trans (rows other counts)⟩
    unfold upsertAll
    rw [step]
    exact last

/-! ### Every report, through either write -/

def NamedOnce : Prop :=
  report.Pairwise (fun message other =>
    message.remoteId ≠ other.remoteId ∧ ¬ (message.uid = other.uid ∧ message.uidValidity = other.uidValidity))

theorem namedOnce_apart (accountId : AccountId) (mailboxId : MailboxId)
    (once : NamedOnce report) : (report.map (fun message => message.intoMessage accountId mailboxId)).Pairwise Apart := by
  apply List.pairwise_map.mpr
  apply once.imp
  intro message other apart
  exact ⟨fun same => apart.1 (Option.some.inj same),
    fun same => apart.2 ⟨Option.some.inj same.1, Option.some.inj same.2⟩⟩

theorem upsertBatch_flags (done : store.upsertBatch batch = some after)
    (id : MessageId) (row : Mail) (held : store.get id = some row) :
    ∃ later, after.get id = some later ∧ persistable later.flags =
      (lastReport id (store.reports (batch.filter store.retained))).elim (persistable row.flags)
        (store.mergedFlags id) := by
  obtain ⟨later, now, flags⟩ := store.upsertAll_flags (batch.filter store.retained) after done id row held
  refine ⟨later, now, ?_⟩
  rw [flags]
  cases lastReport id (store.reports (batch.filter store.retained)) with
  | none => rfl
  | some report => exact store.mergedFlags_persistable id report

theorem lastReport_reportsFor (updates : List (MessageId × FlagSet)) :
    lastReport id updates = (reportsFor id updates).getLast? := rfl

theorem applyServerFlags_flags (held : store.get id = some row) :
    ∃ later, (store.applyServerFlags updates).1.get id = some later ∧ persistable later.flags =
      (lastReport id updates).elim (persistable row.flags) (store.mergedFlags id) := by
  rw [applyServerFlags_get, held, lastReport_reportsFor]
  refine ⟨_, rfl, ?_⟩
  dsimp only
  rcases store.corrected_cases id (reportsFor id updates) row with ⟨same, agree⟩ | ⟨last, ends, same⟩
  next =>
    rw [same]
    cases ends : (reportsFor id updates).getLast? with
    | none => rfl
    | some last => exact (agree last (List.mem_of_getLast? ends)).symm
  next =>
    rw [same, ends]
    exact store.mergedFlags_persistable id last

theorem applyServerFlags_again :
    ((store.applyServerFlags updates).1.applyServerFlags updates).1.get id = (store.applyServerFlags updates).1.get id := by
  have words : (store.applyServerFlags updates).1.corrected id = store.corrected id := by
    funext row server
    unfold corrected mergedFlags
    rw [store.applyServerFlags_queue updates]
  rw [applyServerFlags_get, applyServerFlags_get, words]
  cases store.get id with
  | none => rfl
  | some row => exact congrArg some (store.corrected_again id (reportsFor id updates) row)

/-! ### The flag sweep -/

theorem upsertBatch_again (accountId : AccountId) (mailboxId : MailboxId) (report : List FetchedMessage)
    (once : NamedOnce report) (after : Store)
    (done : store.upsertBatch (report.map (fun message => message.intoMessage accountId mailboxId)) = some after) :
    ∃ again, after.upsertBatch (report.map (fun message => message.intoMessage accountId mailboxId)) = some again ∧
      ∀ id, (store.get id).isSome ∨ unacknowledged store.queue id = [] -> again.get id = after.get id := by
  have apart := (namedOnce_apart report accountId mailboxId once).filter store.retained
  have settled := upsertAll_settled (fun id => (store.get id).isSome ∨ unacknowledged store.queue id = []) _ store after
    apart
    (by
      intro mail member
      obtain ⟨message, -, rfl⟩ := List.mem_map.mp (List.mem_of_mem_filter member)
      rfl)
    (by
      intro id counts missing
      rcases counts with held | quiet
      next => simp [missing] at held
      next => exact quiet)
    done
  obtain ⟨again, last, same⟩ := upsertAll_again _ _ after apart settled
  refine ⟨again, ?_, same⟩
  unfold upsertBatch
  rw [store.upsertAll_retained _ after done]
  exact last

/-- A pull never loses what the user did to a flag, through either write, and saying it again changes nothing. -/
theorem intents_kept : (∀ batch after id row, store.upsertBatch batch = some after -> store.get id = some row ->
      ∃ later, after.get id = some later ∧ persistable later.flags =
        (lastReport id (store.reports (batch.filter store.retained))).elim (persistable row.flags)
          (fun server => persistable (withUnacknowledged server (unacknowledged store.queue id)))) ∧
    (∀ updates id row, store.get id = some row ->
      ∃ later, (store.applyServerFlags updates).1.get id = some later ∧ persistable later.flags =
        (lastReport id updates).elim (persistable row.flags)
          (fun server => persistable (withUnacknowledged server (unacknowledged store.queue id)))) ∧
    (∀ accountId mailboxId report after, NamedOnce report ->
      store.upsertBatch (report.map (fun message => message.intoMessage accountId mailboxId)) = some after ->
      ∃ again, after.upsertBatch (report.map (fun message => message.intoMessage accountId mailboxId)) = some again ∧
        ∀ id, (store.get id).isSome ∨ unacknowledged store.queue id = [] -> again.get id = after.get id) ∧
    ∀ updates id, ((store.applyServerFlags updates).1.applyServerFlags updates).1.get id =
      (store.applyServerFlags updates).1.get id :=
  ⟨fun batch after id row done held => store.upsertBatch_flags batch after done id row held,
    fun updates id row held => store.applyServerFlags_flags updates id row held,
    fun accountId mailboxId report after once done =>
      store.upsertBatch_again accountId mailboxId report once after done,
    fun updates id => store.applyServerFlags_again updates id⟩

/-! ### A store for runs -/

def nothing : Store := { messages := Table.empty _, queue := OperationQueue.empty, drafts := [], mailboxes := [] }

def listing (remoteId uid : Nat) (flags : FlagSet) : FetchedMessage :=
  { uid, uidValidity := ⟨1⟩, modSeq := none, remoteId := ⟨remoteId⟩, flags, internalDate := 5, size := 9
    envelope := none, bodyStructure := none }

def pulling : List Mail := report.map (fun message => message.intoMessage ⟨1⟩ ⟨1⟩)

def pair : Store := (nothing.upsertBatch (pulling [listing 1 1 ∅, listing 2 2 ∅])).getD nothing

def reading : Store := pair.enqueue ⟨1⟩ (.message ⟨1⟩) (.setFlags {.seen}) 6 none

def swapping : List Mail :=
  pulling [listing 1 1 ∅, listing 3 2 ∅, listing 2 1 ∅, listing 1 2 ∅, listing 1 9 ∅, listing 2 2 {.seen},
    listing 1 1 {.flagged}]

set_option maxRecDepth 4000 in
theorem intents_kept_reading :
    ∃ later, (reading.applyServerFlags [(⟨1⟩, {.flagged})]).1.get ⟨1⟩ = some later ∧
      persistable later.flags = {.seen, .flagged} := by
  obtain ⟨row, held⟩ := Option.isSome_iff_exists.mp (show (reading.get ⟨1⟩).isSome by decide)
  obtain ⟨later, now, flags⟩ := (intents_kept reading).2.1 [(⟨1⟩, {.flagged})] ⟨1⟩ row held
  exact ⟨later, now, flags.trans (by
    rw [show lastReport ⟨1⟩ [((⟨1⟩ : MessageId), ({.flagged} : FlagSet))] = some {.flagged} by decide, Option.elim_some]
    decide)⟩

set_option maxRecDepth 4000 in
theorem recent_dropped :
    ((pair.applyServerFlags [(⟨1⟩, {.recent})]).1.get ⟨1⟩).map (fun row => row.flags) ≠
        some (withUnacknowledged {.recent} (unacknowledged pair.queue ⟨1⟩)) ∧
      (((pair.upsertBatch swapping).bind (fun store => store.upsertBatch swapping)).bind (fun store => store.get ⟨1⟩)).map
          (fun row => row.flags) ≠
        ((pair.upsertBatch swapping).bind (fun store => store.get ⟨1⟩)).map (fun row => row.flags) := by
  decide

end Store

end Postio.Pull

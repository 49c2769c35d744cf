import Postio.Pull.Mail

set_option autoImplicit false

namespace Postio.Pull.Store

variable {Value : Type} (store : Store) (found : Mail -> Bool) (mail : Mail) (id : MessageId) (batch rest : List Mail)
    (row : Mail) (next after : Store)

theorem get_id (held : store.get id = some row) : row.id = id := by
  have named := ((store.messages.get_eq_some id.get row).mp held).2
  cases held : row.id with
  | mk get =>
    rw [held] at named
    rw [show get = id.get from named]

theorem get_mem (held : store.get id = some row) :
    row ∈ store.messages.rows := ((store.messages.get_eq_some id.get row).mp held).1

theorem get_of_mem (member : row ∈ store.messages.rows) : store.get row.id = some row :=
  (store.messages.get_eq_some row.id.get row).mpr ⟨member, rfl⟩

theorem get_next : store.get ⟨store.messages.nextId⟩ = none := by
  apply (store.messages.get_eq_none _).mpr
  intro row member
  exact Nat.ne_of_lt (store.messages.issued row member)

theorem get_updateWhere (chosen : Mail -> Bool) (change : Mail -> Mail)
    (kept : ∀ row, (change row).id = row.id) (id : MessageId) :
    (store.updateWhere chosen change kept).get id =
      (store.get id).map (fun row => if chosen row then change row else row) := by
  exact store.messages.get_update (fun row => if chosen row then change row else row) (fun row => by
    split
    · rw [kept]
    · rfl) id.get

/-! ### Looking a row up -/

theorem find_eq_some :
    store.find found = some id <->
      (∃ row, store.get id = some row ∧ found row = true) ∧
        ∀ other row, store.get other = some row -> found row = true -> id.get ≤ other.get := by
  -- A lookup answers with the lowest id that fits.
  constructor
  next =>
    intro same
    obtain ⟨row, first, rfl⟩ := Option.map_eq_some_iff.mp same
    have member := List.mem_of_find?_eq_some first
    refine ⟨⟨row, store.get_of_mem row member, List.find?_some first⟩, fun other later held fits => ?_⟩
    -- the rows stand in the order of their ids, and the first that fits comes before every other
    obtain ⟨before, after, split, none⟩ := (List.find?_eq_some_iff_append.mp first).2
    have ordered := store.messages.ordered
    have there := store.get_mem other later held
    rw [split] at ordered there
    have named := store.get_id other later held
    rcases List.mem_append.mp there with early | late
    next => exact absurd fits (by simpa using none later early)
    next =>
      rcases List.mem_cons.mp late with here | behind
      next => rw [← named, here]
      next =>
        have less := (List.pairwise_cons.mp (List.pairwise_append.mp ordered).2.1).1 later behind
        rw [← named]
        exact Nat.le_of_lt less
  next =>
    rintro ⟨⟨row, held, fits⟩, least⟩
    unfold find
    cases first : store.messages.rows.find? found with
    | none =>
      exact absurd fits (List.find?_eq_none.mp first row (store.get_mem id row held))
    | some other =>
      have member := List.mem_of_find?_eq_some first
      have lower := least other.id other (store.get_of_mem other member) (List.find?_some first)
      obtain ⟨before, after, split, none⟩ := (List.find?_eq_some_iff_append.mp first).2
      have ordered := store.messages.ordered
      have there := store.get_mem id row held
      have named := store.get_id id row held
      rw [split] at ordered there
      rcases List.mem_append.mp there with early | late
      next => exact absurd fits (by simpa using none row early)
      next =>
        rcases List.mem_cons.mp late with here | behind
        next => simp [← here, named]
        next =>
          have less := (List.pairwise_cons.mp (List.pairwise_append.mp ordered).2.1).1 row behind
          rw [named] at less
          omega

theorem find_eq_none :
    store.find found = none <-> ∀ id row, store.get id = some row -> found row = false := by
  constructor
  next =>
    intro nothing id row held
    have missed := List.find?_eq_none.mp (Option.map_eq_none_iff.mp nothing) row (store.get_mem id row held)
    simpa using missed
  next =>
    intro nobody
    apply Option.map_eq_none_iff.mpr
    apply List.find?_eq_none.mpr
    intro row member
    simp [nobody row.id row (store.get_of_mem row member)]

theorem find_held (same : store.find found = some id) :
    ∃ row, store.get id = some row ∧ found row = true := ((store.find_eq_some found id).mp same).1

theorem known_held (same : store.known mail = some id) :
    ∃ row, store.get id = some row := by
  unfold known at same
  split at same
  next other _ _ byName =>
    cases same
    obtain ⟨remoteId, -, found⟩ := Option.bind_eq_some_iff.mp byName
    obtain ⟨row, held, -⟩ := store.find_held _ _ found
    exact ⟨row, held⟩
  next =>
    obtain ⟨row, held, -⟩ := store.find_held _ _ same
    exact ⟨row, held⟩
  next => cases same

theorem existing_held (same : store.existing mail = some id) :
    ∃ row, store.get id = some row := by
  unfold existing at same
  split at same
  next byName =>
    cases same
    exact store.known_held mail id byName
  next =>
    obtain ⟨row, held, -⟩ := store.find_held _ _ same
    exact ⟨row, held⟩
  next =>
    obtain ⟨row, held, -⟩ := store.find_held _ _ same
    exact ⟨row, held⟩

/-! ### One message written -/

/-- A message is written over `id`. -/
structure Written (store : Store) (mail : Mail) (id : MessageId) (row : Mail) (next : Store) : Prop where
  found : store.existing mail = some id
  held : store.get id = some row
  free : store.uidTaken id mail = false
  here : next.get id = some (written (store.reconciled id mail) row)
  others : ∀ other, other ≠ id -> next.get other = store.get other
  queue : next.queue = store.queue
  drafts : next.drafts = store.drafts
  mailboxes : next.mailboxes = store.mailboxes

/-- A message gets a row of its own. -/
structure Inserted (store : Store) (mail : Mail) (next : Store) : Prop where
  unknown : store.existing mail = none
  free : store.uidTaken ⟨store.messages.nextId⟩ mail = false
  here : next.get ⟨store.messages.nextId⟩ = some (inserted mail store.messages.nextId)
  others : ∀ other, other ≠ ⟨store.messages.nextId⟩ -> next.get other = store.get other
  queue : next.queue = store.queue
  drafts : next.drafts = store.drafts
  mailboxes : next.mailboxes = store.mailboxes

theorem uidTaken_reconciled (mail : Mail) :
    store.uidTaken id (store.reconciled id mail) = store.uidTaken id mail := rfl

theorem get_ne (other : MessageId) (apart : other ≠ id) : other.get ≠ id.get :=
  fun same => apart (MessageId.get_injective same)

theorem writeUpdate_written (found : store.existing mail = some id) (done : store.writeUpdate id (store.reconciled id mail) = some next) :
    ∃ row, Written store mail id row next := by
  obtain ⟨row, held⟩ := store.existing_held mail id found
  unfold writeUpdate at done
  split at done
  next => cases done
  next free =>
    cases done
    rw [held] at free
    refine ⟨row, found, held, by simpa [uidTaken_reconciled] using free, ?_, ?_, rfl, rfl, rfl⟩
    next =>
      have now := store.messages.get_updateAt id.get (written (store.reconciled id mail)) (fun _ => rfl) id.get
      rw [if_pos rfl] at now
      change _ = (store.get id).map _ at now
      rw [held] at now
      exact now
    next =>
      intro other apart
      have now := store.messages.get_updateAt id.get (written (store.reconciled id mail)) (fun _ => rfl) other.get
      rw [if_neg (get_ne id other apart)] at now
      exact now

theorem insert_inserted (unknown : store.existing mail = none)
    (done : store.insert mail = some next) : Inserted store mail next := by
  unfold insert at done
  split at done
  next => cases done
  next free =>
    cases done
    refine ⟨unknown, by simpa using free, ?_, ?_, rfl, rfl, rfl⟩
    next =>
      have now := store.messages.get_insert (inserted mail) (fun _ => rfl) store.messages.nextId
      rw [if_pos rfl] at now
      exact now
    next =>
      intro other apart
      have now := store.messages.get_insert (inserted mail) (fun _ => rfl) other.get
      rw [if_neg (get_ne ⟨store.messages.nextId⟩ other apart)] at now
      exact now

theorem upsert_cases (done : store.upsert mail = some next) :
    (∃ id row, Written store mail id row next) ∨ Inserted store mail next := by
  unfold upsert at done
  split at done
  next id found => exact .inl ⟨id, store.writeUpdate_written mail id next found done⟩
  next unknown => exact .inr (store.insert_inserted mail next unknown done)

theorem upsert_queue (done : store.upsert mail = some next) :
    next.queue = store.queue := by
  rcases store.upsert_cases mail next done with ⟨id, row, covers⟩ | fresh
  next => exact covers.queue
  next => exact fresh.queue

theorem upsert_snapshots (done : store.upsert mail = some next) :
    next.drafts = store.drafts ∧ next.mailboxes = store.mailboxes := by
  rcases store.upsert_cases mail next done with ⟨id, row, covers⟩ | fresh
  next => exact ⟨covers.drafts, covers.mailboxes⟩
  next => exact ⟨fresh.drafts, fresh.mailboxes⟩

theorem upsertAll_cons (done : store.upsertAll (mail :: rest) = some after) :
    ∃ next, store.upsert mail = some next ∧ next.upsertAll rest = some after := Option.bind_eq_some_iff.mp done

theorem upsertAll_invariant (holds : Store -> Prop) (batch : List Mail)
    (step : ∀ store mail next, mail ∈ batch -> store.upsert mail = some next -> holds store -> holds next)
    (store after : Store) (done : store.upsertAll batch = some after) (start : holds store) : holds after := by
  -- What every message of a batch keeps, the batch keeps.
  induction batch generalizing store with
  | nil =>
    cases done
    exact start
  | cons mail rest ih =>
    obtain ⟨next, first, last⟩ := store.upsertAll_cons mail rest after done
    exact ih (fun middle other later member => step middle other later (List.mem_cons_of_mem mail member)) next last
      (step store mail next (List.mem_cons_self ..) first start)

theorem upsertAll_queue (done : store.upsertAll batch = some after) :
    after.queue = store.queue :=
  upsertAll_invariant (fun now => now.queue = store.queue) batch
    (fun middle mail next _ step same => (middle.upsert_queue mail next step).trans same) store after done rfl

theorem upsertAll_snapshots (done : store.upsertAll batch = some after) :
    after.drafts = store.drafts ∧ after.mailboxes = store.mailboxes :=
  upsertAll_invariant (fun now => now.drafts = store.drafts ∧ now.mailboxes = store.mailboxes) batch
    (fun middle mail next _ step same =>
      ⟨(middle.upsert_snapshots mail next step).1.trans same.1, (middle.upsert_snapshots mail next step).2.trans same.2⟩)
    store after done ⟨rfl, rfl⟩

theorem retained_congr (queue : after.queue = store.queue) (drafts : after.drafts = store.drafts)
    (mailboxes : after.mailboxes = store.mailboxes) : after.retained = store.retained := by
  -- The batch's snapshots do not depend on the rows.
  funext mail
  unfold retained ownDraftCopies shadowed
  rw [queue, drafts, mailboxes]

theorem upsertAll_retained (done : store.upsertAll batch = some after) : after.retained = store.retained :=
  retained_congr store after (store.upsertAll_queue batch after done) (store.upsertAll_snapshots batch after done).1
    (store.upsertAll_snapshots batch after done).2

theorem adoptMovedIdentity_queue (mailboxId : MailboxId) (uid : Uid)
    (uidValidity : Generation) (remoteId : RemoteId) :
    (store.adoptMovedIdentity id mailboxId uid uidValidity remoteId).queue = store.queue := by
  unfold adoptMovedIdentity
  split
  next => rfl
  next =>
    split
    next => rfl
    next => rfl

/-! ### Where the messages of a batch land -/

/-- The row each message of a batch is written to, in turn. -/
def landings (store : Store) : List Mail -> List (MessageId × Mail)
  | [] => []
  | mail :: rest =>
    match store.upsert mail with
    | none => []
    | some next => ((store.existing mail).getD ⟨store.messages.nextId⟩, mail) :: next.landings rest

def lastFor (entries : List (MessageId × Value)) : Option Value :=
  ((entries.filter (fun entry => entry.1 = id)).map (fun entry => entry.2)).getLast?

theorem lastFor_here (value : Value) (rest : List (MessageId × Value)) :
    lastFor id ((id, value) :: rest) = some ((lastFor id rest).getD value) := by
  simp [lastFor, List.getLast?_cons]

theorem lastFor_other (other : MessageId) (value : Value) (rest : List (MessageId × Value))
    (apart : other ≠ id) : lastFor id ((other, value) :: rest) = lastFor id rest := by
  simp [lastFor, apart]

theorem lastFor_map {Other : Type} (id : MessageId) (change : Value -> Other)
    (entries : List (MessageId × Value)) :
    lastFor id (entries.map (fun entry => (entry.1, change entry.2))) = (lastFor id entries).map change := by
  simp [lastFor, List.filter_map, Function.comp_def, List.map_map, List.getLast?_map]

theorem landings_written (id : MessageId) (row : Mail) (next : Store)
    (step : store.upsert mail = some next) (covers : Written store mail id row next) :
    store.landings (mail :: rest) = (id, mail) :: next.landings rest := by
  simp [landings, step, covers.found]

theorem landings_inserted (step : store.upsert mail = some next) (fresh : Inserted store mail next) :
    store.landings (mail :: rest) = (⟨store.messages.nextId⟩, mail) :: next.landings rest := by
  simp [landings, step, fresh.unknown]

theorem upsert_held (done : store.upsert mail = some next)
    (id : MessageId) (held : (store.get id).isSome) : (next.get id).isSome := by
  rcases store.upsert_cases mail next done with ⟨placed, row, covers⟩ | fresh
  next =>
    by_cases same : id = placed
    next => simp [same, covers.here]
    next => simpa [covers.others id same] using held
  next =>
    by_cases same : id = ⟨store.messages.nextId⟩
    next => simp [same, fresh.here]
    next => simpa [fresh.others id same] using held

theorem upsertAll_landed (good : Mail -> Mail -> Prop) (id : MessageId) (queue : OperationQueue) (issued : Prop)
    (covers : ∀ (store : Store) mail row next, store.queue = queue -> Written store mail id row next ->
      good mail (written (store.reconciled id mail) row))
    (fresh : ∀ mail, ¬ issued -> good mail (inserted mail id.get))
    (batch : List Mail) (store after : Store) (same : store.queue = queue) (done : store.upsertAll batch = some after)
    (old : issued -> (store.get id).isSome) :
    (lastFor id (store.landings batch) = none -> after.get id = store.get id) ∧
      ∀ mail, lastFor id (store.landings batch) = some mail -> ∃ row, after.get id = some row ∧ good mail row := by
  -- A batch leaves a row as the last message that landed there left it, and a row none landed on as it was.
  induction batch generalizing store with
  | nil =>
    cases done
    exact ⟨fun _ => rfl, fun mail landed => by cases landed⟩
  | cons first rest ih =>
    obtain ⟨next, step, last⟩ := store.upsertAll_cons first rest after done
    have later := ih next ((store.upsert_queue first next step).trans same) last
      (fun given => store.upsert_held first next step id (old given))
    have here : ∀ placed row, store.landings (first :: rest) = (placed, first) :: next.landings rest ->
        (placed = id -> next.get id = some row ∧ good first row) -> (placed ≠ id -> next.get id = store.get id) ->
        (lastFor id (store.landings (first :: rest)) = none -> after.get id = store.get id) ∧
          ∀ mail, lastFor id (store.landings (first :: rest)) = some mail ->
            ∃ row, after.get id = some row ∧ good mail row := by
      intro placed row landed onto past
      rw [landed]
      by_cases on : placed = id
      next =>
        subst on
        rw [lastFor_here]
        refine ⟨fun none => (by cases none), ?_⟩
        intro mail ends
        cases behind : lastFor placed (next.landings rest) with
        | none =>
          rw [behind] at ends
          cases ends
          exact ⟨row, (later.1 behind).trans (onto rfl).1, (onto rfl).2⟩
        | some other =>
          rw [behind] at ends
          cases ends
          exact later.2 other behind
      next =>
        rw [lastFor_other id placed first (next.landings rest) on]
        exact ⟨fun none => (later.1 none).trans (past on), later.2⟩
    rcases store.upsert_cases first next step with ⟨placed, row, over'⟩ | arrived
    next =>
      refine here placed (written (store.reconciled placed first) row)
        (store.landings_written first rest placed row next step over') ?_ (fun apart => over'.others id (Ne.symm apart))
      intro on
      subst on
      exact ⟨over'.here, covers store first row next same over'⟩
    next =>
      refine here ⟨store.messages.nextId⟩ (inserted first store.messages.nextId)
        (store.landings_inserted first rest next step arrived) ?_ (fun apart => arrived.others id (Ne.symm apart))
      intro on
      subst on
      refine ⟨arrived.here, fresh first (fun given => ?_)⟩
      have held := old given
      rw [store.get_next] at held
      cases held

end Postio.Pull.Store

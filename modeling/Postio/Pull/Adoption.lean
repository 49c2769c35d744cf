import Postio.Pull.FlagIntents

set_option autoImplicit false

namespace Postio.Pull

theorem toLower_other (char : Char) (other : ¬ (char.val ≥ 'A'.val ∧ char.val ≤ 'Z'.val)) : char.toLower = char := by
  unfold Char.toLower
  rw [dif_neg other]

theorem toLower_toLower (char : Char) : char.toLower.toLower = char.toLower := by
  by_cases upper : char.val ≥ 'A'.val ∧ char.val ≤ 'Z'.val
  next =>
    have lowered : char.toLower.val = char.val + 32 := by
      unfold Char.toLower
      rw [dif_pos upper]
      rfl
    apply toLower_other
    rw [lowered]
    simp only [UInt32.le_iff_toNat_le, UInt32.toNat_add, ge_iff_le] at upper ⊢
    simp at upper ⊢
    omega
  next => rw [toLower_other char upper, toLower_other char upper]

theorem folded_folded (rfc : Text) : folded (folded rfc) = folded rfc := by
  simp [folded, toLower_toLower]

inductive Relocation where
  | moveTo (ids : List MessageId)
  | moveSet (set : Mail -> Bool)

namespace Relocation

def takes : Relocation -> Mail -> Bool
  | .moveTo ids, row => row.id ∈ ids
  | .moveSet set, row => set row

def apply (store : Store) (dest : MailboxId) : Relocation -> Store
  | .moveTo ids => store.moveTo ids dest
  | .moveSet set => store.moveSet set dest

def folds : Relocation -> Bool
  | .moveTo _ => true
  | .moveSet _ => false

def moved (dest : MailboxId) (row : Mail) : Relocation -> Mail
  | .moveTo _ => { Store.moved dest row with rfcMessageId := row.rfcMessageId.map lower }
  | .moveSet _ => Store.moved dest row

end Relocation

namespace Store

variable (how : Relocation) (store : Store) (dest : MailboxId) (mail row : Mail) (rfc copy : Text)

theorem relocated_get (how : Relocation) (dest : MailboxId) (id : MessageId) (row : Mail)
    (held : store.get id = some row) (taken : how.takes row = true) :
    (how.apply store dest).get id = some (how.moved dest row) := by
  cases how with
  | moveTo ids =>
    have chosen : row.id ∈ ids := by simpa [Relocation.takes] using taken
    have now := store.get_updateWhere (fun row => row.id ∈ ids)
      (fun row => { moved dest row with rfcMessageId := row.rfcMessageId.map lower }) (fun _ => rfl) id
    rw [held, Option.map_some, if_pos (by simpa using chosen)] at now
    exact now
  | moveSet set =>
    have chosen : set row = true := taken
    have now := store.get_updateWhere set (moved dest) (fun _ => rfl) id
    rw [held, Option.map_some, if_pos chosen] at now
    exact now

/-- In what decides who a row is, it stands as the move left it. -/
structure StandsAs (was now : Mail) : Prop where
  accountId : now.accountId = was.accountId
  mailboxId : now.mailboxId = was.mailboxId
  rfcMessageId : now.rfcMessageId = was.rfcMessageId
  server : now.server = was.server

/-- A row in view, unnamed by the server, in the message's mailbox and with an equal `Message-ID`. -/
structure WaitsFor (store : Store) (mail : Mail) (copy : Text) (id : MessageId) (row : Mail) : Prop where
  held : store.get id = some row
  accountId : row.accountId = mail.accountId
  mailboxId : row.mailboxId = mail.mailboxId
  awaits : awaits row = true
  equal : row.rfcMessageId.map folded = some (folded copy)

structure WaitsFolded (store : Store) (mail : Mail) (copy : Text) (id : MessageId) (row : Mail) : Prop where
  waits : WaitsFor store mail copy id row
  spelled : row.rfcMessageId = some (folded copy)

theorem existing_awaiting (carries : mail.rfcMessageId = some copy) (unknown : store.known mail = none) :
    store.existing mail = store.findAwaitingIdentity mail.accountId mail.mailboxId copy := by
  unfold existing
  rw [unknown, carries]

theorem found_waits (id : MessageId)
    (found : store.findAwaitingIdentity mail.accountId mail.mailboxId copy = some id) :
    ∃ row, WaitsFolded store mail copy id row := by
  obtain ⟨row, held, fits⟩ := store.find_held _ id found
  simp only [Bool.and_eq_true, decide_eq_true_eq] at fits
  obtain ⟨⟨⟨account, spelled⟩, mailbox⟩, waits⟩ := fits
  refine ⟨row, ⟨held, account, mailbox, waits, ?_⟩, spelled⟩
  rw [spelled, Option.map_some, folded_folded]

theorem waits_found (id : MessageId) (row : Mail) (waits : WaitsFolded store mail copy id row) :
    ∃ first, store.findAwaitingIdentity mail.accountId mail.mailboxId copy = some first := by
  cases found : store.findAwaitingIdentity mail.accountId mail.mailboxId copy with
  | none =>
    have missed := (store.find_eq_none _).mp found id row waits.waits.held
    simp [waits.waits.accountId, waits.waits.mailboxId, waits.waits.awaits, waits.spelled] at missed
  | some first => exact ⟨first, rfl⟩

theorem adopted_iff (carries : mail.rfcMessageId = some copy)
    (unknown : store.known mail = none) (next : Store) (done : store.upsert mail = some next) :
    (∃ waiting row, WaitsFor store mail copy waiting row ∧ Written store mail waiting row next) <->
      ∃ waiting row, WaitsFolded store mail copy waiting row := by
  -- A message is written over a waiting row exactly when one waits under the spelling it is looked up by.
  have same := store.existing_awaiting mail copy carries unknown
  constructor
  next =>
    rintro ⟨waiting, row, -, covers⟩
    obtain ⟨old, waits⟩ := store.found_waits mail copy waiting (same.symm.trans covers.found)
    exact ⟨waiting, old, waits⟩
  next =>
    rintro ⟨waiting, row, waits⟩
    obtain ⟨first, found⟩ := store.waits_found mail copy waiting row waits
    rcases store.upsert_cases mail next done with ⟨placed, old, covers⟩ | fresh
    next =>
      obtain ⟨there, folded⟩ := store.found_waits mail copy placed (same.symm.trans covers.found)
      cases covers.held.symm.trans folded.waits.held
      exact ⟨placed, old, folded.waits, covers⟩
    next =>
      have missing := same.symm.trans fresh.unknown
      rw [found] at missing
      cases missing

def relocatedName : Text := if how.folds then folded rfc else rfc

theorem moved_rfcMessageId (named : row.rfcMessageId = some rfc) : (how.moved dest row).rfcMessageId = some (relocatedName how rfc) := by
  cases how with
  | moveTo ids =>
    change row.rfcMessageId.map lower = _
    rw [named]
    rfl
  | moveSet set => exact named

theorem moved_accountId : (how.moved dest row).accountId = row.accountId:= by
  cases how with
  | moveTo ids => rfl
  | moveSet set => rfl

theorem moved_unnamed : (how.moved dest row).mailboxId = dest ∧
      (how.moved dest row).server = { uid := none, uidValidity := none, modSeq := none, remoteId := none } := by
  cases how with
  | moveTo ids => exact ⟨rfl, rfl⟩
  | moveSet set => exact ⟨rfl, rfl⟩

theorem relocated_folded :
    relocatedName how rfc = folded rfc <-> how.folds = true ∨ folded rfc = rfc := by
  unfold relocatedName
  cases how.folds with
  | true => simp
  | false => simp [eq_comm]

theorem stands_waits (named : row.rfcMessageId = some rfc) (store : Store) (id : MessageId) (now : Mail) (there : store.get id = some now)
    (stands : StandsAs (how.moved dest row) now) (mail : Mail) (account : mail.accountId = row.accountId)
    (arrives : mail.mailboxId = dest) (copy : Text) (equal : folded copy = folded rfc) :
    WaitsFolded store mail copy id now <->
      now.sync.deletedLocally = false ∧ (how.folds = true ∨ folded rfc = rfc) := by
  -- A row standing as a move left it waits for its copy as long as it is in view, and under the looked-up spelling when
  -- the move folded it or there was nothing to fold.
  have unnamed : now.server.remoteId.isNone = true ∧ now.server.uid.isNone = true := by
    rw [stands.server, (moved_unnamed how dest row).2]
    exact ⟨rfl, rfl⟩
  have stored : now.rfcMessageId = some (relocatedName how rfc) :=
    stands.rfcMessageId.trans (moved_rfcMessageId how dest row rfc named)
  constructor
  next =>
    intro waits
    have spelled := stored.symm.trans waits.spelled
    rw [equal, Option.some.injEq] at spelled
    refine ⟨?_, (relocated_folded how rfc).mp spelled⟩
    have visible := waits.waits.awaits
    simpa [awaits, unnamed] using visible
  next =>
    rintro ⟨visible, spelled⟩
    have key : now.rfcMessageId = some (folded copy) := by
      rw [stored, (relocated_folded how rfc).mpr spelled, equal]
    refine ⟨⟨there, ?_, ?_, ?_, ?_⟩, key⟩
    next => rw [stands.accountId, moved_accountId, account]
    next => rw [stands.mailboxId, (moved_unnamed how dest row).1, arrives]
    next => simp [awaits, unnamed, visible]
    next => rw [key, Option.map_some, folded_folded]

/-- A moved message is adopted rather than duplicated: exactly when the move folded its `Message-ID` or found it folded,
or another row that waits under it is spelled so. -/
theorem moved_adopted_iff (id : MessageId) (row : Mail)
    (held : store.get id = some row) (taken : how.takes row = true) (rfc : Text) (named : row.rfcMessageId = some rfc) :
    ∃ moved, (how.apply store dest).get id = some moved ∧
      ∀ later now, later.get id = some now -> StandsAs moved now ->
      ∀ mail copy, mail.accountId = row.accountId -> mail.mailboxId = dest -> mail.rfcMessageId = some copy ->
        folded copy = folded rfc -> later.known mail = none ->
      ∀ next, later.upsert mail = some next ->
        ((∃ waiting old, WaitsFor later mail copy waiting old ∧ Written later mail waiting old next) <->
          now.sync.deletedLocally = false ∧ (how.folds = true ∨ folded rfc = rfc) ∨
            ∃ other old, other ≠ id ∧ WaitsFolded later mail copy other old) ∧
        ((∀ other old, WaitsFor later mail copy other old -> other = id) ->
          ((∃ old, Written later mail id old next) <->
            now.sync.deletedLocally = false ∧ (how.folds = true ∨ folded rfc = rfc))) := by
  refine ⟨how.moved dest row, store.relocated_get how dest id row held taken, ?_⟩
  intro later now there stands mail copy account arrives carries equal unknown next done
  have own := stands_waits how dest row rfc named later id now there stands mail account arrives copy equal
  have adopted := later.adopted_iff mail copy carries unknown next done
  refine ⟨adopted.trans ⟨?_, ?_⟩, ?_⟩
  next =>
    rintro ⟨waiting, old, waits⟩
    by_cases same : waiting = id
    next =>
      subst same
      cases there.symm.trans waits.waits.held
      exact .inl (own.mp waits)
    next => exact .inr ⟨waiting, old, same, waits⟩
  next =>
    rintro (spelled | ⟨other, old, -, waits⟩)
    next => exact ⟨id, now, own.mpr spelled⟩
    next => exact ⟨other, old, waits⟩
  next =>
    intro alone
    constructor
    next =>
      rintro ⟨old, covers⟩
      have found := (later.existing_awaiting mail copy carries unknown).symm.trans covers.found
      obtain ⟨waiting, waits⟩ := later.found_waits mail copy id found
      cases there.symm.trans waits.waits.held
      exact own.mp waits
    next =>
      intro spelled
      obtain ⟨waiting, old, waits, covers⟩ := adopted.mpr ⟨id, now, own.mpr spelled⟩
      cases alone waiting old waits
      exact ⟨old, covers⟩

/-! ### A list's spelling -/

def spelled : FetchedMessage :=
  { listing 3 1 ∅ with envelope := some { messageId := some ['A', '@', 'x'], headers := FetchedMessage.noHeaders } }

/-- One row, with a `Message-ID` that is not all in lower case. -/
def shouting : Store := (nothing.upsertBatch (pulling [spelled])).getD nothing

def copied : Mail := { spelled with remoteId := ⟨4⟩ : FetchedMessage }.intoMessage ⟨1⟩ ⟨2⟩

set_option maxRecDepth 4000 in
theorem moved_adopted_shouting : ∃ next waiting old, (shouting.moveTo [⟨1⟩] ⟨2⟩).upsert copied = some next ∧
    Written (shouting.moveTo [⟨1⟩] ⟨2⟩) copied waiting old next := by
  obtain ⟨row, held⟩ := Option.isSome_iff_exists.mp (show (shouting.get ⟨1⟩).isSome by decide)
  have account : (shouting.get ⟨1⟩).map (fun row => row.accountId) = some ⟨1⟩ := by decide
  have named : (shouting.get ⟨1⟩).map (fun row => row.rfcMessageId) = some (some ['A', '@', 'x']) := by decide
  have visible : ((shouting.moveTo [⟨1⟩] ⟨2⟩).get ⟨1⟩).map (fun row => row.sync.deletedLocally) = some false := by decide
  rw [held] at account named
  obtain ⟨moved, there, adopted⟩ := moved_adopted_iff (.moveTo [⟨1⟩]) shouting ⟨2⟩ ⟨1⟩ row held
    (by simpa [Relocation.takes] using shouting.get_id ⟨1⟩ row held) ['A', '@', 'x'] (Option.some.inj named)
  have shown : (shouting.moveTo [⟨1⟩] ⟨2⟩).get ⟨1⟩ = some moved := there
  rw [shown] at visible
  obtain ⟨next, done⟩ :=
    Option.isSome_iff_exists.mp (show ((shouting.moveTo [⟨1⟩] ⟨2⟩).upsert copied).isSome by decide)
  obtain ⟨waiting, old, -, covers⟩ :=
    (adopted (shouting.moveTo [⟨1⟩] ⟨2⟩) moved shown ⟨rfl, rfl, rfl, rfl⟩ copied ['A', '@', 'x']
      (Option.some.inj account).symm rfl rfl rfl (by decide) next done).1.mpr
      (.inl ⟨Option.some.inj visible, .inl rfl⟩)
  exact ⟨next, waiting, old, done, covers⟩

set_option maxRecDepth 4000 in
/-- Moved with a set, the row waits under a spelling nobody looks up, and its copy becomes a second row. -/
theorem moved_duplicated :
    ((shouting.moveSet (fun _ => true) ⟨2⟩).upsertBatch [copied]).map (fun next =>
        next.messages.rows.map (fun row => (row.id, row.mailboxId, row.rfcMessageId))) =
      some [(⟨1⟩, ⟨2⟩, some ['A', '@', 'x']), (⟨2⟩, ⟨2⟩, some ['A', '@', 'x'])] := by
  decide

end Store

end Postio.Pull

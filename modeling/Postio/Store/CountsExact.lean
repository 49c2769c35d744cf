import Postio.Store.MailboxCounts

set_option autoImplicit false

namespace Postio

namespace CountedMail

variable (second : Instant) (mail : CountedMail) (count : MailboxCount)

def lapsed : Bool :=
  !mail.deletedLocally && mail.snoozedUntil.any (fun wakeAt => mail.countedAt < wakeAt && wakeAt ≤ second)

theorem share_nonneg : 0 ≤ mail.share second count := by
  unfold share
  split
  · omega
  · omega

theorem share_counted (countedAt : Instant) (mail : CountedMail) (count : MailboxCount) :
    ({ mail with countedAt } : CountedMail).share second count = mail.share second count := by
  cases count with
  | _ => rfl

theorem share_bodies (other : Instant) (mail : CountedMail) :
    mail.share second .bodiesOwed = mail.share other .bodiesOwed := rfl

theorem share_deleted (deleted : mail.deletedLocally = true) : mail.share second count = 0 := by
  cases count with
  | _ => simp [share, counts, deleted]

theorem share_kept (earlier : mail.countedAt ≤ second)
    (kept : mail.lapsed second = false) : mail.share second count = mail.share mail.countedAt count := by
  -- Time changes what a row counts for only by waking it.
  cases snoozed : mail.snoozedUntil with
  | none =>
    cases count with
    | _ => simp [share, counts, awake, asleep, snoozed]
  | some wakeAt =>
    cases deleted : mail.deletedLocally with
    | true =>
      cases count with
      | _ => simp [share, counts, deleted]
    | false =>
      have same : decide (wakeAt ≤ second) = decide (wakeAt ≤ mail.countedAt) := by
        simp only [lapsed, snoozed, deleted, Bool.not_false, Bool.true_and, Option.any_some, Bool.and_eq_false_iff,
          decide_eq_false_iff_not, not_lt, not_le] at kept
        rcases kept with past | ahead
        · simp [past, past.trans earlier]
        · simp [not_le.mpr ahead, not_le.mpr (lt_of_le_of_lt earlier ahead)]
      have other : decide (second < wakeAt) = decide (mail.countedAt < wakeAt) := by
        simp only [← not_le, decide_not, same]
      cases count with
      | _ => simp [share, counts, awake, asleep, snoozed, same, other]

theorem share_snoozed_lapsed (lapsed : mail.lapsed second = true) :
    mail.share second .snoozed = 0 ∧ mail.share mail.countedAt .snoozed = 1 := by
  simp only [CountedMail.lapsed, Bool.and_eq_true, Bool.not_eq_true', Option.any_eq_true, decide_eq_true_eq] at lapsed
  obtain ⟨kept, wakeAt, snoozed, before, later⟩ := lapsed
  constructor
  · simp [share, counts, asleep, snoozed, later]
  · simp [share, counts, asleep, snoozed, kept, before]

theorem share_snoozed_le (earlier : mail.countedAt ≤ second) :
    mail.share second .snoozed ≤ mail.share mail.countedAt .snoozed := by
  -- A row comes to count as snoozed no longer, never again.
  cases gone : mail.lapsed second with
  | true =>
    obtain ⟨now, last⟩ := share_snoozed_lapsed second mail gone
    omega
  | false => exact Int.le_of_eq (share_kept second mail .snoozed earlier gone)

end CountedMail

theorem Columns.applied_visible (columns : Columns) (mail : CountedMail) (second : Instant) (count : MailboxCount)
    (quiet : columns.recounts = false) (visible : CountedStore.visibility count = true) :
    (columns.applied mail).mailboxId = mail.mailboxId ∧
      (columns.applied mail).share second count = mail.share second count := by
  -- Columns no count but the bodies' reads leave the others alone.
  simp only [recounts, Bool.or_eq_false_iff, Option.isSome_eq_false_iff, Option.isNone_iff_eq_none] at quiet
  obtain ⟨⟨⟨⟨mailbox, seen⟩, flagged⟩, deleted⟩, snoozed⟩ := quiet
  constructor
  · simp [applied, mailbox]
  · cases count with
    | bodiesOwed => cases visible
    | _ =>
      simp [CountedMail.share, CountedMail.counts, CountedMail.awake, CountedMail.asleep, applied, seen, flagged, deleted,
        snoozed]

theorem Columns.applied_bodies (columns : Columns) (mail : CountedMail) (second : Instant)
    (quiet : (columns.reowes && CountedStore.owedMoves mail (columns.applied mail)) = false) :
    (columns.applied mail).mailboxId = mail.mailboxId ∧
      (columns.applied mail).share second .bodiesOwed = mail.share second .bodiesOwed := by
  rcases Bool.and_eq_false_iff.mp quiet with unnamed | still
  · simp only [reowes, Bool.or_eq_false_iff, Option.isSome_eq_false_iff, Option.isNone_iff_eq_none] at unnamed
    obtain ⟨⟨mailbox, deleted⟩, body⟩ := unnamed
    constructor
    · simp [applied, mailbox]
    · simp [CountedMail.share, CountedMail.counts, CountedMail.owed, applied, deleted, body]
  · simp only [CountedStore.owedMoves, Bool.or_eq_false_iff, decide_eq_false_iff_not, not_not, bne_eq_false_iff_eq] at still
    obtain ⟨mailbox, owed⟩ := still
    exact ⟨mailbox.symm, by simp [CountedMail.share, CountedMail.counts, owed]⟩

namespace CountedStore

variable (store : CountedStore) (elapsed : Nat) (entry : RowWrite) (id : MessageId) (mailbox : MailboxId)
    (count : MailboxCount)

def asCounted : Figures MailboxId MailboxCount :=
  store.messages.tally CountedMail.mailboxId (fun mail => mail.share mail.countedAt)

theorem update_figures (columns : Columns) (old : CountedMail)
    (found : store.messages.get id.get = some old) (mailbox : MailboxId) (count : MailboxCount)
    (unclamped : columns.recounts = true ∨ visibility count = false ->
      0 ≤ store.figures old.mailboxId count - old.share store.second count) :
    (store.update id columns).figures mailbox count =
      store.figures mailbox count - Figures.shareOf old.mailboxId (old.share store.second) mailbox count +
        Figures.shareOf (columns.applied old).mailboxId ((columns.applied old).share store.second) mailbox count := by
  -- The triggers' two halves come to one difference.
  simp only [update, found]
  cases visible : visibility count with
  | true =>
    have apart : bodies count = false := by
      cases count with
      | bodiesOwed => cases visible
      | _ => rfl
    have outer : ∀ counted : Figures MailboxId MailboxCount,
        (if (columns.reowes && owedMoves old (columns.applied old)) = true then
          (counted.lower bodies old.mailboxId (old.share store.second)).raise bodies
            (columns.applied old).mailboxId ((columns.applied old).share store.second)
        else counted) mailbox count = counted mailbox count := by
      intro counted
      split
      · rw [Figures.raise_untouched _ _ _ _ _ _ apart, Figures.lower_untouched _ _ _ _ _ _ apart]
      · rfl
    rw [outer]
    cases recounts : columns.recounts with
    | true =>
      simp only [if_true]
      rw [Figures.raise_touched _ _ _ _ _ _ visible, Figures.lower_touched _ _ _ _ _ _ visible (unclamped (.inl recounts))]
    | false =>
      obtain ⟨same, share⟩ := columns.applied_visible old store.second count recounts visible
      simp only [Bool.false_eq_true, if_false, Figures.shareOf, same, share]
      omega
  | false =>
    have bodiesCount : count = .bodiesOwed := by
      cases count with
      | bodiesOwed => rfl
      | _ => cases visible
    subst bodiesCount
    have inner : ∀ other : MailboxId, (if columns.recounts = true then
        (store.figures.lower visibility old.mailboxId (old.share store.second)).raise visibility
          (columns.applied old).mailboxId ((columns.applied old).share store.second)
        else store.figures) other .bodiesOwed = store.figures other .bodiesOwed := by
      intro other
      split
      · rw [Figures.raise_untouched _ _ _ _ _ _ rfl, Figures.lower_untouched _ _ _ _ _ _ rfl]
      · rfl
    cases moves : columns.reowes && owedMoves old (columns.applied old) with
    | true =>
      simp only [if_true]
      rw [Figures.raise_touched _ _ _ _ _ _ rfl, Figures.lower_touched _ _ _ _ _ _ rfl (by
        rw [inner]
        exact unclamped (.inr visible)),
        inner]
    | false =>
      obtain ⟨same, share⟩ := columns.applied_bodies old store.second moves
      simp only [Bool.false_eq_true, if_false]
      rw [inner]
      simp only [Figures.shareOf, same, share]
      omega

def old : RowWrite -> Option CountedMail
  | .insert _ => none
  | .update id _ | .delete id => store.messages.get id.get

def taken : Option CountedMail :=
  -- The row whose share a write takes out as it counts now.
  match entry with
  | .update _ columns => if columns.recounts then store.old entry else none
  | _ => store.old entry

def InTime : Prop :=
  ∀ old, store.taken entry = some old -> old.lapsed store.second = false

instance (store : CountedStore) (entry : RowWrite) : Decidable (store.InTime entry) :=
  inferInstanceAs (Decidable (∀ old ∈ store.taken entry, _))

/-- No count a write lowers would have gone below zero. -/
def Unclamped (store : CountedStore) : RowWrite -> Prop
  | .insert _ => True
  | .update id columns => ∀ old, store.messages.get id.get = some old ->
      (columns.recounts -> store.figures.Unclamped visibility old.mailboxId (old.share store.second)) ∧
        (columns.reowes && owedMoves old (columns.applied old) ->
          store.figures.Unclamped bodies old.mailboxId (old.share store.second))
  | .delete id => ∀ old, store.messages.get id.get = some old -> old.deletedLocally = false ->
      store.figures.Unclamped every old.mailboxId (old.share store.second)

def drift : Int :=
  store.figures mailbox count - store.asCounted mailbox count

def slip : Int :=
  -- What taking a row out as it counts now, and not as it was counted, leaves behind.
  match store.taken entry with
  | none => 0
  | some old =>
    Figures.shareOf old.mailboxId (fun count => old.share old.countedAt count - old.share store.second count) mailbox
      count

def Counted : Prop := ∀ mail ∈ store.messages.rows, mail.countedAt ≤ store.second

theorem insert_drift (mail : CountedMail) (mailbox : MailboxId) (count : MailboxCount) :
    (store.insert mail).drift mailbox count = store.drift mailbox count := by
  have counted : (store.insert mail).asCounted mailbox count = store.asCounted mailbox count +
      Figures.shareOf mail.mailboxId (mail.share store.second) mailbox count :=
    store.messages.tally_insert _ _ _ _ mailbox count
  simp only [drift, counted]
  cases deleted : mail.deletedLocally with
  | true =>
    have none : Figures.shareOf mail.mailboxId (mail.share store.second) mailbox count = 0 := by
      simp [Figures.shareOf, CountedMail.share_deleted store.second mail count deleted]
    simp only [insert, deleted, if_true, none]
    omega
  | false =>
    simp only [insert, deleted, Bool.false_eq_true, if_false]
    rw [Figures.raise_touched _ _ _ _ _ _ rfl]
    omega

theorem update_drift (columns : Columns) (old : CountedMail)
    (found : store.messages.get id.get = some old) (mailbox : MailboxId) (count : MailboxCount)
    (unclamped : columns.recounts = true ∨ visibility count = false ->
      0 ≤ store.figures old.mailboxId count - old.share store.second count) :
    (store.update id columns).drift mailbox count =
      store.drift mailbox count + store.slip (.update id columns) mailbox count := by
  have figures := store.update_figures id columns old found mailbox count unclamped
  have before := store.messages.tally_split CountedMail.mailboxId (fun mail => mail.share mail.countedAt) id.get old
    found mailbox count
  have after := store.messages.tally_updateAt CountedMail.mailboxId (fun mail => mail.share mail.countedAt) id.get
    (fun mail => { columns.applied mail with countedAt := if columns.recounts then store.second else mail.countedAt })
    (fun _ => rfl) old found mailbox count
  have counted : (store.update id columns).asCounted mailbox count =
      (store.messages.updateAt id.get (fun mail =>
        { columns.applied mail with countedAt := if columns.recounts then store.second else mail.countedAt })
        (fun _ => rfl)).tally CountedMail.mailboxId (fun mail => mail.share mail.countedAt) mailbox count := by
    simp only [asCounted, update, found]
  simp only [drift, figures, counted, after]
  simp only [asCounted, before, slip, taken, CountedStore.old]
  cases recounts : columns.recounts with
  | true =>
    simp only [if_true, found, Figures.shareOf, CountedMail.share_counted]
    by_cases here : mailbox = old.mailboxId
    · simp only [here, if_true]
      omega
    · simp only [here, if_false]
      omega
  | false =>
    simp only [Bool.false_eq_true, if_false, Figures.shareOf, CountedMail.share_counted]
    cases visible : visibility count with
    | true =>
      obtain ⟨same, now⟩ := columns.applied_visible old store.second count recounts visible
      obtain ⟨-, last⟩ := columns.applied_visible old old.countedAt count recounts visible
      simp only [same, now, last]
      omega
    | false =>
      have bodiesCount : count = .bodiesOwed := by
        cases count with
        | bodiesOwed => rfl
        | _ => cases visible
      subst bodiesCount
      simp only [CountedMail.share_bodies store.second old.countedAt]
      omega

theorem delete_drift (old : CountedMail)
    (found : store.messages.get id.get = some old) (mailbox : MailboxId) (count : MailboxCount)
    (unclamped : old.deletedLocally = false -> 0 ≤ store.figures old.mailboxId count - old.share store.second count) :
    (store.delete id).drift mailbox count = store.drift mailbox count + store.slip (.delete id) mailbox count := by
  have before := store.messages.tally_split CountedMail.mailboxId (fun mail => mail.share mail.countedAt) id.get old
    found mailbox count
  have counted : (store.delete id).asCounted mailbox count = (store.messages.removeAt id.get).tally
      CountedMail.mailboxId (fun mail => mail.share mail.countedAt) mailbox count := by
    simp only [asCounted, delete, found]
  simp only [drift, counted]
  simp only [asCounted, before, slip, taken, CountedStore.old, found]
  cases deleted : old.deletedLocally with
  | true =>
    simp only [delete, found, deleted, if_true, Figures.shareOf, CountedMail.share_deleted _ old count deleted]
    simp
  | false =>
    simp only [delete, found, deleted, Bool.false_eq_true, if_false]
    rw [Figures.lower_touched _ _ _ _ _ _ rfl (unclamped deleted)]
    by_cases here : mailbox = old.mailboxId
    · simp only [Figures.shareOf, here, if_true]
      omega
    · simp only [Figures.shareOf, here, if_false]
      omega

theorem write_drift (unclamped : ∀ row, store.old entry = some row -> store.taken entry = some row ∨ count = .bodiesOwed ->
      0 ≤ store.figures row.mailboxId count - row.share store.second count) :
    (store.write entry).drift mailbox count = store.drift mailbox count + store.slip entry mailbox count := by
  -- Every write changes how far a count is off by what it slips.
  cases entry with
  | insert mail =>
    have same := store.insert_drift mail mailbox count
    simp only [write, slip, taken, CountedStore.old, same]
    omega
  | update id columns =>
    cases found : store.messages.get id.get with
    | none => simp [write, update, slip, taken, CountedStore.old, found]
    | some old =>
      apply store.update_drift id columns old found mailbox count
      rintro (recounts | bodies)
      · exact unclamped old found (.inl (by simp [taken, recounts, CountedStore.old, found]))
      · cases count with
        | bodiesOwed => exact unclamped old found (.inr rfl)
        | _ => cases bodies
  | delete id =>
    cases found : store.messages.get id.get with
    | none => simp [write, delete, slip, taken, CountedStore.old, found]
    | some old =>
      apply store.delete_drift id old found mailbox count
      intro _
      exact unclamped old found (.inl found)

theorem now_write : (store.write entry).now = store.now := by
  cases entry with
  | insert => rfl
  | update id columns =>
    simp only [write, update]
    split
    · rfl
    · rfl
  | delete id =>
    simp only [write, delete]
    split
    · rfl
    · rfl

theorem counted_write (counted : store.Counted) : (store.write entry).Counted:= by
  intro mail member
  rw [second, now_write]
  cases entry with
  | insert mail =>
    rcases List.mem_append.mp member with before | new
    · exact counted _ before
    · rw [List.mem_singleton.mp new]
      exact le_refl store.second
  | update id columns =>
    simp only [write, update] at member
    split at member
    · exact counted mail member
    · obtain ⟨row, there, rfl⟩ := List.mem_map.mp member
      split
      · simp only
        split
        · exact le_refl store.second
        · exact counted row there
      · exact counted row there
  | delete id =>
    simp only [write, delete] at member
    split at member
    · exact counted mail member
    · exact counted mail (List.mem_of_mem_filter member)

theorem counted_elapse (counted : store.Counted) : (store.elapse elapsed).Counted:= by
  intro mail member
  apply (counted mail member).trans
  simp only [second, elapse, clock]
  have later : store.now / 1000 ≤ (store.now + elapsed) / 1000 :=
    Int.ediv_le_ediv (by decide) (Int.le_add_of_nonneg_right (Int.natCast_nonneg elapsed))
  exact Int.mul_le_mul_of_nonneg_right later (by decide)

theorem old_found (row : CountedMail) (found : store.old entry = some row) :
    ∃ id, store.messages.get id = some row := by
  cases entry with
  | insert => cases found
  | update id columns => exact ⟨id.get, found⟩
  | delete id => exact ⟨id.get, found⟩

theorem taken_old (row : CountedMail) (taken : store.taken entry = some row) :
    store.old entry = some row := by
  cases entry with
  | insert => exact taken
  | update id columns =>
    simp only [CountedStore.taken] at taken
    split at taken
    · exact taken
    · cases taken
  | delete id => exact taken

theorem room (id : Nat) (row : CountedMail) (found : store.messages.get id = some row)
    (count : MailboxCount) (ahead : 0 ≤ store.drift row.mailboxId count)
    (less : row.share store.second count ≤ row.share row.countedAt count) :
    0 ≤ store.figures row.mailboxId count - row.share store.second count := by
  -- A count that has not fallen short still holds the share of every row.
  have split := store.messages.tally_split CountedMail.mailboxId (fun mail => mail.share mail.countedAt) id row found
    row.mailboxId count
  have others := (store.messages.removeAt id).tally_nonneg CountedMail.mailboxId (fun mail => mail.share mail.countedAt)
    count (fun mail _ => mail.share_nonneg mail.countedAt count) row.mailboxId
  simp only [drift, asCounted, split, Figures.shareOf, if_true] at ahead
  omega

theorem counted_row (id : Nat) (row : CountedMail) (counted : store.Counted)
    (found : store.messages.get id = some row) : row.countedAt ≤ store.second :=
  counted row ((store.messages.get_eq_some id row).mp found).1

/-! ### Rows written in time -/

theorem write_exact (counted : store.Counted)
    (exact : ∀ mailbox count, store.drift mailbox count = 0) (inTime : store.InTime entry) :
    store.Unclamped entry ∧ ∀ mailbox count, (store.write entry).drift mailbox count = 0 := by
  have roomy : ∀ row, store.old entry = some row -> ∀ count, store.taken entry = some row ∨ count = .bodiesOwed ->
      0 ≤ store.figures row.mailboxId count - row.share store.second count := by
    intro row found count touched
    obtain ⟨id, there⟩ := store.old_found entry row found
    apply store.room id row there count (Int.le_of_eq (exact row.mailboxId count).symm)
    rcases touched with taken | bodies
    · exact Int.le_of_eq (row.share_kept store.second count (store.counted_row id row counted there) (inTime row taken))
    · rw [bodies]
      exact le_refl _
  constructor
  · cases entry with
    | insert => trivial
    | update id columns =>
      intro row found
      constructor
      · intro recounts count _
        exact roomy row found count (.inl (by simp [taken, old, recounts, found]))
      · intro _ count bodies
        cases count with
        | bodiesOwed => exact roomy row found .bodiesOwed (.inr rfl)
        | _ => cases bodies
    | delete id =>
      intro row found _ count _
      exact roomy row found count (.inl found)
  · intro mailbox count
    rw [store.write_drift entry mailbox count (fun row found touched => roomy row found count touched), exact, slip]
    cases taken : store.taken entry with
    | none => rfl
    | some row =>
      obtain ⟨id, there⟩ := store.old_found entry row (store.taken_old entry row taken)
      have kept := row.share_kept store.second count (store.counted_row id row counted there) (inTime row taken)
      simp [Figures.shareOf, kept]

/-! ### Rows written late -/

theorem slip_snoozed (counted : store.Counted) (mailbox : MailboxId) :
    0 ≤ store.slip entry mailbox .snoozed := by
  unfold slip
  cases taken : store.taken entry with
  | none => exact le_refl 0
  | some row =>
    obtain ⟨id, there⟩ := store.old_found entry row (store.taken_old entry row taken)
    have less := row.share_snoozed_le store.second (store.counted_row id row counted there)
    simp only [Figures.shareOf]
    split
    · omega
    · omega

theorem write_snoozed (counted : store.Counted)
    (ahead : ∀ mailbox, 0 ≤ store.drift mailbox .snoozed) (mailbox : MailboxId) :
    (store.write entry).drift mailbox .snoozed = store.drift mailbox .snoozed + store.slip entry mailbox .snoozed := by
  apply store.write_drift
  intro row found _
  obtain ⟨id, there⟩ := store.old_found entry row found
  exact store.room id row there .snoozed (ahead row.mailboxId)
    (row.share_snoozed_le store.second (store.counted_row id row counted there))

theorem slip_late (late : ¬ store.InTime entry) :
    ∃ mailbox, 0 < store.slip entry mailbox .snoozed := by
  -- A row written late leaves its mailbox one more snoozed message than it has.
  simp only [InTime, not_forall] at late
  obtain ⟨row, taken, lapsed⟩ := late
  obtain ⟨now, last⟩ := row.share_snoozed_lapsed store.second (by simpa using lapsed)
  refine ⟨row.mailboxId, ?_⟩
  simp [slip, taken, Figures.shareOf, now, last]

/-! ### Runs -/

def InStep (entry : Nat × Event) : Prop :=
  Run.Along write InTime (store.elapse entry.1) (store.writes entry.2)

def NeverClamped (entry : Nat × Event) : Prop :=
  Run.Along write Unclamped (store.elapse entry.1) (store.writes entry.2)

instance (store : CountedStore) (entry : Nat × Event) : Decidable (store.InStep entry) :=
  inferInstanceAs (Decidable (Run.Along _ _ _ _))

def Settled : Prop :=
  ∀ mail ∈ store.messages.rows, mail.snoozedUntil.all (fun wakeAt => store.second < wakeAt) = true

instance (store : CountedStore) : Decidable store.Settled :=
  inferInstanceAs (Decidable (∀ mail ∈ store.messages.rows, _))

def Exact : Prop := store.Counted ∧ ∀ mailbox count, store.drift mailbox count = 0

def Ahead : Prop := store.Counted ∧ ∀ mailbox, 0 ≤ store.drift mailbox .snoozed

theorem recount_settled (counted : store.Counted) (settled : store.Settled)
    (mailbox : MailboxId) (count : MailboxCount) : store.recount mailbox count = store.asCounted mailbox count := by
  have rows : store.messages.rows.map
        (fun mail => Figures.shareOf mail.mailboxId (mail.share store.second) mailbox count) =
      store.messages.rows.map
        (fun mail => Figures.shareOf mail.mailboxId (mail.share mail.countedAt) mailbox count) := by
    apply List.map_congr_left
    intro mail member
    have ahead := settled mail member
    have kept : mail.lapsed store.second = false := by
      cases snoozed : mail.snoozedUntil with
      | none => simp [CountedMail.lapsed, snoozed]
      | some wakeAt =>
        simp only [snoozed, Option.all_some, decide_eq_true_eq] at ahead
        simp [CountedMail.lapsed, snoozed, not_le.mpr ahead]
    simp only [Figures.shareOf, mail.share_kept store.second count (counted mail member) kept]
  simp only [recount, asCounted, Table.tally, Table.total, rows]

theorem elapse_exact (exact : store.Exact) : (store.elapse elapsed).Exact :=
  ⟨store.counted_elapse elapsed exact.1, exact.2⟩

theorem step_exact (entry : Nat × Event) (exact : store.Exact) (inStep : store.InStep entry) :
    (store.step entry).Exact ∧ store.NeverClamped entry := by
  have kept : ∀ (store : CountedStore) (entry : RowWrite), store.Exact -> store.InTime entry -> (store.write entry).Exact :=
    fun store entry exact inTime =>
      ⟨store.counted_write entry exact.1, (store.write_exact entry exact.1 exact.2 inTime).2⟩
  have start := store.elapse_exact entry.1 exact
  exact ⟨Run.run_invariant write Exact InTime kept _ _ start inStep,
    Run.along_invariant write Exact InTime Unclamped kept
      (fun store entry exact inTime => (store.write_exact entry exact.1 exact.2 inTime).1) _ _ start inStep⟩

theorem step_snoozed (entry : Nat × Event) (ahead : store.Ahead) : (store.step entry).Ahead ∧
      (∀ mailbox, store.drift mailbox .snoozed ≤ (store.step entry).drift mailbox .snoozed) ∧
      (¬ store.InStep entry -> ∃ mailbox, store.drift mailbox .snoozed < (store.step entry).drift mailbox .snoozed) := by
  apply Run.run_rises write (fun store mailbox => store.drift mailbox .snoozed) Ahead InTime
  · intro store entry ahead
    have rise := store.write_snoozed entry ahead.1 ahead.2
    have slips := store.slip_snoozed entry ahead.1
    refine ⟨⟨store.counted_write entry ahead.1, ?_⟩, ?_, ?_⟩
    · intro mailbox
      have before := ahead.2 mailbox
      have slipped := slips mailbox
      rw [rise mailbox]
      omega
    · intro mailbox
      have slipped := slips mailbox
      simp only [rise mailbox]
      omega
    · intro late
      obtain ⟨mailbox, more⟩ := store.slip_late entry late
      refine ⟨mailbox, ?_⟩
      simp only [rise mailbox]
      omega
  · exact ⟨store.counted_elapse entry.1 ahead.1, ahead.2⟩

theorem opened_exact (now : Instant) : (opened now).Exact :=
  ⟨fun _ member => (by cases member), fun _ _ => rfl⟩

/-- In a run that leaves no snooze past, the counts are exact and were never clamped if and only if no counted row was
written after its snooze ran out uncounted. -/
theorem counts_exact_iff (now : Instant) (events : List (Nat × Event))
    (settled : (Run.run step (opened now) events).Settled) :
    ((∀ mailbox count, (Run.run step (opened now) events).figures mailbox count =
        (Run.run step (opened now) events).recount mailbox count) ∧
      Run.Along step NeverClamped (opened now) events) <-> Run.Along step InStep (opened now) events := by
  have start := opened_exact now
  have ahead : (opened now).Ahead := ⟨start.1, fun mailbox => Int.le_of_eq (start.2 mailbox .snoozed).symm⟩
  obtain ⟨⟨counted, -⟩, -, rises⟩ :=
    Run.run_rises step (fun store mailbox => store.drift mailbox .snoozed) Ahead InStep step_snoozed _ events ahead
  have recount := recount_settled _ counted settled
  constructor
  · rintro ⟨exact, -⟩
    by_contra late
    obtain ⟨mailbox, more⟩ := rises late
    have same := exact mailbox .snoozed
    rw [recount] at same
    have none := start.2 mailbox .snoozed
    simp only [drift] at more none
    omega
  · intro inStep
    have last := Run.run_invariant step Exact InStep
      (fun store entry exact inStep => (store.step_exact entry exact inStep).1) _ events start inStep
    refine ⟨fun mailbox count => ?_, ?_⟩
    · rw [recount]
      have none := last.2 mailbox count
      simp only [drift] at none
      omega
    · exact Run.along_invariant step Exact InStep NeverClamped
        (fun store entry exact inStep => (store.step_exact entry exact inStep).1)
        (fun store entry exact inStep => (store.step_exact entry exact inStep).2) _ events start inStep

/-! ### A message woken -/

def unread : CountedMail where
  id := ⟨0⟩
  accountId := ⟨1⟩
  mailboxId := ⟨1⟩
  seen := false
  flagged := false
  deletedLocally := false
  bodyState := .headersOnly
  snoozedUntil := none
  countedAt := 0

def wokenAfter : List (Nat × Event) :=
  [(0, .insert unread), (0, .snooze [⟨1⟩] 5000), (elapsed, .wakeDue ⟨1⟩ (1000 + elapsed))]

/-- A sweep in a later second than the snooze ran out in leaves the mailbox a snoozed message it does not have. -/
theorem woken_in_a_later_second :
    (Run.run step (opened 1000) (wokenAfter 6000)).Settled ∧
      ¬ ((∀ mailbox count, (Run.run step (opened 1000) (wokenAfter 6000)).figures mailbox count =
          (Run.run step (opened 1000) (wokenAfter 6000)).recount mailbox count) ∧
        Run.Along step NeverClamped (opened 1000) (wokenAfter 6000)) := by
  constructor
  · decide
  · rintro ⟨exact, -⟩
    have snoozed := exact ⟨1⟩ .snoozed
    revert snoozed
    decide

def unsnoozed : List (Nat × Event) :=
  [(0, .insert unread), (0, .snooze [⟨1⟩] 5000), (1500, .unsnooze [⟨1⟩])]

/-- A message unsnoozed while it still sleeps is counted out and in again. -/
theorem unsnoozed_in_time :
    (∀ mailbox count, (Run.run step (opened 1000) unsnoozed).figures mailbox count =
        (Run.run step (opened 1000) unsnoozed).recount mailbox count) ∧
      Run.Along step NeverClamped (opened 1000) unsnoozed :=
  (counts_exact_iff 1000 unsnoozed (by decide)).mpr (by decide)

end CountedStore

end Postio

import Postio.Smtp.Session

set_option autoImplicit false

namespace Postio.Smtp

open SansIo

/-! ### What the client can know of a message it has handed over -/

def terminator : Bytes := [13, 10, 46, 13, 10]

def EndsMessage (bytes : Bytes) : Prop := terminator.IsSuffix bytes

instance (bytes : Bytes) : Decidable (EndsMessage bytes) := inferInstanceAs (Decidable (_ <:+ _))

def Sent (handed : List Bytes) : Prop := ∃ bytes ∈ handed, EndsMessage bytes

instance (handed : List Bytes) : Decidable (Sent handed) := inferInstanceAs (Decidable (∃ bytes ∈ handed, EndsMessage bytes))

def Refusal (code : Nat) : Prop := code / 100 = 4 ∨ code / 100 = 5

instance (code : Nat) : Decidable (Refusal code) := inferInstanceAs (Decidable (_ ∨ _))

variable (protocol : Protocol) (replyCode : Bytes -> Option Nat)

def RefusalRead (exchange : DataExchange) : Prop :=
  ∃ code, replyCode exchange.talk.since = some code ∧ Refusal code

def Classified (submission : Submission) : Prop :=
  ∀ error, submission.outcome = some (.error error) -> error.submissionIsIndeterminate = false ->
    ¬ Sent submission.handed ∨ ∃ exchange, submission.payload = some exchange ∧ RefusalRead replyCode exchange

/-- How the coroutines behave: a command is a line that ends no message, the message goes out only after the reply to `DATA`,
and what is then read is waited for until it is a whole reply, whose code is the one a rejection carries. -/
structure Documented : Prop where
  mail : ∀ mailbox utf8 state next input talk bytes, Reached (protocol.mail mailbox utf8) state input talk ->
    (protocol.mail mailbox utf8).resume state input = .wantsWrite bytes next -> ¬ EndsMessage bytes
  rcpt : ∀ mailbox state next input talk bytes, Reached (protocol.rcpt mailbox) state input talk ->
    (protocol.rcpt mailbox).resume state input = .wantsWrite bytes next -> ¬ EndsMessage bytes
  asks : ∀ raw state next input talk bytes, Reached (protocol.data raw) state input talk -> talk.answered = false ->
    (protocol.data raw).resume state input = .wantsWrite bytes next -> ¬ EndsMessage bytes
  rejects : ∀ raw state input talk fault, Reached (protocol.data raw) state input talk -> Sent talk.handed ->
    (protocol.data raw).resume state input = .complete (.error fault) ->
      ∀ code, fault = .bodyRejected code <-> replyCode talk.since = some code
  listens : ∀ raw state next input talk, Reached (protocol.data raw) state input talk -> Sent talk.handed ->
    (protocol.data raw).resume state input = .wantsRead next -> replyCode talk.since = none
  silence : replyCode [] = none

/-- What stopped the exchange once the message had been handed over says what became of it: a reply that refuses it, or a
transport failure that leaves it open. -/
def Plain : Ending Unit DataFault TransportError -> Prop
  | .waiting | .complete (.ok _) => True
  | .complete (.error (.bodyRejected code)) => Refusal code
  | .complete (.error _) => False
  | .failed failure => failure ≠ .tls ∧ failure ≠ .unsupported

def Legible (submission : Submission) : Prop :=
  ∀ exchange, submission.payload = some exchange -> Sent exchange.talk.handed -> Plain exchange.ending

/-! ### The exchange of the payload -/

theorem sent_append (handed more : List Bytes) : Sent (handed ++ more) <-> Sent handed ∨ Sent more := by
  unfold Sent
  simp only [List.mem_append, or_and_right, exists_or]

theorem sent_singleton (bytes : Bytes) : Sent [bytes] <-> EndsMessage bytes := by
  unfold Sent
  simp

theorem command_unsent (command : Coroutine UInt8 Unit CommandFault)
    (line : ∀ state next input talk bytes, Reached command state input talk ->
      command.resume state input = .wantsWrite bytes next -> ¬ EndsMessage bytes)
    (happenings : Happenings) : ¬ Sent (exchange command happenings).talk.handed := by
  -- A command ends no message.
  apply exchange_talk command (fun talk => ¬ Sent talk.handed)
  next => simp [Sent, Talk.silent]
  next => exact fun talk bytes unsent => unsent
  next =>
    intro state next input talk bytes reached asks unsent
    change ¬ Sent (talk.handed ++ [bytes])
    rw [sent_append, sent_singleton]
    exact not_or.mpr ⟨unsent, line state next input talk bytes reached asks⟩

def Made (ending : Ending Unit DataFault TransportError) (handed : List Bytes)
    (outcome : Option (Except SmtpError Unit)) : Prop :=
  -- What the session makes of how the exchange ended, with a flag that is set if the message was handed over.
  match ending with
  | .waiting => outcome = none
  | .complete (.ok ()) => outcome = some (.ok ())
  | .complete (.error fault) =>
    ∃ begun, (Sent handed -> begun = true) ∧ outcome = some (.error (tag begun (mapDataError fault)))
  | .failed failure =>
    ∃ begun, (Sent handed -> begun = true) ∧ outcome = some (.error (tag begun (.ofTransport failure)))

theorem sendPayload_made (data : Coroutine UInt8 Unit DataFault)
    (asked : ∀ state next input talk bytes, Reached data state input talk -> talk.answered = false ->
      data.resume state input = .wantsWrite bytes next -> ¬ EndsMessage bytes)
    (happenings : Happenings) (state : data.State) (input : Option Bytes) (talk : Talk UInt8) (payloadBegun : Bool)
    (reached : Reached data state input talk) (begun : Sent talk.handed -> payloadBegun = true) :
    Made (drive data happenings state input talk).ending (drive data happenings state input talk).talk.handed
      (sendPayload data happenings state input talk.answered payloadBegun) := by
  -- A write before any reply ends no message, and one after it sets the flag.
  have kept : ∀ bytes next, data.resume state input = .wantsWrite bytes next ->
      Sent (talk.handed ++ [bytes]) -> (payloadBegun || talk.answered) = true := by
    intro bytes next asks sent
    cases answered : talk.answered with
    | true => exact Bool.or_true payloadBegun
    | false =>
      rw [Bool.or_false]
      rcases (sent_append talk.handed [bytes]).mp sent with before | now
      next => exact begun before
      next => exact absurd ((sent_singleton bytes).mp now) (asked state next input talk bytes reached answered asks)
  induction happenings generalizing state input talk payloadBegun with
  | nil =>
    rw [drive, sendPayload]
    cases asks : data.resume state input with
    | complete result =>
      cases result with
      | ok value => rfl
      | error fault => exact ⟨payloadBegun, begun, rfl⟩
    | wantsRead next => rfl
    | wantsWrite bytes next => rfl
  | cons happening rest ih =>
    rw [drive, sendPayload]
    cases asks : data.resume state input with
    | complete result =>
      cases result with
      | ok value => rfl
      | error fault => exact ⟨payloadBegun, begun, rfl⟩
    | wantsRead next =>
      cases fails : happening.failure with
      | some failure => exact ⟨payloadBegun, begun, rfl⟩
      | none =>
        have heard := Reached.read state next input talk happening.arrives reached asks
        apply ih next (some happening.arrives) (talk.heard happening.arrives) payloadBegun heard begun
        intro bytes after wants sent
        exact (Bool.or_true payloadBegun)
    | wantsWrite bytes next =>
      have now := kept bytes next asks
      cases fails : happening.failure with
      | some failure => exact ⟨payloadBegun || talk.answered, now, rfl⟩
      | none =>
        have wrote := Reached.write state next input talk bytes reached asks
        apply ih next none (talk.wrote bytes) (payloadBegun || talk.answered) wrote now
        intro more after wants sent
        cases answered : talk.answered with
        | true => simp [Talk.wrote, answered]
        | false =>
          rcases (sent_append (talk.wrote bytes).handed [more]).mp sent with before | later
          next =>
            have set := now before
            rw [answered] at set
            simp [set]
          next =>
            have ends := (sent_singleton more).mp later
            exact absurd ends (asked next after none (talk.wrote bytes) more wrote answered wants)

theorem mapped_determinate (fault : DataFault) (begun : Bool) :
    (tag begun (mapDataError fault)).submissionIsIndeterminate = false := by
  have untagged : ∀ code, (classify code .messageRejected).onceThePayloadWasOnTheWire.submissionIsIndeterminate = false ∧
      (classify code .messageRejected).submissionIsIndeterminate = false := by
    intro code
    unfold classify
    split
    next => exact ⟨rfl, rfl⟩
    next => exact ⟨rfl, rfl⟩
  unfold tag
  cases begun with
  | true =>
    cases fault with
    | commandRejected code => exact (untagged code).1
    | bodyRejected code => exact (untagged code).1
    | other => rfl
  | false =>
    cases fault with
    | commandRejected code => exact (untagged code).2
    | bodyRejected code => exact (untagged code).2
    | other => rfl

theorem transport_determinate (failure : TransportError) :
    (tag true (.ofTransport failure)).submissionIsIndeterminate = false <-> failure = .tls ∨ failure = .unsupported := by
  -- A transport failure past the payload is tagged, all but the two that do not come of a connection that is lost.
  cases failure <;> decide

theorem payload_classified_iff (documented : Documented protocol replyCode) (raw : Bytes) (happenings : Happenings)
    (sent : Sent (exchange (protocol.data raw) happenings).talk.handed) :
    (∀ error, sendPayload (protocol.data raw) happenings (protocol.data raw).start none false false =
        some (.error error) -> error.submissionIsIndeterminate = false ->
          RefusalRead replyCode (exchange (protocol.data raw) happenings)) <->
      Plain (exchange (protocol.data raw) happenings).ending := by
  -- Once the message was handed over, the error is right about it exactly when what stopped the exchange is plain.
  have made := sendPayload_made (protocol.data raw) (fun state next input talk bytes reached answered asks =>
    documented.asks raw state next input talk bytes reached answered asks) happenings _ none .silent false .start
    (fun none => by simp [Sent, Talk.silent] at none)
  change Made (exchange (protocol.data raw) happenings).ending (exchange (protocol.data raw) happenings).talk.handed
    (sendPayload (protocol.data raw) happenings (protocol.data raw).start none false false) at made
  obtain ⟨state, input, talk, reached, ended⟩ := exchange_ended (protocol.data raw) happenings
  unfold RefusalRead
  cases ending : (exchange (protocol.data raw) happenings).ending with
  | waiting =>
    rw [ending] at made
    constructor
    next => exact fun _ => trivial
    next => exact fun _ error fails => nomatch made.symm.trans fails
  | complete result =>
    rw [ending] at made ended
    obtain ⟨asks, same⟩ := ended
    cases result with
    | ok value =>
      constructor
      next => exact fun _ => trivial
      next =>
        intro _ error fails
        exact nomatch (show _ = some (Except.ok ()) from made).symm.trans fails
    | error fault =>
      obtain ⟨begun, -, outcome⟩ := made
      have codes := documented.rejects raw state input talk fault reached (same ▸ sent) asks
      rw [same]
      constructor
      next =>
        intro right
        obtain ⟨code, read, refusal⟩ := right _ outcome (mapped_determinate fault begun)
        rw [(codes code).mpr read]
        exact refusal
      next =>
        intro plain error fails untold
        cases fault with
        | bodyRejected code => exact ⟨code, (codes code).mp rfl, plain⟩
        | commandRejected code => exact plain.elim
        | other => exact plain.elim
  | failed failure =>
    rw [ending] at made ended
    obtain ⟨begun, set, outcome⟩ := made
    rw [set sent] at outcome
    -- Nothing that is a reply had been read when the transport failed.
    have unread : replyCode (exchange (protocol.data raw) happenings).talk.since = none := by
      rcases ended with ⟨next, asks, same⟩ | ⟨bytes, next, asks, same⟩
      next =>
        rw [same]
        exact documented.listens raw state next input talk reached (same ▸ sent) asks
      next =>
        rw [same]
        exact documented.silence
    constructor
    next =>
      intro right
      by_contra rough
      have untold := (transport_determinate failure).mpr (by
        unfold Plain at rough
        tauto)
      obtain ⟨code, read, -⟩ := right _ outcome untold
      cases unread.symm.trans read
    next =>
      intro plain error fails untold
      cases outcome.symm.trans fails
      rcases (transport_determinate failure).mp untold with secure | unsupported
      next => exact absurd secure plain.1
      next => exact absurd unsupported plain.2

/-! ### The whole send -/

/-- A send that came to no payload has ended no message, and otherwise its commands had not. -/
inductive Shape (raw : Bytes) : Submission -> Prop where
  | stopped (outcome : Option (Except SmtpError Unit)) (handed : List Bytes) (unsent : ¬ Sent handed) :
      Shape raw { outcome, handed, payload := none }
  | reached (handed : List Bytes) (happenings : Happenings) (unsent : ¬ Sent handed) :
      Shape raw
        { outcome := sendPayload (protocol.data raw) happenings (protocol.data raw).start none false false
          handed := handed ++ (exchange (protocol.data raw) happenings).talk.handed
          payload := some (exchange (protocol.data raw) happenings) }

theorem run_unsent (command : Coroutine UInt8 Unit CommandFault) (mapped : CommandFault -> SmtpError)
    (line : ∀ state next input talk bytes, Reached command state input talk ->
      command.resume state input = .wantsWrite bytes next -> ¬ EndsMessage bytes)
    (happenings : Happenings) : ¬ Sent (run command mapped happenings).2.1 := command_unsent command line happenings

theorem sendData_shape (raw : Bytes) (cancelled : Nat -> Bool) (handed : List Bytes) (happenings : Happenings)
    (polls : Nat) (unsent : ¬ Sent handed) :
    Shape protocol (stripBcc raw) (sendData protocol raw cancelled handed happenings polls) := by
  unfold sendData
  split
  next => exact .stopped _ handed unsent
  next => exact .reached handed happenings unsent

theorem sendRcpts_shape (documented : Documented protocol replyCode) (raw : Bytes) (cancelled : Nat -> Bool)
    (recipients : List (List Char)) (polls : Nat) (handed : List Bytes) (happenings : Happenings)
    (unsent : ¬ Sent handed) :
    Shape protocol (stripBcc raw)
      (sendRcpts protocol cancelled (sendData protocol raw cancelled) recipients polls handed happenings) := by
  induction recipients generalizing polls handed happenings with
  | nil => exact sendData_shape protocol raw cancelled handed happenings polls unsent
  | cons recipient rest ih =>
    rw [sendRcpts]
    split
    next => exact .stopped _ handed unsent
    next =>
      cases parseMailbox protocol recipient with
      | error error => exact .stopped _ handed unsent
      | ok mailbox =>
        have quiet := run_unsent (protocol.rcpt mailbox) mapRcptError (fun state next input talk bytes reached asks =>
          documented.rcpt mailbox state next input talk bytes reached asks) happenings
        dsimp only
        generalize run (protocol.rcpt mailbox) mapRcptError happenings = ran at quiet ⊢
        obtain ⟨outcome, written, left⟩ := ran
        have both : ¬ Sent (handed ++ written) := by
          rw [sent_append]
          exact not_or.mpr ⟨unsent, quiet⟩
        cases outcome with
        | none => exact .stopped _ _ both
        | some result =>
          cases result with
          | error error => exact .stopped _ _ both
          | ok value => exact ih (polls + 1) (handed ++ written) left both

theorem sendMessage_shape (documented : Documented protocol replyCode) (capabilities : List (List Char))
    (source : List Char) (recipients : List (List Char)) (raw : Bytes) (cancelled : Nat -> Bool)
    (happenings : Happenings) :
    Shape protocol (stripBcc raw) (sendMessage protocol capabilities source recipients raw cancelled happenings) := by
  have nothing : ¬ Sent [] := by simp [Sent]
  unfold sendMessage
  split
  next => exact .stopped _ [] nothing
  next =>
    split
    next => exact .stopped _ [] nothing
    next =>
      dsimp only
      split
      next => exact .stopped _ [] nothing
      next =>
        cases parseMailbox protocol source with
        | error error => exact .stopped _ [] nothing
        | ok mailbox =>
          dsimp only
          generalize (source :: recipients).any localPartNeedsUtf8 = utf8
          have quiet := run_unsent (protocol.mail mailbox utf8) mapMailError (fun state next input talk bytes reached asks =>
            documented.mail mailbox utf8 state next input talk bytes reached asks) happenings
          generalize run (protocol.mail mailbox utf8) mapMailError happenings = ran at quiet ⊢
          obtain ⟨outcome, written, left⟩ := ran
          cases outcome with
          | none => exact .stopped _ _ quiet
          | some result =>
            cases result with
            | error error => exact .stopped _ _ quiet
            | ok value =>
              exact sendRcpts_shape protocol replyCode documented raw cancelled recipients 1 written left quiet

/-- An error that is not indeterminate means what it says exactly when what stopped the exchange past the payload is a reply
that refuses it or a connection that is lost. -/
theorem send_classified_iff (documented : Documented protocol replyCode) (capabilities : List (List Char))
    (source : List Char) (recipients : List (List Char)) (raw : Bytes) (cancelled : Nat -> Bool)
    (happenings : Happenings) :
    Classified replyCode (sendMessage protocol capabilities source recipients raw cancelled happenings) <->
      Legible (sendMessage protocol capabilities source recipients raw cancelled happenings) := by
  have shape := sendMessage_shape protocol replyCode documented capabilities source recipients raw cancelled happenings
  generalize sendMessage protocol capabilities source recipients raw cancelled happenings = submission at shape
  cases shape with
  | stopped outcome handed unsent =>
    constructor
    next => exact fun _ exchange none => nomatch none
    next => exact fun _ error _ _ => .inl unsent
  | reached handed left unsent =>
    unfold Classified Legible
    dsimp only
    by_cases sent : Sent (exchange (protocol.data (stripBcc raw)) left).talk.handed
    next =>
      have whole : Sent (handed ++ (exchange (protocol.data (stripBcc raw)) left).talk.handed) :=
        (sent_append _ _).mpr (.inr sent)
      have iff := payload_classified_iff protocol replyCode documented (stripBcc raw) left sent
      constructor
      next =>
        intro right exchange same _
        cases same
        apply iff.mp
        intro error fails untold
        rcases right error fails untold with never | ⟨exchange, same, read⟩
        next => exact absurd whole never
        next =>
          cases same
          exact read
      next =>
        intro legible error fails untold
        exact .inr ⟨_, rfl, iff.mpr (legible _ rfl sent) error fails untold⟩
    next =>
      constructor
      next =>
        intro _ exchange same there
        cases same
        exact absurd there sent
      next =>
        intro _ error _ _
        left
        rw [sent_append]
        exact not_or.mpr ⟨unsent, sent⟩

/-! ### A server that answers with one line -/

def readsCode : Bytes -> Option Nat
  | hundreds :: tens :: units :: rest =>
    if [hundreds, tens, units].all (fun digit => 48 ≤ digit && digit ≤ 57) && rest.drop (rest.length - 2) = [13, 10] then
      some ((hundreds.toNat - 48) * 100 + (tens.toNat - 48) * 10 + (units.toNat - 48))
    else none
  | _ => none

def wholeLine (bytes : Bytes) : Bool := bytes.drop (bytes.length - 2) = [13, 10]

inductive CommandStep where
  | begun
  | written
  | awaiting (read : Bytes)

def commandStep (line : Bytes) : CommandStep -> Option Bytes -> Asks CommandStep UInt8 Unit CommandFault
  | .begun, _ => .wantsWrite line .written
  | .written, _ => .wantsRead (.awaiting [])
  | .awaiting read, input =>
    let read := read ++ input.getD []
    match readsCode read with
    | some code => .complete (if code / 100 = 2 then .ok () else .error (.rejected code))
    | none => if wholeLine read then .complete (.error .other) else .wantsRead (.awaiting read)

def command (line : Bytes) : Coroutine UInt8 Unit CommandFault :=
  { State := CommandStep, start := .begun, resume := commandStep line }

inductive DataStep where
  | begun
  | asked
  | awaiting (read : Bytes)
  | sent
  | closing (read : Bytes)

def dataLine : Bytes := [68, 65, 84, 65, 13, 10]

variable (raw : Bytes) (line : List Char) (state : DataStep)

def dataStep : DataStep -> Option Bytes -> Asks DataStep UInt8 Unit DataFault
  | .begun, _ => .wantsWrite dataLine .asked
  | .asked, _ => .wantsRead (.awaiting [])
  | .awaiting read, input =>
    let read := read ++ input.getD []
    match readsCode read with
    | some code =>
      if code = 354 then .wantsWrite (raw ++ if wholeLine raw then [46, 13, 10] else terminator) .sent
      else .complete (.error (.commandRejected code))
    | none => if wholeLine read then .complete (.error .other) else .wantsRead (.awaiting read)
  | .sent, _ => .wantsRead (.closing [])
  | .closing read, input =>
    let read := read ++ input.getD []
    match readsCode read with
    | some code => .complete (if code / 100 = 2 then .ok () else .error (.bodyRejected code))
    | none => if wholeLine read then .complete (.error .other) else .wantsRead (.closing read)

def asciiOf (text : List Char) : Bytes := text.map (fun char => UInt8.ofNat char.toNat)

def mailLine (mailbox : Mailbox) : Bytes :=
  [60] ++ asciiOf mailbox.localPart ++ [64] ++ asciiOf mailbox.domain ++ [62, 13, 10]

def oneLine : Protocol :=
  { mail := fun mailbox _ => command ([77, 65, 73, 76, 32, 70, 82, 79, 77, 58] ++ mailLine mailbox)
    rcpt := fun mailbox => command ([82, 67, 80, 84, 32, 84, 79, 58] ++ mailLine mailbox)
    data := fun raw => { State := DataStep, start := .begun, resume := dataStep raw }
    domainToAscii := some }

theorem mailLine_ends (verb : Bytes) (mailbox : Mailbox) : ¬ EndsMessage (verb ++ mailLine mailbox) := by
  intro ends
  obtain ⟨start, same⟩ := ends
  have backwards := congrArg List.reverse same
  simp [terminator, mailLine] at backwards

theorem command_writes (line : Bytes) (ends : ¬ EndsMessage line) (state next : CommandStep) (input : Option Bytes)
    (bytes : Bytes) (asks : commandStep line state input = .wantsWrite bytes next) : ¬ EndsMessage bytes := by
  cases state with
  | begun =>
    cases asks
    exact ends
  | written => cases asks
  | awaiting read =>
    simp only [commandStep] at asks
    split at asks
    next => cases asks
    next =>
      split at asks
      next => cases asks
      next => cases asks

/-- What has been said when the exchange of a message is at each of its steps. -/
def Said (talk : Talk UInt8) (input : Option Bytes) : DataStep -> Prop
  | .begun => talk.handed = []
  | .asked => talk.handed = [dataLine]
  | .awaiting _ => talk.handed = [dataLine] ∧ talk.answered = true
  | .sent => talk.since = []
  | .closing read => talk.since = read ++ input.getD []

theorem data_said (input : Option Bytes) (talk : Talk UInt8)
    (reached : Reached (oneLine.data raw) state input talk) : Said talk input state := by
  apply reached_good (oneLine.data raw) (fun state input talk => Said talk input state) rfl ?_ ?_ state input talk reached
  next =>
    intro state next input talk bytes said asks
    change dataStep raw state input = .wantsRead next at asks
    change DataStep at state
    cases state with
    | begun => cases asks
    | asked =>
      cases asks
      exact ⟨said, rfl⟩
    | awaiting read =>
      simp only [dataStep] at asks
      split at asks
      next =>
        split at asks
        next => cases asks
        next => cases asks
      next =>
        split at asks
        next => cases asks
        next =>
          cases asks
          exact ⟨said.1, rfl⟩
    | sent =>
      cases asks
      change talk.since ++ bytes = [] ++ bytes
      rw [show talk.since = [] from said]
    | closing read =>
      simp only [dataStep] at asks
      split at asks
      next => cases asks
      next =>
        split at asks
        next => cases asks
        next =>
          cases asks
          change talk.since ++ bytes = read ++ input.getD [] ++ bytes
          rw [show talk.since = read ++ input.getD [] from said]
  next =>
    intro state next input talk bytes said asks
    change dataStep raw state input = .wantsWrite bytes next at asks
    change DataStep at state
    cases state with
    | begun =>
      cases asks
      change talk.handed ++ [dataLine] = [dataLine]
      rw [show talk.handed = [] from said, List.nil_append]
    | asked => cases asks
    | awaiting read =>
      simp only [dataStep] at asks
      split at asks
      next =>
        split at asks
        next =>
          cases asks
          rfl
        next => cases asks
      next =>
        split at asks
        next => cases asks
        next => cases asks
    | sent => cases asks
    | closing read =>
      simp only [dataStep] at asks
      split at asks
      next => cases asks
      next =>
        split at asks
        next => cases asks
        next => cases asks

theorem dataLine_unsent : ¬ Sent [dataLine] := by decide

theorem oneLine_rejects (input : Option Bytes) (talk : Talk UInt8) (fault : DataFault)
    (said : Said talk input state) (sent : Sent talk.handed)
    (asks : dataStep raw state input = .complete (.error fault)) (code : Nat) :
    fault = .bodyRejected code <-> readsCode talk.since = some code := by
  cases state with
  | begun => cases asks
  | asked => cases asks
  | awaiting read => exact absurd (said.1 ▸ sent) dataLine_unsent
  | sent => cases asks
  | closing read =>
    have since : talk.since = read ++ input.getD [] := said
    rw [since]
    simp only [dataStep] at asks
    split at asks
    next answer answered =>
      split at asks
      next => cases asks
      next =>
        cases asks
        rw [answered]
        simp
    next unread =>
      split at asks
      next =>
        cases asks
        rw [unread]
        simp
      next => cases asks

theorem oneLine_listens (next : DataStep) (input : Option Bytes) (talk : Talk UInt8)
    (said : Said talk input state) (sent : Sent talk.handed) (asks : dataStep raw state input = .wantsRead next) :
    readsCode talk.since = none := by
  cases state with
  | begun => cases asks
  | asked => exact absurd ((show talk.handed = [dataLine] from said) ▸ sent) dataLine_unsent
  | awaiting read => exact absurd (said.1 ▸ sent) dataLine_unsent
  | sent =>
    rw [show talk.since = [] from said]
    rfl
  | closing read =>
    have since : talk.since = read ++ input.getD [] := said
    rw [since]
    simp only [dataStep] at asks
    split at asks
    next => cases asks
    next unread => exact unread

theorem oneLine_asks (next : DataStep) (input : Option Bytes) (talk : Talk UInt8) (bytes : Bytes)
    (said : Said talk input state) (unanswered : talk.answered = false)
    (asks : dataStep raw state input = .wantsWrite bytes next) : ¬ EndsMessage bytes := by
  cases state with
  | begun =>
    cases asks
    decide
  | asked => cases asks
  | awaiting read => cases said.2.symm.trans unanswered
  | sent => cases asks
  | closing read =>
    simp only [dataStep] at asks
    split at asks
    next => cases asks
    next =>
      split at asks
      next => cases asks
      next => cases asks

theorem oneLine_documented : Documented oneLine readsCode where
  mail mailbox _ state next input _ bytes _ asks := command_writes _ (mailLine_ends _ mailbox) state next input bytes asks
  rcpt mailbox state next input _ bytes _ asks := command_writes _ (mailLine_ends _ mailbox) state next input bytes asks
  asks raw state next input talk bytes reached unanswered asks :=
    oneLine_asks raw state next input talk bytes (data_said raw state input talk reached) unanswered asks
  rejects raw state input talk fault reached sent asks :=
    oneLine_rejects raw state input talk fault (data_said raw state input talk reached) sent asks
  listens raw state next input talk reached sent asks :=
    oneLine_listens raw state next input talk (data_said raw state input talk reached) sent asks
  silence := rfl

def written : Happening UInt8 TransportError := { failure := none, arrives := [] }

def reply : Happening UInt8 TransportError :=
  { failure := none, arrives := asciiOf line ++ [13, 10] }

/-- The server takes the sender, the recipient and `DATA`, and then answers the message with a line. -/
def answeredWith : Happenings :=
  [written, reply ['2', '5', '0'], written, reply ['2', '5', '0'], written, reply ['3', '5', '4'], written, reply line]

def sentTo : Submission :=
  sendMessage oneLine [] ['a', '@', 'b'] [['c', '@', 'd']] [72, 105, 13, 10] (fun _ => false) (answeredWith line)

theorem send_full_mailbox :
    (sentTo ['5', '5', '2']).outcome = some (.error (.messageRejected 552)) ∧
      Classified readsCode (sentTo ['5', '5', '2']) :=
  ⟨rfl, (send_classified_iff oneLine readsCode oneLine_documented [] ['a', '@', 'b'] [['c', '@', 'd']] [72, 105, 13, 10]
    (fun _ => false) (answeredWith ['5', '5', '2'])).mpr (fun exchange same _ => by
      cases same
      exact .inr rfl)⟩

/-- The whole message is handed over and answered with a line that is no reply, and the send fails as if it had not been. -/
theorem send_unreadable_reply :
    Documented oneLine readsCode ∧ (sentTo ['?']).outcome = some (.error .protocol) ∧ Sent (sentTo ['?']).handed ∧
      ¬ Classified readsCode (sentTo ['?']) := by
  refine ⟨oneLine_documented, rfl, by decide, ?_⟩
  intro right
  rcases right .protocol rfl rfl with unsent | ⟨exchange, same, code, read, -⟩
  next => exact unsent (by decide)
  next =>
    cases same
    cases read

end Postio.Smtp

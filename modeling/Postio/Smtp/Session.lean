import Postio.Lib.SansIo

set_option autoImplicit false

namespace Postio.Smtp

open SansIo

abbrev Bytes := List UInt8

inductive TransportError where
  | connect
  | tls
  | closed
  | io
  | timedOut
  | unsupported
  deriving DecidableEq

inductive SmtpError where
  | configuration
  | disconnected
  | timedOut
  | tls
  | senderRejected (code : Nat)
  | recipientRejected (code : Nat)
  | messageRejected (code : Nat)
  | transient (code : Nat)
  | protocol
  | io
  | cancelled
  | indeterminate (source : SmtpError)
  deriving DecidableEq

namespace SmtpError

def ofTransport : TransportError -> SmtpError
  | .tls => .tls
  | .closed => .disconnected
  | .connect => .io
  | .io => .io
  | .timedOut => .timedOut
  | .unsupported => .protocol

def submissionIsIndeterminate : SmtpError -> Bool
  | .indeterminate _ => true
  | _ => false

/-- Only a failure the client raised is tagged. -/
def onceThePayloadWasOnTheWire : SmtpError -> SmtpError
  | .disconnected => .indeterminate .disconnected
  | .timedOut => .indeterminate .timedOut
  | .io => .indeterminate .io
  | .cancelled => .indeterminate .cancelled
  | answered => answered

end SmtpError

/-- How `MAIL FROM` or `RCPT TO` fails: the reply that rejects it, or anything else. -/
inductive CommandFault where
  | rejected (code : Nat)
  | other
  deriving DecidableEq

inductive DataFault where
  | commandRejected (code : Nat)
  | bodyRejected (code : Nat)
  | other
  deriving DecidableEq

def classify (code : Nat) (permanent : Nat -> SmtpError) : SmtpError :=
  if code / 100 = 4 then .transient code else permanent code

def mapMailError : CommandFault -> SmtpError
  | .rejected code => classify code .senderRejected
  | .other => .protocol

def mapRcptError : CommandFault -> SmtpError
  | .rejected code => classify code .recipientRejected
  | .other => .protocol

def mapDataError : DataFault -> SmtpError
  | .commandRejected code | .bodyRejected code => classify code .messageRejected
  | .other => .protocol

/-! ### The message, without its `Bcc` -/

def linesFrom : Bytes -> Bytes -> List Bytes
  | [], [] => []
  | current, [] => [current.reverse]
  | current, byte :: rest =>
    if byte = 10 then (byte :: current).reverse :: linesFrom [] rest else linesFrom (byte :: current) rest

def isBlank (line : Bytes) : Bool := line = [13, 10] || line = [10]

def startsWithWhitespace : Bytes -> Bool
  | byte :: _ => byte = 32 || byte = 9
  | [] => false

def isAsciiWhitespace (byte : UInt8) : Bool := byte = 32 || byte = 9 || byte = 10 || byte = 12 || byte = 13

def trimAsciiEnd (line : Bytes) : Bytes := (line.reverse.dropWhile isAsciiWhitespace).reverse

def asciiLower (byte : UInt8) : UInt8 := if 65 ≤ byte ∧ byte ≤ 90 then byte + 32 else byte

def isBcc (line : Bytes) : Bool :=
  !startsWithWhitespace line && line.contains 58 &&
    (trimAsciiEnd (line.takeWhile (fun byte => byte ≠ 58))).map asciiLower = [98, 99, 99]

/-- A folded line goes or stays with the field it follows, and the body as it is. -/
def keptLines : Bool -> List Bytes -> Bytes
  | _, [] => []
  | inBcc, line :: rest =>
    if isBlank line then line ++ rest.flatten
    else
      let inBcc := if startsWithWhitespace line then inBcc else isBcc line
      if inBcc then keptLines inBcc rest else line ++ keptLines inBcc rest

def stripBcc (raw : Bytes) : Bytes := keptLines false (linesFrom [] raw)

/-! ### Addresses -/

structure Mailbox where
  localPart : List Char
  domain : List Char
  deriving DecidableEq

def isControl (char : Char) : Bool := char.toNat < 32 || (127 ≤ char.toNat && char.toNat < 160)

def isWhitespace (char : Char) : Bool :=
  (9 ≤ char.toNat && char.toNat ≤ 13) || char.toNat = 0x20 || char.toNat = 0x85 || char.toNat = 0xA0 ||
    char.toNat = 0x1680 || (0x2000 ≤ char.toNat && char.toNat ≤ 0x200A) || char.toNat = 0x2028 ||
    char.toNat = 0x2029 || char.toNat = 0x202F || char.toNat = 0x205F || char.toNat = 0x3000

def isSafeAddressComponent (part : List Char) : Bool :=
  part.all (fun char => !isControl char && !isWhitespace char && char ≠ '<' && char ≠ '>')

def splitAddress (address : List Char) : Option (List Char × List Char) :=
  -- The text before the first `@` and the text after it.
  if '@' ∈ address then
    some (address.takeWhile (fun char => char ≠ '@'), (address.dropWhile (fun char => char ≠ '@')).tail)
  else none

def localPartNeedsUtf8 (address : List Char) : Bool :=
  !(((splitAddress address).map Prod.fst).getD address).all (fun char => decide (char.toNat < 128))

/-- What the session is built on: the coroutine of each command, and the rendering of a domain in ASCII. -/
structure Protocol where
  mail : Mailbox -> Bool -> Coroutine UInt8 Unit CommandFault
  rcpt : Mailbox -> Coroutine UInt8 Unit CommandFault
  data : Bytes -> Coroutine UInt8 Unit DataFault
  domainToAscii : List Char -> Option (List Char)

variable (protocol : Protocol)

def parseMailbox (address : List Char) : Except SmtpError Mailbox :=
  match splitAddress address with
  | none => .error .configuration
  | some (localPart, domain) =>
    if localPart.isEmpty || domain.isEmpty then .error .configuration
    else if !isSafeAddressComponent localPart || !isSafeAddressComponent domain then .error .configuration
    else
      match protocol.domainToAscii domain with
      | none => .error .configuration
      | some domain => .ok { localPart, domain }

def supports (capabilities : List (List Char)) (keyword : List Char) : Bool :=
  -- Whether the `EHLO` reply offers a keyword. The keywords were uppercased when they were read.
  capabilities.any (fun advertised =>
    decide (0 < ((advertised.dropWhile isWhitespace).takeWhile (fun char => !isWhitespace char)).length) &&
      decide ((advertised.dropWhile isWhitespace).takeWhile (fun char => !isWhitespace char) = keyword))

def smtpUtf8 : List Char := ['S', 'M', 'T', 'P', 'U', 'T', 'F', '8']

/-! ### One message -/

abbrev Happenings := List (Happening UInt8 TransportError)

abbrev DataExchange := Exchange UInt8 Unit DataFault TransportError

/-- How a send came out, what it handed to the transport, and how the exchange of its payload went, if it came to one. No
step of the program reads that. -/
structure Submission where
  outcome : Option (Except SmtpError Unit)
  handed : List Bytes
  payload : Option DataExchange

def tag (payloadBegun : Bool) (error : SmtpError) : SmtpError :=
  if payloadBegun then error.onceThePayloadWasOnTheWire else error

/-- The `DATA` exchange. The first write after a reply has been read is the payload going onto the wire. -/
def sendPayload (data : Coroutine UInt8 Unit DataFault) :
    Happenings -> data.State -> Option Bytes -> Bool -> Bool -> Option (Except SmtpError Unit)
  | [], state, input, _, payloadBegun =>
    match data.resume state input with
    | .complete (.ok ()) => some (.ok ())
    | .complete (.error fault) => some (.error (tag payloadBegun (mapDataError fault)))
    | .wantsRead _ | .wantsWrite _ _ => none
  | happening :: rest, state, input, answered, payloadBegun =>
    match data.resume state input with
    | .complete (.ok ()) => some (.ok ())
    | .complete (.error fault) => some (.error (tag payloadBegun (mapDataError fault)))
    | .wantsRead next =>
      match happening.failure with
      | some failure => some (.error (tag payloadBegun (.ofTransport failure)))
      | none => sendPayload data rest next (some happening.arrives) true payloadBegun
    | .wantsWrite _ next =>
      let payloadBegun := payloadBegun || answered
      match happening.failure with
      | some failure => some (.error (tag payloadBegun (.ofTransport failure)))
      | none => sendPayload data rest next none answered payloadBegun

def run (command : Coroutine UInt8 Unit CommandFault) (mapped : CommandFault -> SmtpError) (happenings : Happenings) :
    Option (Except SmtpError Unit) × List Bytes × Happenings :=
  -- A command's coroutine, run to its end. Every transport failure becomes an `Io`.
  let exchange := exchange command happenings
  (match exchange.ending with
    | .waiting => none
    | .complete (.ok ()) => some (.ok ())
    | .complete (.error fault) => some (.error (mapped fault))
    | .failed _ => some (.error .io), exchange.talk.handed, exchange.rest)

def refused (handed : List Bytes) (error : SmtpError) : Submission :=
  { outcome := some (.error error), handed, payload := none }

/-- The recipients in order. The first rejection ends the send. -/
def sendRcpts (cancelled : Nat -> Bool) (payload : List Bytes -> Happenings -> Nat -> Submission) :
    List (List Char) -> Nat -> List Bytes -> Happenings -> Submission
  | [], polls, handed, happenings => payload handed happenings polls
  | recipient :: rest, polls, handed, happenings =>
    if cancelled polls then refused handed .cancelled
    else
      match parseMailbox protocol recipient with
      | .error error => refused handed error
      | .ok mailbox =>
        match run (protocol.rcpt mailbox) mapRcptError happenings with
        | (none, written, _) => { outcome := none, handed := handed ++ written, payload := none }
        | (some (.error error), written, _) => refused (handed ++ written) error
        | (some (.ok ()), written, left) => sendRcpts cancelled payload rest (polls + 1) (handed ++ written) left

def sendData (raw : Bytes) (cancelled : Nat -> Bool) (handed : List Bytes) (happenings : Happenings) (polls : Nat) :
    Submission :=
  if cancelled polls then refused handed .cancelled
  else
    let data := protocol.data (stripBcc raw)
    let exchange := exchange data happenings
    { outcome := sendPayload data happenings data.start none false false
      handed := handed ++ exchange.talk.handed
      payload := some exchange }

def sendMessage (capabilities : List (List Char)) (source : List Char) (recipients : List (List Char)) (raw : Bytes)
    (cancelled : Nat -> Bool) (happenings : Happenings) : Submission :=
  -- `MAIL FROM`, one `RCPT TO` for each recipient, then `DATA`. `cancelled` is what each look at the token finds.
  if cancelled 0 then refused [] .cancelled
  else if recipients.isEmpty then refused [] .configuration
  else
    let needsUtf8 := (source :: recipients).any localPartNeedsUtf8
    if needsUtf8 && !supports capabilities smtpUtf8 then refused [] .configuration
    else
      match parseMailbox protocol source with
      | .error error => refused [] error
      | .ok mailbox =>
        match run (protocol.mail mailbox needsUtf8) mapMailError happenings with
        | (none, written, _) => { outcome := none, handed := written, payload := none }
        | (some (.error error), written, _) => refused written error
        | (some (.ok ()), written, left) =>
          sendRcpts protocol cancelled (sendData protocol raw cancelled) recipients 1 written left

end Postio.Smtp

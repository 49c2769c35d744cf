import Mathlib.Logic.Function.Basic
import Postio.Blobs.Opening
import Postio.Model.Ids

set_option autoImplicit false

namespace Postio.Blobs

def magic : Bytes := [0x00, 0x50, 0x42, 0x4C, 0x42]

def versionPlain : UInt8 := 1

def version : UInt8 := 2

def fixedLen : Nat := magic.length + 7

def headerLen : Nat := fixedLen + noncePrefixLen

def cipherNone : UInt8 := 0

def cipherXchacha20Poly1305 : UInt8 := 1

def noDictionary : Nat := 0

inductive Codec where
  | none
  | zstd
  deriving DecidableEq

def Codec.asByte : Codec -> UInt8
  | .none => 0
  | .zstd => 1

def Codec.fromByte (byte : UInt8) : Option Codec :=
  if byte = 0 then some .none else if byte = 1 then some .zstd else Option.none

/-- `u32::to_le_bytes` -/
def toLeBytes (value : Nat) : Bytes :=
  [UInt8.ofNat value, UInt8.ofNat (value / 256), UInt8.ofNat (value / 65536), UInt8.ofNat (value / 16777216)]

/-- `u32::from_le_bytes` -/
def fromLeBytes (bytes : Bytes) : Nat :=
  (bytes.getD 0 0).toNat + 256 * (bytes.getD 1 0).toNat + 65536 * (bytes.getD 2 0).toNat +
    16777216 * (bytes.getD 3 0).toNat

def header (codec : Codec) (dictionary : Nat) (nonce : NoncePrefix) : Bytes :=
  magic ++ [version, codec.asByte] ++ toLeBytes dictionary ++ [cipherXchacha20Poly1305] ++ nonce.bytes

/-- A container header, read. A container of version 1 has no nonce. -/
structure Container where
  codec : Codec
  nonce : Option NoncePrefix
  deriving DecidableEq

def Container.payloadAt (container : Container) : Nat := if container.nonce.isSome then headerLen else fixedLen

inductive Framing where
  | container (container : Container)
  | legacy
  deriving DecidableEq

inductive BlobError where
  | notFound
  | unreadableBlob (reason : String)
  deriving DecidableEq

/-- The nonce prefix a container carries, checked against its version. -/
def nonceOf (start : Bytes) (version cipher : UInt8) : Except BlobError (Option NoncePrefix) :=
  if version = versionPlain ∧ cipher = cipherNone then .ok none
  else if version = Blobs.version ∧ cipher = cipherXchacha20Poly1305 then
    if long : ((start.drop fixedLen).take noncePrefixLen).length = noncePrefixLen then
      .ok (some { bytes := (start.drop fixedLen).take noncePrefixLen, length := long })
    else .error (.unreadableBlob "this blob stops inside its own header")
  else
    .error (.unreadableBlob
      s!"blob cipher {cipher.toNat} is not one a version {version.toNat} container may carry")

/-- The framing of a file that begins with `start`. -/
def framingOf (start : Bytes) : Except BlobError Framing :=
  if start.length < fixedLen ∨ start.take magic.length ≠ magic then .ok .legacy
  else
    let version := start.getD magic.length 0
    if version ≠ Blobs.version ∧ version ≠ versionPlain then
      .error (.unreadableBlob s!"blob container version {version.toNat} is newer than this build reads")
    else
      match Codec.fromByte (start.getD (magic.length + 1) 0) with
      | none =>
        let codec := (start.getD (magic.length + 1) 0).toNat
        .error (.unreadableBlob s!"blob codec {codec} is not one this build knows")
      | some codec =>
        let dictionary := fromLeBytes (start.drop (magic.length + 2))
        if dictionary ≠ noDictionary then
          .error (.unreadableBlob
            s!"blob was compressed against dictionary {dictionary}, which this build does not have")
        else
          (nonceOf start version (start.getD (magic.length + 6) 0)).map (fun nonce => .container { codec, nonce })

/-- Compression as the library offers it: an encoder that holds bytes back, and what a decoder delivers of what it reads. -/
structure Zstd where
  Encoder : Type
  new : Encoder
  write : Encoder -> Bytes -> Encoder × List Bytes
  finish : Encoder -> List Bytes
  bulk : Bytes -> Option Bytes
  decode : Bytes × Option IoError -> Bytes × Option IoError

/-- The encoder after some writes, and what it has passed on. -/
def Zstd.encodeFrom (zstd : Zstd) (encoder : zstd.Encoder) : List Bytes -> zstd.Encoder × List Bytes
  | [] => (encoder, [])
  | bytes :: rest =>
    ((zstd.encodeFrom (zstd.write encoder bytes).1 rest).1,
      (zstd.write encoder bytes).2 ++ (zstd.encodeFrom (zstd.write encoder bytes).1 rest).2)

def Zstd.encoded (zstd : Zstd) (pieces : List Bytes) : Bytes :=
  ((zstd.encodeFrom zstd.new pieces).2 ++ zstd.finish (zstd.encodeFrom zstd.new pieces).1).flatten

structure Zstd.Lawful (zstd : Zstd) : Prop where
  undoes : ∀ pieces, zstd.decode (zstd.encoded pieces, none) = (pieces.flatten, none)
  propagates : ∀ bytes error, (zstd.decode (bytes, some error)).2 ≠ none

/-- Whether a sample is worth compressing. -/
def looksCompressible (zstd : Zstd) (sample : Bytes) : Bool :=
  if sample.length < 512 then true
  else
    match zstd.bulk sample with
    | none => false
    | some trial => trial.length * 10 < sample.length * 9

/-- What a store's key and the libraries under it give it. -/
structure Keys where
  aead : Aead
  zstd : Zstd
  -- The keyed digest of a content.
  digest : Bytes -> BlobId

structure Keys.Lawful (keys : Keys) : Prop where
  aead : keys.aead.Lawful
  zstd : keys.zstd.Lawful

variable (keys : Keys) (codec : Codec) (pace : Nat -> Nat) (file : Bytes)

def decodeWith : Codec -> Bytes × Option IoError -> Bytes × Option IoError
  | .none, payload => payload
  | .zstd, payload => keys.zstd.decode payload

structure Decoded where
  source : Paced UInt8
  stop : Option IoError

def Decoded.read (decoded : Decoded) (room : Nat) : Except IoError (Bytes × Decoded) :=
  if room ≠ 0 ∧ decoded.source.left.isEmpty then
    match decoded.stop with
    | none => .ok ([], decoded)
    | some error => .error error
  else .ok ((decoded.source.read room).1, { decoded with source := (decoded.source.read room).2 })

inductive BlobReader where
  | decoded (reader : Decoded)
  | opener (reader : Opener)

namespace BlobReader

variable (keys : Keys)

def read (reader : BlobReader) (room : Nat) : Except IoError (Bytes × BlobReader) :=
  match reader with
  | .decoded reader => (reader.read room).map (fun read => (read.1, .decoded read.2))
  | .opener reader => (reader.read keys.aead room).map (fun read => (read.1, .opener read.2))

def remaining : BlobReader -> Bytes × Option IoError
  | .decoded reader => (reader.source.left, reader.stop)
  | .opener reader => reader.remaining keys.aead

def Sound : BlobReader -> Prop
  | .decoded _ => True
  | .opener reader => reader.Sound

theorem decoded_delivers : Delivers Decoded.read (fun _ => True) (fun decoded => (decoded.source.left, decoded.stop)) := by
  constructor
  case more =>
    intro decoded room _ positive some_byte
    have filled : (decoded.source.read room).1 ≠ [] := fun none =>
      some_byte ((Paced.read_nil decoded.source room positive).mp none)
    refine ⟨_, { decoded with source := (decoded.source.read room).2 }, if_neg ?_, filled,
      Paced.read_bounded decoded.source room, trivial, ?_⟩
    next =>
      rintro ⟨-, empty⟩
      exact some_byte (List.isEmpty_iff.mp empty)
    next => rw [Paced.read_left]
  case ended =>
    intro decoded room _ positive ended
    obtain ⟨left, stop⟩ := Prod.mk.inj ended
    refine ⟨decoded, ?_, trivial, ended⟩
    rw [Decoded.read, if_pos ⟨by omega, by rw [left]; rfl⟩, stop]
  case failed =>
    intro decoded room error _ positive ended
    obtain ⟨left, stop⟩ := Prod.mk.inj ended
    rw [Decoded.read, if_pos ⟨by omega, by rw [left]; rfl⟩, stop]

theorem delivers : Delivers (read keys) Sound (remaining keys) := by
  constructor
  case more =>
    intro reader room sound positive some_byte
    cases reader with
    | decoded reader =>
      obtain ⟨piece, next, one, filled, short, kept, split⟩ := decoded_delivers.more reader room trivial positive some_byte
      exact ⟨piece, .decoded next, by rw [read, one]; rfl, filled, short, kept, split⟩
    | opener reader =>
      obtain ⟨piece, next, one, filled, short, kept, split⟩ :=
        (Opener.delivers keys.aead).more reader room sound positive some_byte
      exact ⟨piece, .opener next, by rw [read, one]; rfl, filled, short, kept, split⟩
  case ended =>
    intro reader room sound positive ended
    cases reader with
    | decoded reader =>
      obtain ⟨next, one, kept, after⟩ := decoded_delivers.ended reader room trivial positive ended
      exact ⟨.decoded next, by rw [read, one]; rfl, kept, after⟩
    | opener reader =>
      obtain ⟨next, one, kept, after⟩ := (Opener.delivers keys.aead).ended reader room sound positive ended
      exact ⟨.opener next, by rw [read, one]; rfl, kept, after⟩
  case failed =>
    intro reader room error sound positive ended
    cases reader with
    | decoded reader =>
      have fails := decoded_delivers.failed reader room error trivial positive ended
      rw [read, fails]
      rfl
    | opener reader =>
      have fails := (Opener.delivers keys.aead).failed reader room error sound positive ended
      rw [read, fails]
      rfl

end BlobReader

/-- A blob's file, opened. What is read of it past the header comes from the bytes read with the header and then the
file, at whatever pace these give it. -/
def readFile : Except BlobError BlobReader :=
  let (start, rest) := Paced.fill headerLen { left := file, pace }
  match framingOf start with
  | .error error => .error error
  | .ok .legacy => .ok (.decoded { source := { left := file, pace }, stop := none })
  | .ok (.container container) =>
    let payload : Paced UInt8 := { left := start.drop container.payloadAt ++ rest.left, pace := rest.pace }
    match container.nonce, container.codec with
    | none, .none => .ok (.decoded { source := payload, stop := none })
    | some nonce, .none => .ok (.opener (Opener.new payload nonce))
    | none, .zstd =>
      let content := keys.zstd.decode (payload.left, none)
      .ok (.decoded { source := { left := content.1, pace }, stop := content.2 })
    | some nonce, .zstd =>
      let content := keys.zstd.decode ((Opener.new payload nonce).remaining keys.aead)
      .ok (.decoded { source := { left := content.1, pace }, stop := content.2 })

theorem readFile_sound (reader : BlobReader) (opened : readFile keys pace file = .ok reader) : reader.Sound:= by
  unfold readFile at opened
  simp only at opened
  split at opened
  next => cases opened
  next =>
    cases opened
    trivial
  next =>
    split at opened <;> cases opened <;> first | trivial | exact Opener.new_sound _ _

theorem header_length (dictionary : Nat) (nonce : NoncePrefix) : (header codec dictionary nonce).length = headerLen:= by
  simp only [header, magic, toLeBytes, List.length_append, List.length_cons, List.length_nil, nonce.length, headerLen,
    fixedLen]

theorem framingOf_header (nonce : NoncePrefix) :
    framingOf (header codec noDictionary nonce) = .ok (.container { codec, nonce := some nonce }) := by
  have long := header_length codec noDictionary nonce
  have nonceBytes : ((header codec noDictionary nonce).drop fixedLen).take noncePrefixLen = nonce.bytes := by
    change nonce.bytes.take noncePrefixLen = nonce.bytes
    rw [← nonce.length, List.take_length]
  have found : nonceOf (header codec noDictionary nonce) version cipherXchacha20Poly1305 = .ok (some nonce) := by
    unfold nonceOf
    rw [if_neg (by decide), if_pos ⟨rfl, rfl⟩, dif_pos (by rw [nonceBytes, nonce.length])]
    congr 2
    cases nonce
    simp only [NoncePrefix.mk.injEq]
    exact nonceBytes
  have named : Codec.fromByte codec.asByte = some codec := by cases codec <;> rfl
  unfold framingOf
  rw [if_neg]
  case hnc =>
    rintro (short | other)
    next =>
      rw [long] at short
      exact absurd short (by decide)
    next => exact other rfl
  change (if version ≠ version ∧ version ≠ versionPlain then _ else match Codec.fromByte codec.asByte with
    | none => _
    | some codec => if (0 : Nat) ≠ noDictionary then _ else
        (nonceOf (header _ noDictionary nonce) version cipherXchacha20Poly1305).map _) = _
  rw [if_neg (by simp), named]
  simp only [noDictionary, ne_eq, not_true_eq_false, if_false]
  rw [show nonceOf (header codec 0 nonce) version cipherXchacha20Poly1305 = .ok (some nonce) from found]
  rfl

/-- What a file says, whatever the pace it is read at. -/
def contained : Except BlobError (Bytes × Option IoError) :=
  match framingOf (file.take headerLen) with
  | .error error => .error error
  | .ok .legacy => .ok (file, none)
  | .ok (.container container) =>
    .ok (decodeWith keys container.codec (match container.nonce with
      | none => (file.drop fixedLen, none)
      | some nonce => opened keys.aead nonce (file.drop headerLen)))

theorem readFile_contained : (readFile keys pace file).map (BlobReader.remaining keys) = contained keys file:= by
  obtain ⟨start, left⟩ := Paced.fill_exact headerLen { left := file, pace }
  unfold readFile contained
  cases shape : Paced.fill headerLen { left := file, pace } with
  | mk first rest =>
    rw [shape] at start left
    simp only at start left ⊢
    rw [start]
    have payload : ∀ offset, offset ≤ headerLen → (file.take headerLen).drop offset ++ rest.left = file.drop offset := by
      intro offset before
      rw [left, List.drop_take]
      have whole : headerLen = offset + (headerLen - offset) := by omega
      conv => lhs; rw [whole, ← List.drop_drop]
      rw [Nat.add_sub_cancel_left, List.take_append_drop]
    cases framingOf (file.take headerLen) with
    | error error => rfl
    | ok framing =>
      cases framing with
      | legacy => rfl
      | container container =>
        obtain ⟨codec, nonce⟩ := container
        cases nonce with
        | none =>
          have bytes := payload fixedLen (by decide)
          cases codec <;>
            simp [Container.payloadAt, Except.map, BlobReader.remaining, decodeWith, bytes]
        | some nonce =>
          cases codec <;>
            simp [Container.payloadAt, Except.map, BlobReader.remaining, Opener.new_remaining, decodeWith, left]

theorem contained_written (nonce : NoncePrefix) (body : Bytes) :
    contained keys (header codec noDictionary nonce ++ body) =
      .ok (decodeWith keys codec (opened keys.aead nonce body)) := by
  have long := header_length codec noDictionary nonce
  unfold contained
  rw [← long, List.take_left, framingOf_header, List.drop_left]

end Postio.Blobs

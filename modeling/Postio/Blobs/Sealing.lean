import Postio.Lib.Chunks
import Postio.Lib.Paced

set_option autoImplicit false

namespace Postio.Blobs

abbrev Bytes := List UInt8

structure Aead where
  encrypt : Bytes -> Bytes -> Bytes × Bytes
  decrypt : Bytes -> Bytes -> Bytes -> Option Bytes

def tagLen : Nat := 16

def noncePrefixLen : Nat := 19

def chunk : Nat := 64 * 1024

def sealedChunk : Nat := chunk + tagLen

def indexBound : Nat := 4294967296

/-- What the code relies on: a ciphertext as long as its plaintext, a tag of one length, and opening what was sealed. -/
structure Aead.Lawful (aead : Aead) : Prop where
  cipherLength : ∀ nonce plain, (aead.encrypt nonce plain).1.length = plain.length
  tagLength : ∀ nonce plain, (aead.encrypt nonce plain).2.length = tagLen
  opens : ∀ nonce plain, aead.decrypt nonce (aead.encrypt nonce plain).1 (aead.encrypt nonce plain).2 = some plain

structure NoncePrefix where
  bytes : Bytes
  length : bytes.length = noncePrefixLen
  deriving DecidableEq

inductive IoError where
  | notAuthentic
  | tooLarge
  -- What the decoder says of a payload that is no frame of its own.
  | decoder (reason : String)
  deriving DecidableEq

variable (aead : Aead) (noncePrefix : NoncePrefix) (payload : Bytes) (index : Nat)

/-- `u32::to_be_bytes` -/
def toBeBytes : Bytes :=
  [UInt8.ofNat (index / 16777216), UInt8.ofNat (index / 65536), UInt8.ofNat (index / 256), UInt8.ofNat index]

def chunkNonce (last : Bool) : Bytes :=
  noncePrefix.bytes ++ toBeBytes index ++ [if last then 1 else 0]

structure Sealer where
  noncePrefix : NoncePrefix
  index : Nat
  -- Plaintext that waits for its chunk to fill.
  pending : Bytes
  -- What the inner writer has been given.
  written : Bytes

namespace Sealer

variable (aead : Aead)

def withPrefix (written : Bytes) (noncePrefix : NoncePrefix) : Sealer := { noncePrefix, index := 0, pending := [], written }

variable (sealer : Sealer)

def sealPending (last : Bool) : Except IoError Sealer :=
  let (cipher, tag) := aead.encrypt (chunkNonce sealer.noncePrefix sealer.index last) sealer.pending
  let written := sealer.written ++ cipher ++ tag
  if sealer.index + 1 < indexBound then .ok { sealer with index := sealer.index + 1, pending := [], written }
  else .error .tooLarge

def makeRoom : Except IoError Sealer :=
  if sealer.pending.length = chunk then sealer.sealPending aead false else .ok sealer

def writeFrom : Nat -> Sealer -> Bytes -> Except IoError Sealer
  | 0, sealer, _ => .ok sealer
  | turns + 1, sealer, rest =>
    if rest.isEmpty then .ok sealer
    else
      match sealer.makeRoom aead with
      | .error error => .error error
      | .ok sealer =>
        let take := min (chunk - sealer.pending.length) rest.length
        writeFrom turns { sealer with pending := sealer.pending ++ rest.take take } (rest.drop take)

def write (bytes : Bytes) : Except IoError Sealer := writeFrom aead bytes.length sealer bytes

def finish : Except IoError Bytes :=
  (sealer.sealPending aead true).map Sealer.written

end Sealer

/-! What is on disk once a payload is sealed. -/

def sealChunk (last : Bool) (plain : Bytes) : Bytes :=
  (aead.encrypt (chunkNonce noncePrefix index last) plain).1 ++ (aead.encrypt (chunkNonce noncePrefix index last) plain).2

def numbered : List (Nat × Bool × Bytes) :=
  let chunks := Chunks.chunksOf chunk payload
  chunks.zipIdx.map (fun entry => (entry.2, decide (entry.2 + 1 = chunks.length), entry.1))

def nonces : List Bytes :=
  (numbered payload).map (fun entry => chunkNonce noncePrefix entry.1 entry.2.1)

def sealedPayload : Bytes :=
  (numbered payload).flatMap (fun entry => sealChunk aead noncePrefix entry.1 entry.2.1 entry.2.2)

def Fits : Prop := (Chunks.chunksOf chunk payload).length < indexBound

def sealedFront (full : List Bytes) : Bytes :=
  full.zipIdx.flatMap (fun entry => sealChunk aead noncePrefix entry.2 false entry.1)

/-- A sealer that has taken a payload: its full chunks sealed, the rest pending. -/
structure Sealing (aead : Aead) (base : Bytes) (noncePrefix : NoncePrefix) (payload : Bytes) (full : List Bytes)
    (sealer : Sealer) : Prop where
  same : sealer.noncePrefix = noncePrefix
  index : sealer.index = full.length
  written : sealer.written = base ++ sealedFront aead noncePrefix full
  whole : ∀ plain ∈ full, plain.length = chunk
  split : payload = full.flatten ++ sealer.pending
  short : sealer.pending.length ≤ chunk
  filled : full ≠ [] -> sealer.pending ≠ []
  room : full.length < indexBound

theorem chunk_positive : 0 < chunk := by decide

section

variable {aead : Aead} {base : Bytes} {noncePrefix : NoncePrefix}

theorem Sealing.chunks {payload : Bytes} {full : List Bytes} {sealer : Sealer}
    (sealing : Sealing aead base noncePrefix payload full sealer) :
    Chunks.chunksOf chunk payload = full ++ [sealer.pending] := by
  rw [sealing.split]
  exact Chunks.chunksOf_full chunk full sealer.pending chunk_positive sealing.whole sealing.short sealing.filled

theorem withPrefix_sealing (base : Bytes) (noncePrefix : NoncePrefix) :
    Sealing aead base noncePrefix [] [] (Sealer.withPrefix base noncePrefix) where
  same := rfl
  index := rfl
  written := by simp [Sealer.withPrefix, sealedFront]
  whole := by simp
  split := rfl
  short := Nat.zero_le _
  filled := fun none => absurd rfl none
  room := by decide

variable (payload : Bytes) (full : List Bytes)

theorem sealedFront_concat (plain : Bytes) :
    sealedFront aead noncePrefix (full ++ [plain]) =
      sealedFront aead noncePrefix full ++ sealChunk aead noncePrefix full.length false plain := by
  simp [sealedFront, List.zipIdx_append]

theorem writeFrom_step (turns : Nat) (payload rest : Bytes) (full : List Bytes) (sealer : Sealer)
    (sealing : Sealing aead base noncePrefix payload full sealer) (enough : rest.length ≤ turns) :
    match Sealer.writeFrom aead turns sealer rest with
    | .ok next => ∃ full, Sealing aead base noncePrefix (payload ++ rest) full next
    | .error error => error = .tooLarge ∧ ¬ Fits (payload ++ rest) := by
  induction turns generalizing payload rest full sealer with
  | zero =>
    obtain rfl : rest = [] := List.length_eq_zero_iff.mp (by omega)
    exact ⟨full, by simpa using sealing⟩
  | succ turns ih =>
    unfold Sealer.writeFrom
    by_cases ended : rest = []
    case pos =>
      rw [if_pos (by simp [ended])]
      exact ⟨full, by simpa [ended] using sealing⟩
    case neg =>
      rw [if_neg (by simpa using ended)]
      have positive := List.length_pos_of_ne_nil ended
      -- What is taken after room was made keeps the form, whichever chunks are sealed by then.
      have taken : ∀ full (sealer : Sealer), sealer.noncePrefix = noncePrefix → sealer.index = full.length →
          sealer.written = base ++ sealedFront aead noncePrefix full → (∀ plain ∈ full, plain.length = chunk) →
          payload = full.flatten ++ sealer.pending → sealer.pending.length < chunk → full.length < indexBound →
          match Sealer.writeFrom aead turns
              { sealer with
                pending := sealer.pending ++ rest.take (min (chunk - sealer.pending.length) rest.length) }
              (rest.drop (min (chunk - sealer.pending.length) rest.length)) with
          | .ok next => ∃ full, Sealing aead base noncePrefix (payload ++ rest) full next
          | .error error => error = .tooLarge ∧ ¬ Fits (payload ++ rest) := by
        intro full sealer same index written whole split short room
        have some_room : 0 < min (chunk - sealer.pending.length) rest.length := by omega
        have further := ih (payload ++ rest.take (min (chunk - sealer.pending.length) rest.length))
          (rest.drop (min (chunk - sealer.pending.length) rest.length)) full
          { sealer with pending := sealer.pending ++ rest.take (min (chunk - sealer.pending.length) rest.length) }
          { same, index, written, whole, room
            split := by simp only [split, List.append_assoc]
            short := by
              simp only [List.length_append, List.length_take]
              omega
            filled := by
              intro _ none
              have lengths := congrArg List.length none
              simp only [List.length_append, List.length_take, List.length_nil] at lengths
              omega }
          (by
            rw [List.length_drop]
            omega)
        rwa [List.append_assoc, List.take_append_drop] at further
      unfold Sealer.makeRoom
      by_cases isFull : sealer.pending.length = chunk
      case neg =>
        rw [if_neg isFull]
        have small := sealing.short
        exact taken full sealer sealing.same sealing.index sealing.written sealing.whole sealing.split (by omega)
          sealing.room
      case pos =>
        rw [if_pos isFull]
        unfold Sealer.sealPending
        have moved : payload = (full ++ [sealer.pending]).flatten ++ [] := by simpa using sealing.split
        by_cases within : sealer.index + 1 < indexBound
        case pos =>
          simp only [if_pos within]
          refine taken (full ++ [sealer.pending])
            { sealer with
              index := sealer.index + 1
              pending := []
              written := sealer.written ++
                (aead.encrypt (chunkNonce sealer.noncePrefix sealer.index false) sealer.pending).1 ++
                (aead.encrypt (chunkNonce sealer.noncePrefix sealer.index false) sealer.pending).2 }
            sealing.same ?_ ?_ ?_ moved chunk_positive ?_
          next => simp [sealing.index]
          next =>
            rw [sealedFront_concat, sealing.written, sealing.same, sealing.index]
            simp [sealChunk]
          next =>
            intro plain inside
            rcases List.mem_append.mp inside with earlier | this
            next => exact sealing.whole plain earlier
            next => rw [List.mem_singleton.mp this, isFull]
          next => simpa [sealing.index] using within
        case neg =>
          simp only [if_neg within]
          refine ⟨trivial, ?_⟩
          intro fits
          -- The chunk that is full and at least one more for what is still to come.
          have whole : ∀ plain ∈ full ++ [sealer.pending], plain.length = chunk := by
            intro plain inside
            rcases List.mem_append.mp inside with earlier | this
            next => exact sealing.whole plain earlier
            next => rw [List.mem_singleton.mp this, isFull]
          have count : (full ++ [sealer.pending]).flatten.length = (full.length + 1) * chunk := by
            rw [List.length_flatten, List.map_congr_left whole]
            simp [Nat.succ_mul]
          unfold Fits at fits
          rw [Chunks.chunksOf_length chunk _ chunk_positive, moved, List.append_nil, List.length_append, count] at fits
          rw [sealing.index] at within
          have more : full.length + 2 ≤ ((full.length + 1) * chunk + rest.length + chunk - 1) / chunk := by
            rw [Nat.le_div_iff_mul_le chunk_positive]
            have expand : (full.length + 2) * chunk = (full.length + 1) * chunk + chunk := by
              rw [Nat.add_mul, Nat.add_mul]
              omega
            omega
          omega

theorem write_sealing (bytes : Bytes) (full : List Bytes) (sealer : Sealer)
    (sealing : Sealing aead base noncePrefix payload full sealer) :
    match sealer.write aead bytes with
    | .ok next => ∃ full, Sealing aead base noncePrefix (payload ++ bytes) full next
    | .error error => error = .tooLarge ∧ ¬ Fits (payload ++ bytes) :=
  writeFrom_step bytes.length payload bytes full sealer sealing (Nat.le_refl _)

theorem Fits.front {first second : Bytes} (fits : Fits (first ++ second)) : Fits first := by
  unfold Fits at fits ⊢
  rw [Chunks.chunksOf_length chunk _ chunk_positive] at fits ⊢
  have fewer : (first.length + chunk - 1) / chunk ≤ ((first ++ second).length + chunk - 1) / chunk := by
    apply Nat.div_le_div_right
    rw [List.length_append]
    omega
  omega

/-- Writes of any sizes, one after the other. -/
def writeAll (aead : Aead) : List Bytes -> Sealer -> Except IoError Sealer
  | [], sealer => .ok sealer
  | bytes :: rest, sealer =>
    match sealer.write aead bytes with
    | .error error => .error error
    | .ok next => writeAll aead rest next

theorem writeAll_sealing (pieces : List Bytes) (payload : Bytes) (full : List Bytes) (sealer : Sealer)
    (sealing : Sealing aead base noncePrefix payload full sealer) :
    match writeAll aead pieces sealer with
    | .ok next => ∃ full, Sealing aead base noncePrefix (payload ++ pieces.flatten) full next
    | .error error => error = .tooLarge ∧ ¬ Fits (payload ++ pieces.flatten) := by
  induction pieces generalizing payload full sealer with
  | nil => exact ⟨full, by simpa using sealing⟩
  | cons bytes rest ih =>
    have here := write_sealing payload bytes full sealer sealing
    unfold writeAll
    cases wrote : sealer.write aead bytes with
    | error error =>
      rw [wrote] at here
      refine ⟨here.1, fun fits => here.2 ?_⟩
      rw [List.flatten_cons, ← List.append_assoc] at fits
      exact fits.front
    | ok next =>
      rw [wrote] at here
      obtain ⟨further, onward⟩ := here
      have later := ih (payload ++ bytes) further next onward
      rwa [List.append_assoc, ← List.flatten_cons] at later

theorem numbered_full (last : Bytes) (chunks : Chunks.chunksOf chunk payload = full ++ [last]) :
    numbered payload = full.zipIdx.map (fun entry => (entry.2, false, entry.1)) ++ [(full.length, true, last)] := by
  simp only [numbered, chunks, List.zipIdx_append, List.map_append, List.length_append, List.length_singleton]
  congr 1
  next =>
    apply List.map_congr_left
    rintro ⟨plain, index⟩ inside
    have small := List.snd_lt_of_mem_zipIdx inside
    have earlier : index ≠ full.length := by omega
    simp [earlier]
  next => simp

theorem sealedPayload_full (last : Bytes) (chunks : Chunks.chunksOf chunk payload = full ++ [last]) :
    sealedPayload aead noncePrefix payload =
      sealedFront aead noncePrefix full ++ sealChunk aead noncePrefix full.length true last := by
  rw [sealedPayload, numbered_full payload full last chunks, List.flatMap_append, List.flatMap_map]
  simp [sealedFront]

theorem finish_sealing (sealer : Sealer) (sealing : Sealing aead base noncePrefix payload full sealer) :
    (Fits payload -> sealer.finish aead = .ok (base ++ sealedPayload aead noncePrefix payload)) ∧
      (¬ Fits payload -> sealer.finish aead = .error .tooLarge) := by
  have fits : Fits payload ↔ sealer.index + 1 < indexBound := by
    rw [Fits, sealing.chunks, List.length_append, List.length_singleton, sealing.index]
  unfold Sealer.finish Sealer.sealPending
  constructor
  next =>
    intro room
    simp only [if_pos (fits.mp room), Except.map]
    rw [sealedPayload_full payload full sealer.pending sealing.chunks, sealing.written, sealing.same, sealing.index]
    simp [sealChunk]
  next =>
    intro cramped
    simp only [if_neg (fun room => cramped (fits.mpr room)), Except.map]

theorem numbered_length : (numbered payload).length = max 1 ((payload.length + chunk - 1) / chunk):= by
  rw [numbered, List.length_map, List.length_zipIdx]
  exact Chunks.chunksOf_length chunk payload chunk_positive

theorem toBeBytes_inj (index other : Nat) (small : index < indexBound) (also : other < indexBound)
    (same : toBeBytes index = toBeBytes other) : index = other := by
  simp only [toBeBytes, List.cons.injEq, and_true] at same
  obtain ⟨first, second, third, fourth⟩ := same
  have digits : ∀ value another : Nat, UInt8.ofNat value = UInt8.ofNat another → value % 256 = another % 256 := by
    intro value another equal
    simpa [UInt8.toNat_ofNat'] using congrArg UInt8.toNat equal
  have a := digits _ _ first
  have b := digits _ _ second
  have c := digits _ _ third
  have d := digits _ _ fourth
  unfold indexBound at small also
  omega

theorem chunkNonce_inj (noncePrefix : NoncePrefix) (index other : Nat) (last final : Bool) (small : index < indexBound)
    (also : other < indexBound) (same : chunkNonce noncePrefix index last = chunkNonce noncePrefix other final) :
    index = other ∧ last = final := by
  simp only [chunkNonce, List.append_assoc, List.append_cancel_left_eq] at same
  obtain ⟨bytes, flags⟩ := List.append_inj same rfl
  refine ⟨toBeBytes_inj index other small also bytes, ?_⟩
  cases last <;> cases final <;> first | rfl | exact absurd flags (by decide)

theorem nonces_nodup (noncePrefix : NoncePrefix) (payload : Bytes) (fits : Fits payload) :
    (nonces noncePrefix payload).Nodup := by
  unfold nonces numbered
  rw [List.map_map]
  have indices : ((Chunks.chunksOf chunk payload).zipIdx.map Prod.snd).Nodup := by
    rw [List.zipIdx_map_snd]
    exact List.nodup_range'
  have distinct : (Chunks.chunksOf chunk payload).zipIdx.Pairwise (fun entry other => entry.2 ≠ other.2) :=
    List.pairwise_map.mp indices
  apply List.pairwise_map.mpr
  apply distinct.imp_of_mem
  intro entry other inside among apart same
  have small := List.snd_lt_of_mem_zipIdx inside
  have also := List.snd_lt_of_mem_zipIdx among
  unfold Fits at fits
  exact apart (chunkNonce_inj noncePrefix entry.2 other.2 _ _ (by omega) (by omega) same).1

end

end Postio.Blobs

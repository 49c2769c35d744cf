import Postio.Blobs.Container

set_option autoImplicit false

namespace Postio.Blobs

def probeBytes : Nat := chunk

/-- Where a writer's bytes are going. -/
inductive WriterState (keys : Keys) where
  -- Nothing is on disk yet, not even the header.
  | deciding
  | plain (sealer : Sealer)
  | zstd (encoder : keys.zstd.Encoder) (sealer : Sealer)

structure BlobWriter (keys : Keys) where
  -- What the hasher has taken.
  hashed : Bytes
  state : WriterState keys
  probe : Bytes

namespace BlobWriter

variable {keys : Keys}

def new : BlobWriter keys := { hashed := [], state := .deciding, probe := [] }

variable (nonce : NoncePrefix) (writer : BlobWriter keys)

/-- Bytes through whichever encoder was chosen. Before one is, no payload is written. -/
def writePayload (bytes : Bytes) : Except IoError (BlobWriter keys) :=
  match writer.state with
  | .plain sealer => (sealer.write keys.aead bytes).map (fun sealer => { writer with state := .plain sealer })
  | .zstd encoder sealer =>
    (writeAll keys.aead (keys.zstd.write encoder bytes).2 sealer).map
      (fun sealer => { writer with state := .zstd (keys.zstd.write encoder bytes).1 sealer })
  | .deciding => .ok writer

/-- The codec is chosen from the sample, the header goes in, and the sample after it. -/
def decideAndFlush : Except IoError (BlobWriter keys) :=
  let codec := if looksCompressible keys.zstd writer.probe then Codec.zstd else Codec.none
  let sealer := Sealer.withPrefix (header codec noDictionary nonce) nonce
  let state := match codec with
    | .none => .plain sealer
    | .zstd => .zstd keys.zstd.new sealer
  writePayload { writer with state, probe := [] } writer.probe

def write (bytes : Bytes) : Except IoError (BlobWriter keys) :=
  let writer := { writer with hashed := writer.hashed ++ bytes }
  match writer.state with
  | .deciding =>
    let writer := { writer with probe := writer.probe ++ bytes }
    if writer.probe.length < probeBytes then .ok writer else decideAndFlush nonce writer
  | .plain _ | .zstd _ _ => writePayload writer bytes

def decided : Except IoError (BlobWriter keys) :=
  match writer.state with
  | .deciding => decideAndFlush nonce writer
  | .plain _ | .zstd _ _ => .ok writer

/-- What the encoder still holds, sealed, and the last chunk. -/
def finishPayload : Except IoError Bytes :=
  match writer.state with
  | .plain sealer => sealer.finish keys.aead
  | .zstd encoder sealer => (writeAll keys.aead (keys.zstd.finish encoder) sealer).bind (Sealer.finish keys.aead)
  | .deciding => .ok []

def finish : Except IoError (BlobId × Bytes) :=
  match decided nonce writer with
  | .error error => .error error
  | .ok writer => (finishPayload writer).map (fun file => (keys.digest writer.hashed, file))

def writes (nonce : NoncePrefix) : List Bytes -> BlobWriter keys -> Except IoError (BlobWriter keys)
  | [], writer => .ok writer
  | bytes :: rest, writer =>
    match writer.write nonce bytes with
    | .error error => .error error
    | .ok next => writes nonce rest next

end BlobWriter

structure BlobFiles where
  files : BlobId -> Option Bytes

structure Push where
  pieces : List Bytes
  nonce : NoncePrefix

def Push.content (push : Push) : Bytes := push.pieces.flatten

def Push.written (keys : Keys) (push : Push) : Except IoError (BlobId × Bytes) :=
  match BlobWriter.writes push.nonce push.pieces (BlobWriter.new : BlobWriter keys) with
  | .error error => .error error
  | .ok writer => writer.finish push.nonce

namespace BlobFiles

variable (keys : Keys)

def empty : BlobFiles := { files := fun _ => none }

variable (store : BlobFiles)

def publish (id : BlobId) (file : Bytes) : BlobFiles :=
  if (store.files id).isSome then store else { files := Function.update store.files id (some file) }

def put (push : Push) : Except IoError (BlobFiles × BlobId) :=
  (push.written keys).map (fun finished => (store.publish finished.1 finished.2, finished.1))

/-- One blob after another. -/
def putAll : List Push -> BlobFiles -> Except IoError (BlobFiles × List BlobId)
  | [], store => .ok (store, [])
  | push :: rest, store =>
    match store.put keys push with
    | .error error => .error error
    | .ok (next, id) => (putAll rest next).map (fun done => (done.1, id :: done.2))

def reader (pace : Nat -> Nat) (id : BlobId) : Except BlobError BlobReader :=
  match store.files id with
  | none => .error .notFound
  | some file => readFile keys pace file

end BlobFiles

def Holds (keys : Keys) (nonce : NoncePrefix) (content file : Bytes) : Prop :=
  ∃ codec payload, file = header codec noDictionary nonce ++ sealedPayload keys.aead nonce payload ∧
    Fits payload ∧ decodeWith keys codec (payload, none) = (content, none)

/-- A writer that has taken a content, whatever the writes. -/
inductive Wrote (keys : Keys) (nonce : NoncePrefix) (content : Bytes) : BlobWriter keys -> Prop where
  | deciding : Wrote keys nonce content { hashed := content, state := .deciding, probe := content }
  | plain (sealer : Sealer) (full : List Bytes)
      (sealing : Sealing keys.aead (header .none noDictionary nonce) nonce content full sealer) :
      Wrote keys nonce content { hashed := content, state := .plain sealer, probe := [] }
  | zstd (pieces : List Bytes) (whole : pieces.flatten = content) (sealer : Sealer) (full : List Bytes)
      (sealing : Sealing keys.aead (header .zstd noDictionary nonce) nonce
        (keys.zstd.encodeFrom keys.zstd.new pieces).2.flatten full sealer) :
      Wrote keys nonce content
        { hashed := content, state := .zstd (keys.zstd.encodeFrom keys.zstd.new pieces).1 sealer, probe := [] }

theorem encodeFrom_concat (zstd : Zstd) (pieces : List Bytes) (bytes : Bytes) (encoder : zstd.Encoder) :
    (zstd.encodeFrom encoder (pieces ++ [bytes])).1 = (zstd.write (zstd.encodeFrom encoder pieces).1 bytes).1 ∧
      (zstd.encodeFrom encoder (pieces ++ [bytes])).2 =
        (zstd.encodeFrom encoder pieces).2 ++ (zstd.write (zstd.encodeFrom encoder pieces).1 bytes).2 := by
  induction pieces generalizing encoder with
  | nil => simp [Zstd.encodeFrom]
  | cons piece pieces ih =>
    obtain ⟨last, out⟩ := ih (zstd.write encoder piece).1
    simp only [List.cons_append, Zstd.encodeFrom, last, out, List.append_assoc]
    exact ⟨trivial, trivial⟩

theorem map_ok {First Second : Type} (f : First -> Second) (result : Except IoError First) (value : Second)
    (mapped : result.map f = .ok value) : ∃ source, result = .ok source ∧ f source = value := by
  cases result with
  | error error => cases mapped
  | ok source => exact ⟨source, rfl, Except.ok.inj mapped⟩

section

variable {keys : Keys} {nonce : NoncePrefix}

theorem plain_write (content bytes : Bytes) (sealer : Sealer) (full : List Bytes) (hashed : Bytes)
    (sealing : Sealing keys.aead (header .none noDictionary nonce) nonce content full sealer)
    (next : BlobWriter keys)
    (wrote : BlobWriter.writePayload { hashed, state := .plain sealer, probe := [] } bytes = .ok next)
    (whole : hashed = content ++ bytes) : Wrote keys nonce (content ++ bytes) next := by
  have here := write_sealing content bytes full sealer sealing
  simp only [BlobWriter.writePayload] at wrote
  cases result : sealer.write keys.aead bytes with
  | error error =>
    rw [result] at wrote
    cases wrote
  | ok further =>
    rw [result] at wrote here
    obtain ⟨full, onward⟩ := here
    cases wrote
    subst whole
    exact .plain further full onward

theorem zstd_write (content bytes : Bytes) (pieces : List Bytes) (sealer : Sealer) (full : List Bytes) (hashed : Bytes)
    (made : pieces.flatten = content)
    (sealing : Sealing keys.aead (header .zstd noDictionary nonce) nonce
      (keys.zstd.encodeFrom keys.zstd.new pieces).2.flatten full sealer)
    (next : BlobWriter keys)
    (wrote : BlobWriter.writePayload
      { hashed, state := .zstd (keys.zstd.encodeFrom keys.zstd.new pieces).1 sealer, probe := [] } bytes = .ok next)
    (whole : hashed = content ++ bytes) : Wrote keys nonce (content ++ bytes) next := by
  have here := writeAll_sealing (keys.zstd.write (keys.zstd.encodeFrom keys.zstd.new pieces).1 bytes).2 _ full sealer sealing
  obtain ⟨last, out⟩ := encodeFrom_concat keys.zstd pieces bytes keys.zstd.new
  simp only [BlobWriter.writePayload] at wrote
  cases result : writeAll keys.aead (keys.zstd.write (keys.zstd.encodeFrom keys.zstd.new pieces).1 bytes).2 sealer with
  | error error =>
    rw [result] at wrote
    cases wrote
  | ok further =>
    rw [result] at wrote here
    obtain ⟨full, onward⟩ := here
    rw [← List.flatten_append, ← out] at onward
    simp only [Except.map, ← last] at wrote
    cases wrote
    subst whole
    exact .zstd (pieces ++ [bytes]) (by simp [made]) further full onward

theorem decide_wrote (content : Bytes) (next : BlobWriter keys)
    (decided : BlobWriter.decideAndFlush nonce { hashed := content, state := .deciding, probe := content } = .ok next) :
    Wrote keys nonce content next ∧ next.state ≠ .deciding := by
  have settled : ∀ writer : BlobWriter keys, ∀ bytes further, writer.state ≠ .deciding →
      writer.writePayload bytes = .ok further → further.state ≠ .deciding := by
    intro writer bytes further chosen wrote
    unfold BlobWriter.writePayload at wrote
    split at wrote
    next =>
      obtain ⟨sealer, -, rfl⟩ := map_ok _ _ _ wrote
      simp
    next =>
      obtain ⟨sealer, -, rfl⟩ := map_ok _ _ _ wrote
      simp
    next deciding => exact absurd deciding chosen
  unfold BlobWriter.decideAndFlush at decided
  cases compressible : looksCompressible keys.zstd content with
  | true =>
    simp only [compressible, if_true] at decided
    refine ⟨?_, settled _ _ next (by simp) decided⟩
    exact zstd_write [] content [] _ [] content rfl (withPrefix_sealing _ nonce) next decided rfl
  | false =>
    simp only [compressible, Bool.false_eq_true, if_false] at decided
    refine ⟨?_, settled _ _ next (by simp) decided⟩
    exact plain_write [] content _ [] content (withPrefix_sealing _ nonce) next decided rfl

theorem write_wrote (content bytes : Bytes) (writer next : BlobWriter keys) (wrote : Wrote keys nonce content writer)
    (written : writer.write nonce bytes = .ok next) : Wrote keys nonce (content ++ bytes) next := by
  cases wrote with
  | deciding =>
    simp only [BlobWriter.write] at written
    split at written
    next =>
      cases written
      exact .deciding
    next => exact (decide_wrote _ next written).1
  | plain sealer full sealing => exact plain_write content bytes sealer full _ sealing next written rfl
  | zstd pieces whole sealer full sealing =>
    exact zstd_write content bytes pieces sealer full _ whole sealing next written rfl

theorem writes_wrote (pieces : List Bytes) (content : Bytes) (writer next : BlobWriter keys)
    (wrote : Wrote keys nonce content writer) (written : BlobWriter.writes nonce pieces writer = .ok next) :
    Wrote keys nonce (content ++ pieces.flatten) next := by
  induction pieces generalizing content writer with
  | nil =>
    cases written
    simpa using wrote
  | cons bytes rest ih =>
    unfold BlobWriter.writes at written
    split at written
    next => cases written
    next further here =>
      have onward := ih (content ++ bytes) further (write_wrote content bytes writer further wrote here) written
      rwa [List.append_assoc, ← List.flatten_cons] at onward

theorem finishPayload_holds (lawful : keys.Lawful) (content : Bytes) (writer : BlobWriter keys) (file : Bytes)
    (wrote : Wrote keys nonce content writer) (chosen : writer.state ≠ .deciding)
    (finished : writer.finishPayload = .ok file) : Holds keys nonce content file ∧ writer.hashed = content := by
  cases wrote with
  | deciding => exact absurd rfl chosen
  | plain sealer full sealing =>
    obtain ⟨fits, cramped⟩ := finish_sealing content full sealer sealing
    by_cases room : Fits content
    case pos =>
      have done : sealer.finish keys.aead = .ok file := finished
      rw [fits room] at done
      cases done
      exact ⟨⟨.none, content, rfl, room, rfl⟩, rfl⟩
    case neg =>
      have done : sealer.finish keys.aead = .ok file := finished
      rw [cramped room] at done
      cases done
  | zstd pieces whole sealer full sealing =>
    have last := writeAll_sealing (keys.zstd.finish (keys.zstd.encodeFrom keys.zstd.new pieces).1) _ full sealer sealing
    have done : (writeAll keys.aead (keys.zstd.finish (keys.zstd.encodeFrom keys.zstd.new pieces).1) sealer).bind
        (Sealer.finish keys.aead) = .ok file := finished
    have joined : (keys.zstd.encodeFrom keys.zstd.new pieces).2.flatten ++
        (keys.zstd.finish (keys.zstd.encodeFrom keys.zstd.new pieces).1).flatten = keys.zstd.encoded pieces :=
      List.flatten_append.symm
    rw [joined] at last
    cases result : writeAll keys.aead (keys.zstd.finish (keys.zstd.encodeFrom keys.zstd.new pieces).1) sealer with
    | error error =>
      rw [result] at done
      cases done
    | ok further =>
      rw [result] at done last
      obtain ⟨full, onward⟩ := last
      obtain ⟨fits, cramped⟩ := finish_sealing _ full further onward
      change further.finish keys.aead = .ok file at done
      by_cases room : Fits (keys.zstd.encoded pieces)
      case pos =>
        rw [fits room] at done
        cases done
        refine ⟨⟨.zstd, keys.zstd.encoded pieces, rfl, room, ?_⟩, rfl⟩
        rw [← whole]
        exact lawful.zstd.undoes pieces
      case neg =>
        rw [cramped room] at done
        cases done

theorem finish_holds (lawful : keys.Lawful) (content : Bytes) (writer : BlobWriter keys) (id : BlobId) (file : Bytes)
    (wrote : Wrote keys nonce content writer) (finished : writer.finish nonce = .ok (id, file)) :
    id = keys.digest content ∧ Holds keys nonce content file := by
  have settle : ∃ next, BlobWriter.decided nonce writer = .ok next ∧ Wrote keys nonce content next ∧
      next.state ≠ .deciding := by
    unfold BlobWriter.finish at finished
    cases chosen : BlobWriter.decided nonce writer with
    | error error =>
      rw [chosen] at finished
      cases finished
    | ok next =>
      refine ⟨next, rfl, ?_⟩
      cases wrote with
      | deciding => exact decide_wrote content next chosen
      | plain sealer full sealing =>
        cases chosen
        exact ⟨.plain sealer full sealing, by simp⟩
      | zstd pieces whole sealer full sealing =>
        cases chosen
        exact ⟨.zstd pieces whole sealer full sealing, by simp⟩
  obtain ⟨next, chosen, onward, settled⟩ := settle
  unfold BlobWriter.finish at finished
  rw [chosen] at finished
  obtain ⟨bytes, done, same⟩ := map_ok _ _ _ finished
  obtain ⟨holds, hashed⟩ := finishPayload_holds lawful content next bytes onward settled done
  cases same
  exact ⟨by rw [hashed], holds⟩

theorem written_holds (lawful : keys.Lawful) (push : Push) (id : BlobId) (file : Bytes)
    (written : push.written keys = .ok (id, file)) :
    id = keys.digest push.content ∧ Holds keys push.nonce push.content file := by
  unfold Push.written at written
  cases wrote : BlobWriter.writes push.nonce push.pieces (BlobWriter.new : BlobWriter keys) with
  | error error =>
    rw [wrote] at written
    cases written
  | ok writer =>
    rw [wrote] at written
    have taken := writes_wrote push.pieces [] _ writer .deciding wrote
    exact finish_holds lawful push.content writer id file taken written

end

end Postio.Blobs

import Postio.Blobs.BlobWriter

set_option autoImplicit false

namespace Postio.Blobs

structure HasRoom (keys : Keys) (content : Bytes) : Prop where
  plain : Fits content
  zstd : ∀ pieces, pieces.flatten = content -> Fits (keys.zstd.encoded pieces)

section

variable {keys : Keys} {nonce : NoncePrefix}

theorem HasRoom.passed {content : Bytes} (room : HasRoom keys content) (pieces : List Bytes) (rest : Bytes)
    (whole : pieces.flatten ++ rest = content) : Fits (keys.zstd.encodeFrom keys.zstd.new pieces).2.flatten := by
  have frame := room.zstd (pieces ++ [rest]) (by simpa using whole)
  obtain ⟨-, out⟩ := encodeFrom_concat keys.zstd pieces rest keys.zstd.new
  rw [Zstd.encoded, out, List.append_assoc, List.flatten_append] at frame
  exact frame.front

variable (content : Bytes)

theorem plain_ok (bytes : Bytes) (sealer : Sealer) (full : List Bytes) (hashed : Bytes)
    (sealing : Sealing keys.aead (header .none noDictionary nonce) nonce content full sealer)
    (room : Fits (content ++ bytes)) :
    ∃ next : BlobWriter keys,
      BlobWriter.writePayload { hashed, state := .plain sealer, probe := [] } bytes = .ok next := by
  have here := write_sealing content bytes full sealer sealing
  simp only [BlobWriter.writePayload]
  cases result : sealer.write keys.aead bytes with
  | error error =>
    rw [result] at here
    exact absurd room here.2
  | ok further => exact ⟨_, rfl⟩

theorem zstd_ok (pieces : List Bytes) (bytes : Bytes) (sealer : Sealer) (full : List Bytes) (hashed : Bytes)
    (sealing : Sealing keys.aead (header .zstd noDictionary nonce) nonce
      (keys.zstd.encodeFrom keys.zstd.new pieces).2.flatten full sealer)
    (room : Fits (keys.zstd.encodeFrom keys.zstd.new (pieces ++ [bytes])).2.flatten) :
    ∃ next, @BlobWriter.writePayload keys
      { hashed, state := .zstd (keys.zstd.encodeFrom keys.zstd.new pieces).1 sealer, probe := [] } bytes = .ok next := by
  have here := writeAll_sealing (keys.zstd.write (keys.zstd.encodeFrom keys.zstd.new pieces).1 bytes).2 _ full sealer sealing
  obtain ⟨-, out⟩ := encodeFrom_concat keys.zstd pieces bytes keys.zstd.new
  rw [out, List.flatten_append] at room
  simp only [BlobWriter.writePayload]
  cases result : writeAll keys.aead (keys.zstd.write (keys.zstd.encodeFrom keys.zstd.new pieces).1 bytes).2 sealer with
  | error error =>
    rw [result] at here
    exact absurd room here.2
  | ok further => exact ⟨_, rfl⟩

theorem decide_ok (rest : Bytes) (room : HasRoom keys (content ++ rest)) :
    ∃ next, @BlobWriter.decideAndFlush keys nonce
      { hashed := content, state := .deciding, probe := content } = .ok next := by
  unfold BlobWriter.decideAndFlush
  cases compressible : looksCompressible keys.zstd content with
  | true =>
    simp only [if_true]
    exact zstd_ok [] content _ [] content (withPrefix_sealing _ nonce)
      (room.passed [content] rest (by simp))
  | false =>
    simp only [Bool.false_eq_true, if_false]
    exact plain_ok [] content _ [] content (withPrefix_sealing _ nonce) room.plain.front

theorem write_ok (bytes rest : Bytes) (writer : BlobWriter keys) (wrote : Wrote keys nonce content writer)
    (room : HasRoom keys (content ++ bytes ++ rest)) : ∃ next, writer.write nonce bytes = .ok next := by
  cases wrote with
  | deciding =>
    simp only [BlobWriter.write]
    split
    next => exact ⟨_, rfl⟩
    next => exact decide_ok (content ++ bytes) rest room
  | plain sealer full sealing => exact plain_ok content bytes sealer full _ sealing room.plain.front
  | zstd pieces whole sealer full sealing =>
    exact zstd_ok pieces bytes sealer full _ sealing (room.passed (pieces ++ [bytes]) rest (by simp [whole]))

theorem writes_ok (pieces : List Bytes) (content : Bytes) (writer : BlobWriter keys)
    (wrote : Wrote keys nonce content writer) (room : HasRoom keys (content ++ pieces.flatten)) :
    ∃ next, BlobWriter.writes nonce pieces writer = .ok next := by
  induction pieces generalizing content writer with
  | nil => exact ⟨writer, rfl⟩
  | cons bytes rest ih =>
    rw [List.flatten_cons, ← List.append_assoc] at room
    obtain ⟨next, here⟩ := write_ok content bytes rest.flatten writer wrote room
    obtain ⟨last, later⟩ := ih (content ++ bytes) next (write_wrote content bytes writer next wrote here) room
    refine ⟨last, ?_⟩
    unfold BlobWriter.writes
    rw [here]
    exact later

theorem finishPayload_ok (writer : BlobWriter keys) (wrote : Wrote keys nonce content writer)
    (room : HasRoom keys content) : ∃ file, writer.finishPayload = .ok file := by
  cases wrote with
  | deciding => exact ⟨[], rfl⟩
  | plain sealer full sealing => exact ⟨_, (finish_sealing content full sealer sealing).1 room.plain⟩
  | zstd pieces whole sealer full sealing =>
    have frame := room.zstd pieces whole
    have last := writeAll_sealing (keys.zstd.finish (keys.zstd.encodeFrom keys.zstd.new pieces).1) _ full sealer sealing
    rw [← List.flatten_append] at last
    simp only [BlobWriter.finishPayload]
    cases result : writeAll keys.aead (keys.zstd.finish (keys.zstd.encodeFrom keys.zstd.new pieces).1) sealer with
    | error error =>
      rw [result] at last
      exact absurd frame last.2
    | ok further =>
      rw [result] at last
      obtain ⟨full, onward⟩ := last
      exact ⟨_, (finish_sealing _ full further onward).1 frame⟩

theorem finish_ok (writer : BlobWriter keys) (wrote : Wrote keys nonce content writer)
    (room : HasRoom keys content) : ∃ finished, writer.finish nonce = .ok finished := by
  have settle : ∃ next, BlobWriter.decided nonce writer = .ok next ∧ Wrote keys nonce content next := by
    cases wrote with
    | deciding =>
      obtain ⟨next, chosen⟩ := @decide_ok _ nonce content [] (by simpa using room)
      exact ⟨next, chosen, (decide_wrote content next chosen).1⟩
    | plain sealer full sealing => exact ⟨_, rfl, .plain sealer full sealing⟩
    | zstd pieces whole sealer full sealing => exact ⟨_, rfl, .zstd pieces whole sealer full sealing⟩
  obtain ⟨next, chosen, onward⟩ := settle
  obtain ⟨file, done⟩ := finishPayload_ok content next onward room
  unfold BlobWriter.finish
  rw [chosen]
  simp only [done, Except.map]
  exact ⟨_, rfl⟩

end

namespace BlobFiles

variable (keys : Keys)

def Stored (puts : List Push) (store : BlobFiles) : Prop :=
  ∀ id file, store.files id = some file ->
    ∃ push ∈ puts, keys.digest push.content = id ∧ Holds keys push.nonce push.content file

theorem publish_files (store : BlobFiles) (id : BlobId) (file : Bytes) :
    (store.publish id file).files id = some ((store.files id).getD file) ∧
      ∀ other, other ≠ id → (store.publish id file).files other = store.files other := by
  unfold publish
  cases present : store.files id with
  | none =>
    simp only [Option.isSome_none, Bool.false_eq_true, if_false]
    exact ⟨Function.update_self id _ _, fun other apart => Function.update_of_ne apart _ _⟩
  | some earlier => simp [present]

theorem put_stored (lawful : keys.Lawful) (earlier : List Push) (push : Push) (store next : BlobFiles) (id : BlobId)
    (stored : Stored keys earlier store) (done : store.put keys push = .ok (next, id)) :
    id = keys.digest push.content ∧ Stored keys (earlier ++ [push]) next ∧ (next.files id).isSome ∧
      ∀ other, (store.files other).isSome → (next.files other).isSome := by
  obtain ⟨⟨name, file⟩, written, same⟩ := map_ok _ _ _ done
  obtain ⟨named, holds⟩ := written_holds lawful push name file written
  obtain ⟨here, elsewhere⟩ := publish_files store name file
  cases same
  refine ⟨named, ?_, by rw [here]; rfl, ?_⟩
  next =>
    intro other found present
    by_cases this : other = name
    case pos =>
      subst this
      rw [here] at present
      cases before : store.files other with
      | none =>
        rw [before] at present
        cases present
        exact ⟨push, by simp, named.symm, holds⟩
      | some kept =>
        rw [before] at present
        cases present
        obtain ⟨source, among, same⟩ := stored other kept before
        exact ⟨source, List.mem_append_left _ among, same⟩
    case neg =>
      rw [elsewhere other this] at present
      obtain ⟨source, among, same⟩ := stored other found present
      exact ⟨source, List.mem_append_left _ among, same⟩
  next =>
    intro other present
    by_cases this : other = name
    case pos =>
      rw [this, here]
      rfl
    case neg => rwa [elsewhere other this]

theorem putAll_stored (lawful : keys.Lawful) (puts earlier : List Push) (store last : BlobFiles) (ids : List BlobId)
    (stored : Stored keys earlier store) (ran : putAll keys puts store = .ok (last, ids)) :
    ids = puts.map (fun push => keys.digest push.content) ∧ Stored keys (earlier ++ puts) last ∧
      (∀ id ∈ ids, (last.files id).isSome) ∧ ∀ other, (store.files other).isSome → (last.files other).isSome := by
  induction puts generalizing earlier store ids with
  | nil =>
    cases ran
    exact ⟨rfl, by simpa using stored, by simp, fun _ present => present⟩
  | cons push rest ih =>
    unfold putAll at ran
    cases first : store.put keys push with
    | error error =>
      rw [first] at ran
      cases ran
    | ok done =>
      obtain ⟨next, id⟩ := done
      rw [first] at ran
      obtain ⟨⟨final, others⟩, later, same⟩ := map_ok _ _ _ ran
      cases same
      obtain ⟨named, kept, present, grows⟩ := put_stored keys lawful earlier push store next id stored first
      obtain ⟨ids, all, found, onward⟩ := ih (earlier ++ [push]) next others kept later
      refine ⟨by rw [List.map_cons, named, ids], by simpa using all, ?_, fun other before => onward other (grows other before)⟩
      rintro other (_ | ⟨_, inside⟩)
      next => exact onward id present
      next => exact found other inside

theorem put_ok (lawful : keys.Lawful) (push : Push) (store : BlobFiles) (room : HasRoom keys push.content) :
    ∃ next, store.put keys push = .ok (next, keys.digest push.content) := by
  obtain ⟨writer, wrote⟩ := @writes_ok _ push.nonce push.pieces [] BlobWriter.new .deciding room
  have taken := writes_wrote push.pieces [] _ writer .deciding wrote
  obtain ⟨⟨id, file⟩, finished⟩ := finish_ok push.content writer taken room
  have written : push.written keys = .ok (id, file) := by
    unfold Push.written
    rw [wrote]
    exact finished
  refine ⟨store.publish id file, ?_⟩
  unfold put
  rw [written, ← (written_holds lawful push id file written).1]
  rfl

end BlobFiles

theorem Holds.read {keys : Keys} (lawful : keys.Lawful) {nonce : NoncePrefix} {content file : Bytes}
    (holds : Holds keys nonce content file)
    (pace : Nat -> Nat) : ∃ reader, readFile keys pace file = .ok reader ∧ reader.Sound ∧
      reader.remaining keys = (content, none) := by
  obtain ⟨codec, payload, rfl, fits, decodes⟩ := holds
  have told := readFile_contained keys pace (header codec noDictionary nonce ++ sealedPayload keys.aead nonce payload)
  rw [contained_written, opened_sealed lawful.aead payload fits, decodes] at told
  cases result : readFile keys pace (header codec noDictionary nonce ++ sealedPayload keys.aead nonce payload) with
  | error error =>
    rw [result] at told
    cases told
  | ok reader =>
    rw [result] at told
    exact ⟨reader, rfl, readFile_sound keys pace _ reader result, Except.ok.inj told⟩

theorem Holds.sealing {keys : Keys} {nonce : NoncePrefix} {content file : Bytes}
    (holds : Holds keys nonce content file) :
    ∃ codec payload, file = header codec noDictionary nonce ++ sealedPayload keys.aead nonce payload ∧
      decodeWith keys codec (payload, none) = (content, none) ∧
      ((numbered payload).map (fun entry => entry.2.2)).flatten = payload ∧
      (numbered payload).length = max 1 ((payload.length + chunk - 1) / chunk) ∧ (nonces nonce payload).Nodup := by
  obtain ⟨codec, payload, rfl, fits, decodes⟩ := holds
  refine ⟨codec, payload, rfl, decodes, ?_, numbered_length payload, nonces_nodup nonce payload fits⟩
  rw [numbered, List.map_map]
  change ((Chunks.chunksOf chunk payload).zipIdx.map Prod.fst).flatten = payload
  rw [List.zipIdx_map_fst, Chunks.chunksOf_flatten]

/-- Whatever the writes a content came in and the reads it is taken out by, what comes out is the content. -/
theorem blobs_roundTrip (keys : Keys) (lawful : keys.Lawful) (puts : List Push) (store : BlobFiles) (ids : List BlobId)
    (ran : BlobFiles.putAll keys puts .empty = .ok (store, ids))
    (apart : ∀ first ∈ puts, ∀ second ∈ puts, keys.digest first.content = keys.digest second.content →
      first.content = second.content) :
    ids = puts.map (fun push => keys.digest push.content) ∧
      (∀ push ∈ puts, ∀ pace, ∃ reader, store.reader keys pace (keys.digest push.content) = .ok reader ∧
        (∀ rooms turns, push.content.length < turns →
          readToEnd (BlobReader.read keys) rooms turns reader = some (.ok push.content)) ∧
        ∀ rooms, (∀ room ∈ rooms, 0 < room) → ∃ pieces, reads (BlobReader.read keys) rooms reader = .ok pieces ∧
          pieces.flatten <+: push.content ∧ ([] ∈ pieces → pieces.flatten = push.content)) ∧
      (∀ id file, store.files id = some file → ∃ push ∈ puts, keys.digest push.content = id ∧
        ∃ codec payload, file = header codec noDictionary push.nonce ++ sealedPayload keys.aead push.nonce payload ∧
          decodeWith keys codec (payload, none) = (push.content, none) ∧
          ((numbered payload).map (fun entry => entry.2.2)).flatten = payload ∧
          (numbered payload).length = max 1 ((payload.length + chunk - 1) / chunk) ∧ (nonces push.nonce payload).Nodup) ∧
      ∀ push earlier, HasRoom keys push.content →
        ∃ next, BlobFiles.put keys earlier push = .ok (next, keys.digest push.content) := by
  have nothing : BlobFiles.Stored keys [] .empty := by
    rintro id file ⟨⟩
  obtain ⟨named, stored, present, -⟩ := BlobFiles.putAll_stored keys lawful puts [] .empty store ids nothing ran
  rw [List.nil_append] at stored
  refine ⟨named, ?_, ?_, fun push earlier room => BlobFiles.put_ok keys lawful push earlier room⟩
  next =>
    intro push among pace
    have known : keys.digest push.content ∈ ids := by
      rw [named]
      exact List.mem_map_of_mem among
    obtain ⟨file, found⟩ := Option.isSome_iff_exists.mp (present _ known)
    obtain ⟨source, also, same, holds⟩ := stored _ file found
    rw [apart source also push among same] at holds
    obtain ⟨reader, opened, sound, remaining⟩ := holds.read lawful pace
    have delivers := BlobReader.delivers keys
    refine ⟨reader, ?_, ?_, ?_⟩
    next =>
      unfold BlobFiles.reader
      rw [found]
      exact opened
    next =>
      intro rooms turns enough
      have whole := delivers.readToEnd_exact rooms turns reader sound (by rw [remaining]; exact enough)
      rwa [remaining] at whole
    next =>
      intro rooms positive
      obtain ⟨pieces, got⟩ := delivers.reads_ok rooms positive reader sound (by rw [remaining])
      obtain ⟨front, whole⟩ := delivers.reads_front rooms positive reader sound pieces got
      rw [remaining] at front whole
      exact ⟨pieces, got, front, fun ended => (whole ended).1⟩
  next =>
    intro id file found
    obtain ⟨push, among, same, holds⟩ := stored id file found
    exact ⟨push, among, same, holds.sealing⟩

section

def stamping : Aead where
  encrypt nonce plain := (plain, (nonce.reverse ++ List.replicate tagLen 0).take tagLen)
  decrypt nonce cipher tag := if tag = (nonce.reverse ++ List.replicate tagLen 0).take tagLen then some cipher else none

/-- A codec that passes everything through. -/
def passing : Zstd where
  Encoder := Unit
  new := ()
  write _ bytes := ((), [bytes])
  finish _ := []
  bulk bytes := some bytes
  decode payload := payload

def plainKeys : Keys where
  aead := stamping
  zstd := passing
  digest content := { get := content.foldl (fun name byte => name * 257 + byte.toNat + 1) 0 }

theorem plainKeys_lawful : plainKeys.Lawful where
  aead := {
    cipherLength := fun _ _ => rfl
    tagLength := by
      intro nonce plain
      simp [plainKeys, stamping, tagLen]
    opens := fun _ _ => if_pos rfl }
  zstd := {
    undoes := by
      have passed : ∀ pieces, (passing.encodeFrom () pieces).2 = pieces := by
        intro pieces
        induction pieces with
        | nil => rfl
        | cons piece pieces ih => exact congrArg (piece :: ·) ih
      intro pieces
      change (((passing.encodeFrom () pieces).2 ++ []).flatten, none) = (pieces.flatten, none)
      rw [passed, List.append_nil]
    propagates := by simp [plainKeys, passing] }

def zeroNonce : NoncePrefix := { bytes := List.replicate noncePrefixLen 0, length := rfl }

def threePuts : List Push :=
  [{ pieces := [[1, 2], [3]], nonce := zeroNonce }, { pieces := [[1], [2, 3]], nonce := zeroNonce },
    { pieces := [], nonce := zeroNonce }]

theorem blobs_roundTrip_threePuts :
    ∃ store ids, BlobFiles.putAll plainKeys threePuts .empty = .ok (store, ids) ∧
      ids = [{ get := 132873 }, { get := 132873 }, { get := 0 }] ∧
      ∀ push ∈ threePuts, ∀ pace, ∃ reader, store.reader plainKeys pace (plainKeys.digest push.content) = .ok reader ∧
        ∀ rooms turns, push.content.length < turns →
          readToEnd (BlobReader.read plainKeys) rooms turns reader = some (.ok push.content) := by
  obtain ⟨⟨store, ids⟩, ran⟩ : ∃ done, BlobFiles.putAll plainKeys threePuts .empty = .ok done := ⟨_, rfl⟩
  obtain ⟨named, whole, -⟩ := blobs_roundTrip plainKeys plainKeys_lawful threePuts store ids ran (by decide)
  refine ⟨store, ids, ran, by rw [named]; decide, ?_⟩
  intro push among pace
  obtain ⟨reader, opened, all, -⟩ := whole push among pace
  exact ⟨reader, opened, all⟩

end

end Postio.Blobs

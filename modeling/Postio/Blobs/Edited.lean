import Mathlib.Data.List.Nodup
import Postio.Blobs.RoundTrip

set_option autoImplicit false

namespace Postio.Blobs

variable (keys : Keys) (start : Bytes) (codec : Codec)

def plainHeader : Bytes :=
  magic ++ [versionPlain, codec.asByte] ++ toLeBytes noDictionary ++ [cipherNone]

section

variable (keys : Keys)

def Sealed (push : Push) (codec : Codec) (payload : Bytes) : Prop :=
  Fits payload ∧ ∃ id,
    push.written keys = .ok (id, header codec noDictionary push.nonce ++ sealedPayload keys.aead push.nonce payload)

/-- Of a payload, the cipher opens only the chunks that some push sealed under the same nonce. -/
def Unforged (puts : List Push) (nonce : NoncePrefix) (body : Bytes) : Prop :=
  ∀ index current plain, (Chunks.chunksOf sealedChunk body)[index]? = some current →
    openChunk keys.aead nonce index (decide (index + 1 = (Chunks.chunksOf sealedChunk body).length)) current = .ok plain →
    ∃ push ∈ puts, ∃ codec payload, Sealed keys push codec payload ∧ ∃ entry ∈ numbered payload,
      chunkNonce nonce index (decide (index + 1 = (Chunks.chunksOf sealedChunk body).length)) =
        chunkNonce push.nonce entry.1 entry.2.1 ∧
      current = sealChunk keys.aead push.nonce entry.1 entry.2.1 entry.2.2

def FailsOr (content : Bytes) (delivered : Bytes × Option IoError) : Prop :=
  delivered.2 = none -> delivered.1 = content

/-- The edits that no reader mistakes for mail: none of these files, or one that reads as the content all the same. -/
structure Harmless (puts : List Push) (content edited : Bytes) : Prop where
  -- No header at all: the file is taken for a blob from before there was one.
  bare : edited.length < fixedLen ∨ edited.take magic.length ≠ magic -> edited = content
  -- A container of version 1, which nothing seals.
  plain : ∀ codec rest, edited = plainHeader codec ++ rest → FailsOr content (decodeWith keys codec (rest, none))
  -- The file of some blob, whole.
  whole : ∀ push ∈ puts, ∀ codec payload, Sealed keys push codec payload →
    edited = header codec noDictionary push.nonce ++ sealedPayload keys.aead push.nonce payload → push.content = content
  -- A compressed blob's file that no longer says so.
  unpacked : ∀ push ∈ puts, ∀ payload, Sealed keys push .zstd payload →
    edited = header .none noDictionary push.nonce ++ sealedPayload keys.aead push.nonce payload → payload = content
  -- A stored blob's file that says it is compressed.
  packed : ∀ push ∈ puts, ∀ payload, Sealed keys push .none payload →
    edited = header .zstd noDictionary push.nonce ++ sealedPayload keys.aead push.nonce payload →
    FailsOr content (keys.zstd.decode (payload, none))

end

def BlobFiles.edit (store : BlobFiles) (id : BlobId) (edited : Bytes) : BlobFiles :=
  { files := Function.update store.files id (some edited) }

def ReadsBack (store : BlobFiles) (id : BlobId) (content : Bytes) : Prop :=
  ∀ pace reader, store.reader keys pace id = .ok reader → ∀ rooms turns bytes,
    readToEnd (BlobReader.read keys) rooms turns reader = some (.ok bytes) → bytes = content

theorem plainHeader_length : (plainHeader codec).length = fixedLen := rfl

theorem drop_cons (bytes : Bytes) (place : Nat) (within : place < bytes.length) :
    bytes.drop place = bytes.getD place 0 :: bytes.drop (place + 1) := by
  rw [List.drop_eq_getElem_cons within]
  simp [List.getD_eq_getElem?_getD, within]

theorem fixed_bytes (long : fixedLen ≤ start.length) :
    start.take fixedLen = start.take magic.length ++ [start.getD 5 0, start.getD 6 0] ++
      [start.getD 7 0, start.getD 8 0, start.getD 9 0, start.getD 10 0] ++ [start.getD 11 0] := by
  have twelve : 12 ≤ start.length := long
  have cut : start.take fixedLen = start.take magic.length ++ (start.drop 5).take 7 := List.take_add (i := 5) (j := 7)
  rw [cut, drop_cons start 5 (by omega), drop_cons start 6 (by omega), drop_cons start 7 (by omega),
    drop_cons start 8 (by omega), drop_cons start 9 (by omega), drop_cons start 10 (by omega),
    drop_cons start 11 (by omega)]
  simp

theorem fromLeBytes_zero (none : fromLeBytes (start.drop 7) = 0) :
    [start.getD 7 0, start.getD 8 0, start.getD 9 0, start.getD 10 0] = toLeBytes noDictionary := by
  have zero : ∀ byte : UInt8, byte.toNat = 0 → byte = 0 := by
    intro byte nothing
    exact UInt8.toNat_inj.mp nothing
  simp only [fromLeBytes, List.getD_eq_getElem?_getD, List.getElem?_drop, Nat.reduceAdd, Nat.add_zero] at none
  have places := fun place => List.getD_eq_getElem?_getD (l := start) (i := place) (a := (0 : UInt8))
  simp only [places]
  have first : start[7]?.getD 0 = 0 := zero _ (by omega)
  have second : start[8]?.getD 0 = 0 := zero _ (by omega)
  have third : start[9]?.getD 0 = 0 := zero _ (by omega)
  have fourth : start[10]?.getD 0 = 0 := zero _ (by omega)
  rw [first, second, third, fourth]
  rfl

theorem fromByte_asByte (byte : UInt8) (codec : Codec) (named : Codec.fromByte byte = some codec) :
    byte = codec.asByte := by
  unfold Codec.fromByte at named
  split at named
  next zero =>
    cases named
    exact zero
  next =>
    split at named
    next one =>
      cases named
      exact one
    next => cases named

theorem nonceOf_inv (version cipher : UInt8) (nonce : Option NoncePrefix)
    (found : nonceOf start version cipher = .ok nonce) :
    (version = versionPlain ∧ cipher = cipherNone ∧ nonce = none) ∨
      ∃ carried, version = Blobs.version ∧ cipher = cipherXchacha20Poly1305 ∧ nonce = some carried ∧
        (start.drop fixedLen).take noncePrefixLen = carried.bytes := by
  unfold nonceOf at found
  split at found
  next plain =>
    cases found
    exact .inl ⟨plain.1, plain.2, rfl⟩
  next =>
    split at found
    next encrypted =>
      split at found
      next long =>
        cases found
        exact .inr ⟨_, encrypted.1, encrypted.2, rfl, rfl⟩
      next => cases found
    next => cases found

theorem framingOf_inv (container : Container) (framed : framingOf start = .ok (.container container)) :
    (container.nonce = none ∧ start.take fixedLen = plainHeader container.codec) ∨
      ∃ nonce, container.nonce = some nonce ∧ start.take headerLen = header container.codec noDictionary nonce := by
  unfold framingOf at framed
  split at framed
  next => cases framed
  next marked =>
    rw [not_or, Nat.not_lt, not_not] at marked
    obtain ⟨long, marked⟩ := marked
    simp only at framed
    split at framed
    next => cases framed
    next =>
      split at framed
      next => cases framed
      next codec named =>
        split at framed
        next => cases framed
        next plain_text =>
          rw [not_not] at plain_text
          cases found : nonceOf start (start.getD magic.length 0) (start.getD (magic.length + 6) 0) with
          | error error =>
            rw [found] at framed
            cases framed
          | ok nonce =>
            rw [found] at framed
            cases framed
            have bytes := fixed_bytes start long
            rw [marked, fromLeBytes_zero start plain_text] at bytes
            have codecByte : start.getD 6 0 = codec.asByte := fromByte_asByte _ codec named
            rcases nonceOf_inv start _ _ nonce found with ⟨version, cipher, rfl⟩ | ⟨carried, version, cipher, rfl, taken⟩
            next =>
              change start.getD 5 0 = versionPlain at version
              change start.getD 11 0 = cipherNone at cipher
              rw [codecByte, version, cipher] at bytes
              exact .inl ⟨rfl, bytes⟩
            next =>
              change start.getD 5 0 = Blobs.version at version
              change start.getD 11 0 = cipherXchacha20Poly1305 at cipher
              rw [codecByte, version, cipher] at bytes
              refine .inr ⟨carried, rfl, ?_⟩
              have cut : start.take headerLen = start.take fixedLen ++ (start.drop fixedLen).take noncePrefixLen :=
                List.take_add
              rw [cut, bytes, taken]
              rfl

theorem framingOf_legacy (framed : framingOf start = .ok .legacy) :
    start.length < fixedLen ∨ start.take magic.length ≠ magic := by
  unfold framingOf at framed
  split at framed
  next unmarked => exact unmarked
  next =>
    simp only at framed
    split at framed
    next => cases framed
    next =>
      split at framed
      next => cases framed
      next =>
        split at framed
        next => cases framed
        next =>
          cases found : nonceOf start (start.getD magic.length 0) (start.getD (magic.length + 6) 0) with
          | error error =>
            rw [found] at framed
            cases framed
          | ok nonce =>
            rw [found] at framed
            cases framed

theorem framingOf_plain (start rest : Bytes) (made : start = plainHeader codec ++ rest) :
    framingOf start = .ok (.container { codec, nonce := none }) := by
  have long : fixedLen ≤ start.length := by
    rw [made, List.length_append, plainHeader_length]
    omega
  have named : Codec.fromByte codec.asByte = some codec := by cases codec <;> rfl
  unfold framingOf
  rw [if_neg]
  case hnc =>
    rw [not_or, Nat.not_lt, not_not]
    exact ⟨long, by rw [made]; rfl⟩
  rw [made]
  have versioned : (plainHeader codec ++ rest).getD magic.length 0 = versionPlain := rfl
  have coded : (plainHeader codec ++ rest).getD (magic.length + 1) 0 = codec.asByte := rfl
  have unbound : fromLeBytes ((plainHeader codec ++ rest).drop (magic.length + 2)) = 0 := rfl
  dsimp only
  rw [versioned, coded, if_neg (by simp), named, unbound]
  simp only [noDictionary, ne_eq, not_true_eq_false, if_false]
  rfl

theorem contained_plain (rest : Bytes) :
    contained keys (plainHeader codec ++ rest) = .ok (decodeWith keys codec (rest, none)) := by
  have smaller : fixedLen ≤ headerLen := by decide
  have start : (plainHeader codec ++ rest).take headerLen = plainHeader codec ++ rest.take (headerLen - fixedLen) := by
    rw [List.take_append, plainHeader_length, List.take_of_length_le (by rw [plainHeader_length]; exact smaller)]
  unfold contained
  rw [framingOf_plain codec _ _ start]
  simp only
  rw [← plainHeader_length codec, List.drop_left]

/-- What is in a file, by what its header turns out to be. -/
inductive Reading (keys : Keys) (edited : Bytes) : Except BlobError (Bytes × Option IoError) -> Prop where
  | refused (error : BlobError) : Reading keys edited (.error error)
  | bare (unmarked : edited.length < fixedLen ∨ edited.take magic.length ≠ magic) :
      Reading keys edited (.ok (edited, none))
  | plain (codec : Codec) (rest : Bytes) (made : edited = plainHeader codec ++ rest) :
      Reading keys edited (.ok (decodeWith keys codec (rest, none)))
  | encrypted (codec : Codec) (nonce : NoncePrefix) (body : Bytes) (made : edited = header codec noDictionary nonce ++ body) :
      Reading keys edited (.ok (decodeWith keys codec (opened keys.aead nonce body)))

theorem unmarked_take (edited : Bytes) :
    ((edited.take headerLen).length < fixedLen ∨ (edited.take headerLen).take magic.length ≠ magic) ↔
      (edited.length < fixedLen ∨ edited.take magic.length ≠ magic) := by
  have smaller : fixedLen < headerLen := by decide
  have inside : min magic.length headerLen = magic.length := by decide
  rw [List.length_take, List.take_take, inside]
  exact or_congr_left (by omega)

theorem contained_reading (edited : Bytes) : Reading keys edited (contained keys edited) := by
  unfold contained
  cases framed : framingOf (edited.take headerLen) with
  | error error => exact .refused error
  | ok framing =>
    cases framing with
    | legacy =>
      apply Reading.bare
      rw [← unmarked_take]
      exact framingOf_legacy _ framed
    | container container =>
      rcases framingOf_inv _ container framed with ⟨none, bytes⟩ | ⟨nonce, some, bytes⟩
      next =>
        rw [List.take_take] at bytes
        simp only [none]
        apply Reading.plain
        rw [← bytes]
        exact (List.take_append_drop fixedLen edited).symm
      next =>
        rw [List.take_take, Nat.min_self] at bytes
        simp only [some]
        apply Reading.encrypted
        rw [← bytes]
        exact (List.take_append_drop headerLen edited).symm

section

variable {keys : Keys}

theorem Sealed.holds (lawful : keys.Lawful) {push : Push} {codec : Codec} {payload : Bytes}
    (done : Sealed keys push codec payload) : decodeWith keys codec (payload, none) = (push.content, none) := by
  obtain ⟨fits, id, written⟩ := done
  obtain ⟨-, other, found, same, room, decodes⟩ := written_holds lawful push id _ written
  have opens := fun used => contained_written keys used push.nonce
  have first := opens codec (sealedPayload keys.aead push.nonce payload)
  have again := opens other (sealedPayload keys.aead push.nonce found)
  rw [opened_sealed lawful.aead payload fits] at first
  rw [← same, first, opened_sealed lawful.aead found room, decodes] at again
  exact Except.ok.inj again

theorem header_inj (codec other : Codec) (nonce drawn : NoncePrefix) (body rest : Bytes)
    (same : header codec noDictionary nonce ++ body = header other noDictionary drawn ++ rest) :
    codec = other ∧ nonce = drawn ∧ body = rest := by
  have lengths : (header codec noDictionary nonce).length = (header other noDictionary drawn).length := by
    rw [header_length, header_length]
  obtain ⟨headers, bodies⟩ := List.append_inj same lengths
  have framed := framingOf_header codec nonce
  rw [headers, framingOf_header] at framed
  cases framed
  exact ⟨rfl, rfl, bodies⟩

theorem Sealed.same (lawful : keys.Lawful) {push : Push} {codec other : Codec} {payload found : Bytes}
    (done : Sealed keys push codec payload) (again : Sealed keys push other found) : payload = found := by
  obtain ⟨fits, id, written⟩ := done
  obtain ⟨room, name, also⟩ := again
  rw [written] at also
  obtain ⟨-, files⟩ := Prod.mk.inj (Except.ok.inj also)
  have bodies := (header_inj codec other _ _ _ _ files).2.2
  have opens := @opened_sealed _ push.nonce lawful.aead payload fits
  rw [bodies, opened_sealed lawful.aead found room] at opens
  exact (Prod.mk.inj opens).1.symm

theorem numbered_place (payload : Bytes) (entry : Nat × Bool × Bytes) (inside : entry ∈ numbered payload) :
    (numbered payload)[entry.1]? = some entry ∧ entry.2.1 = decide (entry.1 + 1 = (numbered payload).length) := by
  have count : (numbered payload).length = (Chunks.chunksOf chunk payload).length := by
    rw [numbered, List.length_map, List.length_zipIdx]
  obtain ⟨⟨plain, place⟩, among, rfl⟩ := List.mem_map.mp inside
  have found := List.mem_zipIdx_iff_getElem?.mp among
  refine ⟨?_, by rw [count]⟩
  simp only at found ⊢
  rw [numbered, List.getElem?_map, List.getElem?_zipIdx, found]
  simp

theorem openChunks_each (aead : Aead) (nonce : NoncePrefix) (start : Nat) (chunks : List Bytes) (plain : Bytes)
    (opens : openChunks aead nonce start chunks = (plain, none)) (place : Nat) (current : Bytes)
    (found : chunks[place]? = some current) :
    start + place + 1 < indexBound ∧
      ∃ part, openChunk aead nonce (start + place) (decide (place + 1 = chunks.length)) current = .ok part := by
  induction chunks generalizing start plain place with
  | nil => simp at found
  | cons head rest ih =>
    unfold openChunks at opens
    split at opens
    next => cases opens
    next part opened_head =>
      split at opens
      case isFalse => cases opens
      case isTrue small =>
        obtain ⟨-, stop⟩ := Prod.mk.inj opens
        cases place with
        | zero =>
          cases found
          refine ⟨small, part, ?_⟩
          have last : decide (0 + 1 = (current :: rest).length) = rest.isEmpty := by
            cases rest <;> simp
          rw [last]
          exact opened_head
        | succ place =>
          have inner := ih (start + 1) _ (Prod.ext rfl stop) place found
          have shift : start + 1 + place = start + (place + 1) := by omega
          have lengths : decide (place + 1 + 1 = (head :: rest).length) = decide (place + 1 = rest.length) := by simp
          rw [lengths, ← shift]
          exact inner

theorem opened_unforged (lawful : keys.Lawful) (puts : List Push) (fresh : (puts.map Push.nonce).Nodup)
    (nonce : NoncePrefix) (body plain : Bytes) (unforged : Unforged keys puts nonce body)
    (opens : opened keys.aead nonce body = (plain, none)) :
    ∃ push ∈ puts, ∃ codec payload, Sealed keys push codec payload ∧ push.nonce = nonce ∧
      body = sealedPayload keys.aead nonce payload ∧ plain = payload := by
  have some_chunk := Chunks.chunksOf_ne sealedChunk body
  -- What each chunk was sealed as: by its nonce, a chunk of the same index of the one push that drew the prefix.
  have each : ∀ place current, (Chunks.chunksOf sealedChunk body)[place]? = some current →
      ∃ push ∈ puts, ∃ codec payload, Sealed keys push codec payload ∧ push.nonce = nonce ∧
        ∃ part, (numbered payload)[place]? =
            some (place, decide (place + 1 = (Chunks.chunksOf sealedChunk body).length), part) ∧
          decide (place + 1 = (Chunks.chunksOf sealedChunk body).length) = decide (place + 1 = (numbered payload).length) ∧
          current = sealChunk keys.aead nonce place
            (decide (place + 1 = (Chunks.chunksOf sealedChunk body).length)) part := by
    intro place current found
    obtain ⟨small, part, opened_chunk⟩ := openChunks_each keys.aead nonce 0 _ plain opens place current found
    rw [Nat.zero_add] at small opened_chunk
    obtain ⟨push, among, codec, payload, done, entry, inside, nonces, bytes⟩ := unforged place current part found opened_chunk
    obtain ⟨at_place, flag⟩ := numbered_place payload entry inside
    have prefixes : nonce.bytes = push.nonce.bytes := by
      simp only [chunkNonce, List.append_assoc] at nonces
      exact (List.append_inj nonces (by rw [nonce.length, push.nonce.length])).1
    have same : nonce = push.nonce := by
      cases nonce
      cases drawn : push.nonce
      rw [drawn] at prefixes
      simpa using prefixes
    have below : entry.1 < indexBound := by
      have within := (List.getElem?_eq_some_iff.mp at_place).1
      have count : (numbered payload).length = (Chunks.chunksOf chunk payload).length := by
        rw [numbered, List.length_map, List.length_zipIdx]
      have fits := done.1
      unfold Fits at fits
      omega
    rw [same] at nonces
    obtain ⟨index, last⟩ := chunkNonce_inj push.nonce place entry.1 _ entry.2.1 (by omega) below nonces
    refine ⟨push, among, codec, payload, done, same.symm, entry.2.2, ?_, ?_, ?_⟩
    next => rw [last, index, at_place]
    next => rw [last, flag, index]
    next => rw [bytes, same, ← last, index]
  have final : (Chunks.chunksOf sealedChunk body)[(Chunks.chunksOf sealedChunk body).length - 1]? =
      some ((Chunks.chunksOf sealedChunk body).getLast some_chunk) := by
    rw [← List.getLast?_eq_getElem?, List.getLast?_eq_some_getLast]
  obtain ⟨push, among, codec, payload, done, drawn, part, -, ends, -⟩ := each _ _ final
  have positive := List.length_pos_of_ne_nil some_chunk
  have count : (Chunks.chunksOf sealedChunk body).length = (numbered payload).length := by
    have whole : (Chunks.chunksOf sealedChunk body).length - 1 + 1 = (Chunks.chunksOf sealedChunk body).length := by omega
    rw [whole] at ends
    simpa using ends
  have chunks : Chunks.chunksOf sealedChunk body =
      (numbered payload).map (fun entry => sealChunk keys.aead nonce entry.1 entry.2.1 entry.2.2) := by
    apply List.ext_getElem?
    intro place
    rw [List.getElem?_map]
    cases found : (Chunks.chunksOf sealedChunk body)[place]? with
    | none =>
      have beyond := List.getElem?_eq_none_iff.mp found
      rw [List.getElem?_eq_none_iff.mpr (by omega)]
      rfl
    | some current =>
      obtain ⟨other, also, _, _, sealing, drew, piece, numbers, -, bytes⟩ := each place current found
      obtain rfl := List.inj_on_of_nodup_map fresh also among (drew.trans drawn.symm)
      obtain rfl := done.same lawful sealing
      rw [numbers, bytes]
      rfl
  have made : body = sealedPayload keys.aead nonce payload := by
    rw [← Chunks.chunksOf_flatten sealedChunk body, chunks, sealedPayload, List.flatMap_def]
  refine ⟨push, among, codec, payload, done, drawn, made, ?_⟩
  rw [made, opened_sealed lawful.aead payload done.1] at opens
  exact (Prod.mk.inj opens).1.symm

theorem readsBack_iff (store : BlobFiles) (id : BlobId) (content edited : Bytes) :
    ReadsBack keys (store.edit id edited) id content ↔
      ∀ delivered, contained keys edited = .ok delivered → FailsOr content delivered := by
  have stored : ∀ pace, (store.edit id edited).reader keys pace id = readFile keys pace edited := by
    intro pace
    unfold BlobFiles.reader BlobFiles.edit
    simp only [Function.update_self]
  have delivers := BlobReader.delivers keys
  constructor
  next =>
    intro back delivered holds clean
    have told := readFile_contained keys (fun _ => 0) edited
    rw [holds] at told
    cases result : readFile keys (fun _ => 0) edited with
    | error error =>
      rw [result] at told
      cases told
    | ok reader =>
      rw [result] at told
      have remaining := Except.ok.inj told
      have sound := readFile_sound keys _ edited reader result
      have whole := delivers.readToEnd_exact (fun _ => 0) (delivered.1.length + 1) reader sound
        (by rw [remaining]; exact Nat.lt_succ_self _)
      rw [remaining, wholly, clean] at whole
      exact back _ reader (by rw [stored, result]) _ _ _ whole
  next =>
    intro holds pace reader opened rooms turns bytes ended
    rw [stored] at opened
    have told := readFile_contained keys pace edited
    rw [opened] at told
    have sound := readFile_sound keys pace edited reader opened
    have whole := delivers.readToEnd_some rooms turns reader sound _ ended
    have kept := holds _ told.symm
    cases stop : (reader.remaining keys).2 with
    | some error =>
      rw [wholly, stop] at whole
      cases whole
    | none =>
      rw [wholly, stop] at whole
      exact (Except.ok.inj whole).trans (kept stop)

theorem decodeWith_clean (lawful : keys.Lawful) (codec : Codec) (payload : Bytes × Option IoError)
    (clean : (decodeWith keys codec payload).2 = none) : payload.2 = none := by
  obtain ⟨bytes, stop⟩ := payload
  cases stop with
  | none => rfl
  | some error =>
    cases codec with
    | none => cases clean
    | zstd => exact absurd clean (lawful.zstd.propagates bytes error)

theorem Harmless.delivers (lawful : keys.Lawful) (puts : List Push) (fresh : (puts.map Push.nonce).Nodup)
    (content edited : Bytes)
    (unforged : ∀ codec nonce body, edited = header codec noDictionary nonce ++ body → Unforged keys puts nonce body)
    (harmless : Harmless keys puts content edited) (delivered : Bytes × Option IoError)
    (holds : contained keys edited = .ok delivered) : FailsOr content delivered := by
  have reading := contained_reading keys edited
  rw [holds] at reading
  cases reading with
  | bare unmarked => exact fun _ => harmless.bare unmarked
  | plain codec rest made => exact harmless.plain codec rest made
  | encrypted codec nonce body made =>
    intro clean
    have whole := decodeWith_clean lawful codec _ clean
    obtain ⟨push, among, written, payload, done, rfl, rfl, same⟩ :=
      opened_unforged lawful puts fresh nonce body _ (unforged codec nonce body made) (Prod.ext rfl whole)
    have opens := @opened_sealed _ push.nonce lawful.aead payload done.1
    rw [opens] at clean ⊢
    cases codec with
    | none =>
      cases written with
      | none =>
        have decodes := done.holds lawful
        rw [decodes]
        exact harmless.whole push among .none payload done made
      | zstd => exact harmless.unpacked push among payload done made
    | zstd =>
      cases written with
      | none => exact harmless.packed push among payload done made clean
      | zstd =>
        have decodes := done.holds lawful
        rw [decodes]
        exact harmless.whole push among .zstd payload done made

theorem harmless_of_delivers (lawful : keys.Lawful) (puts : List Push) (content edited : Bytes)
    (delivers : ∀ delivered, contained keys edited = .ok delivered → FailsOr content delivered) :
    Harmless keys puts content edited := by
  have written : ∀ codec nonce payload, Fits payload →
      edited = header codec noDictionary nonce ++ sealedPayload keys.aead nonce payload →
      FailsOr content (decodeWith keys codec (payload, none)) := by
    intro codec nonce payload fits made
    apply delivers
    rw [made, contained_written, opened_sealed lawful.aead payload fits]
  constructor
  case bare =>
    intro unmarked
    have framed : framingOf (edited.take headerLen) = .ok .legacy := by
      unfold framingOf
      rw [if_pos ((unmarked_take edited).mpr unmarked)]
    have kept := delivers (edited, none) (by unfold contained; rw [framed])
    exact kept rfl
  case plain =>
    intro codec rest made
    apply delivers
    rw [made, contained_plain]
  case whole =>
    intro push _ codec payload done made
    have kept := written codec push.nonce payload done.1 made
    rw [done.holds lawful] at kept
    exact kept rfl
  case unpacked =>
    intro push _ payload done made
    exact written .none push.nonce payload done.1 made rfl
  case packed =>
    intro push _ payload done made
    exact written .zstd push.nonce payload done.1 made

/-- Whatever file stands under a digest, it reads as the content or fails exactly when it is harmless. -/
theorem edited_exact (keys : Keys) (lawful : keys.Lawful) (puts : List Push) (fresh : (puts.map Push.nonce).Nodup)
    (store : BlobFiles) (id : BlobId) (content edited : Bytes)
    (unforged : ∀ codec nonce body, edited = header codec noDictionary nonce ++ body → Unforged keys puts nonce body) :
    ReadsBack keys (store.edit id edited) id content ↔ Harmless keys puts content edited := by
  rw [readsBack_iff]
  constructor
  next => exact harmless_of_delivers lawful puts content edited
  next =>
    intro harmless delivered holds
    exact harmless.delivers lawful puts fresh content edited unforged delivered holds

end

section

/-- A codec whose frames end in a mark. -/
def marking : Zstd where
  Encoder := Unit
  new := ()
  write _ bytes := ((), [bytes])
  finish _ := [[40]]
  bulk bytes := some bytes
  decode payload :=
    if payload.2.isSome then payload
    else if payload.1.getLast? = some 40 then (payload.1.dropLast, none)
    else ([], some (.decoder "Unknown frame descriptor"))

def markedKeys : Keys := { plainKeys with zstd := marking }

theorem markedKeys_lawful : markedKeys.Lawful where
  aead := plainKeys_lawful.aead
  zstd := {
    undoes := by
      have passed : ∀ pieces, (marking.encodeFrom () pieces).2 = pieces := by
        intro pieces
        induction pieces with
        | nil => rfl
        | cons piece pieces ih => exact congrArg (piece :: ·) ih
      intro pieces
      change marking.decode (((marking.encodeFrom () pieces).2 ++ [[40]]).flatten, none) = (pieces.flatten, none)
      rw [passed]
      simp [marking]
    propagates := by
      intro bytes error
      simp [markedKeys, marking] }

def oneTwoThree : Push := { pieces := [[1, 2, 3]], nonce := zeroNonce }

def flipped : Bytes := header .none noDictionary zeroNonce ++ sealedPayload markedKeys.aead zeroNonce [1, 2, 3, 40]

theorem numbered_short (payload : Bytes) (short : payload.length ≤ chunk) : numbered payload = [(0, true, payload)] := by
  rw [numbered, Chunks.chunksOf_short chunk payload short]
  rfl

theorem oneTwoThree_sealed : Sealed markedKeys oneTwoThree .zstd [1, 2, 3, 40] := by
  refine ⟨?_, markedKeys.digest [1, 2, 3], ?_⟩
  next =>
    rw [Fits, Chunks.chunksOf_short chunk _ (by decide)]
    decide
  next =>
    rw [sealedPayload, numbered_short _ (by decide)]
    rfl

theorem flipped_unforged (codec : Codec) (nonce : NoncePrefix) (body : Bytes)
    (made : flipped = header codec noDictionary nonce ++ body) : Unforged markedKeys [oneTwoThree] nonce body := by
  obtain ⟨-, rfl, rfl⟩ := header_inj _ _ _ _ _ _ made
  have one : numbered [1, 2, 3, 40] = [(0, true, [1, 2, 3, 40])] := numbered_short _ (by decide)
  have cut : Chunks.chunksOf sealedChunk (sealedPayload markedKeys.aead zeroNonce [1, 2, 3, 40]) =
      [sealChunk markedKeys.aead zeroNonce 0 true [1, 2, 3, 40]] := by
    rw [sealedPayload, one, List.flatMap_singleton]
    apply Chunks.chunksOf_short
    rw [sealChunk_length markedKeys_lawful.aead]
    decide
  intro index current plain found _
  rw [cut] at found ⊢
  obtain ⟨within, rfl⟩ := List.getElem?_eq_some_iff.mp found
  obtain rfl : index = 0 := by simpa using within
  refine ⟨oneTwoThree, List.mem_singleton_self _, .zstd, _, oneTwoThree_sealed, (0, true, [1, 2, 3, 40]), ?_, rfl, rfl⟩
  rw [one]
  exact List.mem_singleton_self _

theorem edited_exact_flipped :
    ReadsBack markedKeys (BlobFiles.edit .empty { get := 0 } flipped) { get := 0 } [1, 2, 3] ↔
      Harmless markedKeys [oneTwoThree] [1, 2, 3] flipped :=
  edited_exact markedKeys markedKeys_lawful [oneTwoThree] (by decide) .empty _ _ flipped flipped_unforged

/-- A compressed blob whose codec byte was changed reads as its compressed bytes. -/
theorem flipped_misread :
    ∃ store id file, BlobFiles.put markedKeys .empty oneTwoThree = .ok (store, id) ∧ store.files id = some file ∧
      magic <+: flipped ∧ flipped ≠ file ∧
      (∀ codec nonce body, flipped = header codec noDictionary nonce ++ body →
        Unforged markedKeys [oneTwoThree] nonce body) ∧
      ¬ ReadsBack markedKeys (store.edit id flipped) id oneTwoThree.content := by
  obtain ⟨fits, id, written⟩ := oneTwoThree_sealed
  refine ⟨BlobFiles.publish .empty id _, id, _, by rw [BlobFiles.put, written]; rfl,
    by rw [(BlobFiles.publish_files _ _ _).1], ⟨_, rfl⟩, ?_, flipped_unforged, ?_⟩
  next =>
    intro same
    cases (header_inj _ _ _ _ _ _ same).1
  next =>
    rw [readsBack_iff]
    intro kept
    have delivered : contained markedKeys flipped = .ok ([1, 2, 3, 40], none) := by
      rw [flipped, contained_written, opened_sealed markedKeys_lawful.aead _ fits]
      rfl
    exact absurd (kept _ delivered rfl) (by decide)

end

end Postio.Blobs

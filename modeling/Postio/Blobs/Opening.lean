import Postio.Blobs.Sealing

set_option autoImplicit false

namespace Postio.Blobs

/-- Unseals a payload as it is read. -/
structure Opener where
  noncePrefix : NoncePrefix
  index : Nat
  inner : Paced UInt8
  -- The next sealed chunk, read ahead so that the one before it can be told it is not the last.
  lookahead : Option Bytes
  -- Verified plaintext, and how much of it has been handed out.
  plain : Bytes
  taken : Nat
  done : Bool

def readChunk (source : Paced UInt8) : Bytes × Paced UInt8 := source.fill sealedChunk

theorem readChunk_exact (source : Paced UInt8) :
    (readChunk source).1 = source.left.take sealedChunk ∧ (readChunk source).2.left = source.left.drop sealedChunk :=
  Paced.fill_exact sealedChunk source

-- A whole chunk's worth of turns is not for a proof to take.
attribute [irreducible] readChunk

def openChunk (aead : Aead) (noncePrefix : NoncePrefix) (index : Nat) (last : Bool) (current : Bytes) :
    Except IoError Bytes :=
  -- Too short to be a chunk at all: cut off inside its tag, or no payload where there is always a chunk.
  if current.length < tagLen then .error .notAuthentic
  else
    match aead.decrypt (chunkNonce noncePrefix index last) (current.take (current.length - tagLen))
        (current.drop (current.length - tagLen)) with
    | some plain => .ok plain
    | none => .error .notAuthentic

namespace Opener

variable (aead : Aead)

def new (inner : Paced UInt8) (noncePrefix : NoncePrefix) : Opener :=
  { noncePrefix, index := 0, inner, lookahead := none, plain := [], taken := 0, done := false }

variable (opener : Opener)

/-- The next chunk, opened, or that there is none. A chunk is the last one when nothing follows it. -/
def openNext : Except IoError (Bool × Opener) :=
  if opener.done then .ok (false, opener)
  else
    let (current, inner) := match opener.lookahead with
      | some read => (read, opener.inner)
      | none => readChunk opener.inner
    let (following, inner) := readChunk inner
    let last := following.isEmpty
    match openChunk aead opener.noncePrefix opener.index last current with
    | .error error => .error error
    | .ok plain =>
      if opener.index + 1 < indexBound then
        .ok (true, { opener with
          index := opener.index + 1
          inner
          lookahead := if last then none else some following
          plain
          taken := 0
          done := last })
      else .error .tooLarge

def takePlain (room : Nat) : Bytes × Opener :=
  let take := min (opener.plain.length - opener.taken) room
  ((opener.plain.drop opener.taken).take take, { opener with taken := opener.taken + take })

/-- Opens chunks until one has something to hand out. -/
def readFrom : Nat -> Opener -> Nat -> Except IoError (Bytes × Opener)
  | 0, opener, _ => .ok ([], opener)
  | turns + 1, opener, room =>
    if opener.taken = opener.plain.length then
      match opener.openNext aead with
      | .error error => .error error
      | .ok (false, opener) => .ok ([], opener)
      | .ok (true, opener) => readFrom turns opener room
    else .ok (opener.takePlain room)

def unopened : Bytes := opener.lookahead.getD [] ++ opener.inner.left

def turnsOf : Nat := opener.unopened.length + 3

def read (room : Nat) : Except IoError (Bytes × Opener) :=
  if room = 0 then .ok ([], opener) else readFrom aead opener.turnsOf opener room

end Opener

/-- What sealed chunks open to: the plaintext up to the first that does not open. -/
def openChunks (aead : Aead) (noncePrefix : NoncePrefix) : Nat -> List Bytes -> Bytes × Option IoError
  | _, [] => ([], none)
  | index, current :: rest =>
    match openChunk aead noncePrefix index rest.isEmpty current with
    | .error error => ([], some error)
    | .ok plain =>
      if index + 1 < indexBound then
        (plain ++ (openChunks aead noncePrefix (index + 1) rest).1, (openChunks aead noncePrefix (index + 1) rest).2)
      else ([], some .tooLarge)

def opened (aead : Aead) (noncePrefix : NoncePrefix) (payload : Bytes) : Bytes × Option IoError :=
  openChunks aead noncePrefix 0 (Chunks.chunksOf sealedChunk payload)

namespace Opener

variable (aead : Aead)

variable (opener : Opener)

/-- What reading it from here on delivers. -/
def remaining : Bytes × Option IoError :=
  if opener.done then (opener.plain.drop opener.taken, none)
  else
    let rest := openChunks aead opener.noncePrefix opener.index (Chunks.chunksOf sealedChunk opener.unopened)
    (opener.plain.drop opener.taken ++ rest.1, rest.2)

/-- What has been read ahead is a whole chunk, or all there was. -/
structure Sound (opener : Opener) : Prop where
  within : opener.taken ≤ opener.plain.length
  ahead : ∀ read, opener.lookahead = some read -> read ≠ [] ∧ read.length ≤ sealedChunk ∧
    (read.length < sealedChunk -> opener.inner.left = [])
  ended : opener.done -> opener.lookahead = none

theorem sealedChunk_positive : 0 < sealedChunk := by decide

theorem new_sound (inner : Paced UInt8) (noncePrefix : NoncePrefix) : (new inner noncePrefix).Sound where
  within := Nat.le_refl _
  ahead := by rintro read ⟨⟩
  ended := by rintro ⟨⟩

theorem new_remaining (inner : Paced UInt8) (noncePrefix : NoncePrefix) :
    (new inner noncePrefix).remaining aead = opened aead noncePrefix inner.left := rfl

theorem unopened_front (sound : opener.Sound) :
    ∃ current rest, (match opener.lookahead with
      | some read => (read, opener.inner)
      | none => readChunk opener.inner) = (current, rest) ∧
      current = opener.unopened.take sealedChunk ∧ rest.left = opener.unopened.drop sealedChunk := by
  cases ahead : opener.lookahead with
  | some read =>
    obtain ⟨-, short, whole⟩ := sound.ahead read ahead
    refine ⟨read, opener.inner, rfl, ?_⟩
    simp only [unopened, ahead, Option.getD_some]
    by_cases full : read.length = sealedChunk
    case pos =>
      rw [← full, List.take_left, List.drop_left]
      exact ⟨rfl, rfl⟩
    case neg =>
      rw [whole (by omega), List.append_nil, List.take_of_length_le short, List.drop_of_length_le short]
      exact ⟨rfl, rfl⟩
  | none =>
    obtain ⟨taken, left⟩ := readChunk_exact opener.inner
    refine ⟨(readChunk opener.inner).1, (readChunk opener.inner).2, rfl, ?_⟩
    simp only [unopened, ahead, Option.getD_none, List.nil_append]
    exact ⟨taken, left⟩

theorem openNext_exact (sound : opener.Sound) (open_ended : opener.done = false)
    (drained : opener.taken = opener.plain.length) :
    match opener.openNext aead with
    | .error error => opener.remaining aead = ([], some error)
    | .ok (more, next) => more = true ∧ next.Sound ∧ next.remaining aead = opener.remaining aead ∧
        (next.done = false -> next.unopened.length < opener.unopened.length) := by
  obtain ⟨current, rest, front, here, left⟩ := unopened_front opener sound
  obtain ⟨taken, further⟩ := readChunk_exact rest
  cases shape : readChunk rest with
  | mk following beyond =>
  rw [shape] at taken further
  simp only at taken further
  unfold openNext
  rw [if_neg (by simp [open_ended]), front]
  dsimp only
  rw [shape]
  dsimp only
  have nothing : opener.plain.drop opener.taken = [] := List.drop_of_length_le (Nat.le_of_eq drained.symm)
  have last : following.isEmpty = (opener.unopened.drop sealedChunk).isEmpty := by
    rw [taken, left]
    cases (opener.unopened.drop sealedChunk) <;> rfl
  -- What is left, chunk by chunk.
  have cut : Chunks.chunksOf sealedChunk opener.unopened =
      current :: (if (opener.unopened.drop sealedChunk).isEmpty then []
        else Chunks.chunksOf sealedChunk (opener.unopened.drop sealedChunk)) := by
    by_cases long : sealedChunk < opener.unopened.length
    case pos =>
      have more : (opener.unopened.drop sealedChunk).isEmpty = false := by
        rw [List.isEmpty_eq_false_iff, ne_eq, List.drop_eq_nil_iff]
        omega
      rw [Chunks.chunksOf_long sealedChunk _ sealedChunk_positive long, more, here]
      rfl
    case neg =>
      have ended : opener.unopened.drop sealedChunk = [] := List.drop_of_length_le (by omega)
      rw [Chunks.chunksOf_short sealedChunk _ (by omega), ended, here, List.take_of_length_le (by omega)]
      rfl
  have whole : opener.remaining aead = openChunks aead opener.noncePrefix opener.index
      (current :: (if (opener.unopened.drop sealedChunk).isEmpty then []
        else Chunks.chunksOf sealedChunk (opener.unopened.drop sealedChunk))) := by
    unfold remaining
    rw [open_ended, nothing, cut]
    rfl
  have final : (if (opener.unopened.drop sealedChunk).isEmpty then []
        else Chunks.chunksOf sealedChunk (opener.unopened.drop sealedChunk)).isEmpty =
      (opener.unopened.drop sealedChunk).isEmpty := by
    split
    next ended => rw [ended]; rfl
    next more =>
      rw [Bool.not_eq_true] at more
      rw [more, List.isEmpty_eq_false_iff]
      exact Chunks.chunksOf_ne _ _
  rw [whole]
  unfold openChunks
  rw [final, last]
  cases result : openChunk aead opener.noncePrefix opener.index (opener.unopened.drop sealedChunk).isEmpty current with
  | error error => rfl
  | ok plain =>
    by_cases small : opener.index + 1 < indexBound
    case neg => simp only [if_neg small]
    case pos =>
      simp only [if_pos small]
      refine ⟨trivial, ?_, ?_, ?_⟩
      case refine_1 =>
        constructor
        case within => exact Nat.zero_le _
        case ahead =>
          intro read ahead
          simp only at ahead
          split at ahead
          next => cases ahead
          next more =>
            cases ahead
            rw [taken, left]
            refine ⟨?_, by rw [List.length_take]; omega, ?_⟩
            next =>
              rw [Bool.not_eq_true, List.isEmpty_eq_false_iff] at more
              rw [ne_eq, List.take_eq_nil_iff]
              exact fun none => none.elim (fun zero => absurd zero (by decide)) more
            next =>
              intro short
              rw [List.length_take] at short
              rw [further, left]
              exact List.drop_of_length_le (by omega)
        case ended =>
          intro ended
          simp only at ended ⊢
          rw [if_pos ended]
      case refine_2 =>
        unfold remaining
        cases ended : (opener.unopened.drop sealedChunk).isEmpty with
        | true => simp [openChunks]
        | false =>
          have again : unopened { opener with
              index := opener.index + 1
              inner := beyond
              lookahead := some following
              plain
              taken := 0
              done := false } = opener.unopened.drop sealedChunk := by
            change following ++ beyond.left = opener.unopened.drop sealedChunk
            rw [taken, further, List.take_append_drop, left]
          simp only [Bool.false_eq_true, if_false, again, List.drop_zero]
      case refine_3 =>
        intro ended
        change (opener.unopened.drop sealedChunk).isEmpty = false at ended
        have more := ended
        rw [List.isEmpty_eq_false_iff, ne_eq, List.drop_eq_nil_iff] at more
        change (Option.getD (if (opener.unopened.drop sealedChunk).isEmpty then none else some following) [] ++
          beyond.left).length < opener.unopened.length
        rw [if_neg (by simp [ended]), Option.getD_some, taken, further, List.take_append_drop, left, List.length_drop]
        have positive := sealedChunk_positive
        omega

/-- A read of a sound opener hands out the front of what remains. -/
def Answered (room : Nat) (result : Except IoError (Bytes × Opener)) : Prop :=
  match opener.remaining aead with
  | ([], none) => ∃ next, result = .ok ([], next) ∧ next.Sound ∧ next.remaining aead = ([], none)
  | ([], some error) => result = .error error
  | (byte :: rest, stop) => ∃ piece next, result = .ok (piece, next) ∧ piece ≠ [] ∧ piece.length ≤ room ∧ next.Sound ∧
      (byte :: rest, stop) = (piece ++ (next.remaining aead).1, (next.remaining aead).2)

theorem takePlain_answered (sound : opener.Sound) (room : Nat) (positive : 0 < room)
    (some_plain : opener.taken ≠ opener.plain.length) : opener.Answered aead room (.ok (opener.takePlain room)) := by
  have within := sound.within
  have fresh : opener.plain.drop opener.taken ≠ [] := by
    rw [ne_eq, List.drop_eq_nil_iff]
    omega
  have next : (opener.takePlain room).2.Sound := by
    constructor
    case within =>
      simp only [takePlain]
      omega
    case ahead => exact sound.ahead
    case ended => exact sound.ended
  have split : opener.remaining aead =
      ((opener.takePlain room).1 ++ ((opener.takePlain room).2.remaining aead).1,
        ((opener.takePlain room).2.remaining aead).2) := by
    have cut : opener.plain.drop opener.taken = (opener.takePlain room).1 ++
        opener.plain.drop (opener.taken + min (opener.plain.length - opener.taken) room) := by
      rw [takePlain, ← List.drop_drop, List.take_append_drop]
    unfold remaining
    by_cases ended : opener.done
    case pos =>
      have later : (opener.takePlain room).2.done = true := ended
      rw [if_pos ended, if_pos later, cut]
      rfl
    case neg =>
      have later : ¬ (opener.takePlain room).2.done = true := ended
      rw [if_neg ended, if_neg later, cut]
      simp only [List.append_assoc]
      rfl
  have filled : (opener.takePlain room).1 ≠ [] := by
    simp only [takePlain, ne_eq, List.take_eq_nil_iff]
    rintro (none | none)
    next => omega
    next => exact fresh none
  unfold Answered
  cases whole : opener.remaining aead with
  | mk bytes stop =>
    rw [whole] at split
    cases bytes with
    | nil =>
      have empty := congrArg Prod.fst split
      exact absurd (List.append_eq_nil_iff.mp empty.symm).1 filled
    | cons byte rest =>
      refine ⟨_, _, rfl, filled, ?_, next, split⟩
      simp only [List.length_take]
      omega

theorem readFrom_answered (turns : Nat) (opener : Opener) (sound : opener.Sound) (room : Nat) (positive : 0 < room)
    (enough : (if opener.done then 0 else opener.unopened.length + 1) < turns) :
    opener.Answered aead room (readFrom aead turns opener room) := by
  induction turns generalizing opener with
  | zero => omega
  | succ turns ih =>
    unfold readFrom
    by_cases drained : opener.taken = opener.plain.length
    case neg =>
      rw [if_neg drained]
      exact takePlain_answered aead opener sound room positive drained
    case pos =>
      rw [if_pos drained]
      by_cases ended : opener.done
      case pos =>
        -- After the last chunk there is nothing to open.
        have through : opener.remaining aead = ([], none) := by
          unfold remaining
          rw [if_pos ended, List.drop_of_length_le (Nat.le_of_eq drained.symm)]
        have stays : opener.openNext aead = .ok (false, opener) := by rw [openNext, if_pos ended]
        unfold Answered
        rw [stays, through]
        exact ⟨opener, rfl, sound, through⟩
      case neg =>
        have next := openNext_exact aead opener sound (Bool.eq_false_iff.mpr ended) drained
        rw [if_neg ended] at enough
        cases result : opener.openNext aead with
        | error error =>
          rw [result] at next
          unfold Answered
          rw [show opener.remaining aead = ([], some error) from next]
        | ok answer =>
          obtain ⟨more, further⟩ := answer
          rw [result] at next
          obtain ⟨rfl, kept, same, fewer⟩ := next
          have onward := ih further kept (by
            split
            next => omega
            next open_ended =>
              have less := fewer (Bool.eq_false_iff.mpr open_ended)
              omega)
          unfold Answered at onward ⊢
          rwa [same] at onward

theorem delivers : Delivers (Opener.read aead) Sound (remaining aead) := by
  have answered : ∀ opener room, Sound opener → 0 < room → opener.Answered aead room (opener.read aead room) := by
    intro opener room sound positive
    unfold read
    rw [if_neg (by omega)]
    apply readFrom_answered aead _ opener sound room positive
    unfold turnsOf
    split <;> omega
  constructor
  case more =>
    intro opener room sound positive some_byte
    have answer := answered opener room sound positive
    unfold Answered at answer
    cases whole : opener.remaining aead with
    | mk bytes stop =>
      cases bytes with
      | nil => exact absurd (by rw [whole]) some_byte
      | cons byte rest =>
        rw [whole] at answer
        exact answer
  case ended =>
    intro opener room sound positive whole
    have answer := answered opener room sound positive
    unfold Answered at answer
    rw [whole] at answer
    exact answer
  case failed =>
    intro opener room error sound positive whole
    have answer := answered opener room sound positive
    unfold Answered at answer
    rw [whole] at answer
    exact answer

end Opener

section

variable {aead : Aead} {noncePrefix : NoncePrefix}

theorem sealChunk_length (lawful : aead.Lawful) (index : Nat) (last : Bool) (plain : Bytes) :
    (sealChunk aead noncePrefix index last plain).length = plain.length + tagLen := by
  rw [sealChunk, List.length_append, lawful.cipherLength, lawful.tagLength]

theorem openChunk_sealed (lawful : aead.Lawful) (index : Nat) (last : Bool) (plain : Bytes) :
    openChunk aead noncePrefix index last (sealChunk aead noncePrefix index last plain) = .ok plain := by
  have length := @sealChunk_length _ noncePrefix lawful index last plain
  have cipher := lawful.cipherLength (chunkNonce noncePrefix index last) plain
  have cut : (sealChunk aead noncePrefix index last plain).length - tagLen =
      (aead.encrypt (chunkNonce noncePrefix index last) plain).1.length := by omega
  unfold openChunk
  rw [if_neg (by omega), cut, sealChunk, List.take_left, List.drop_left, lawful.opens]

theorem openChunks_sealed (lawful : aead.Lawful) (full : List Bytes) (last : Bytes) (index : Nat)
    (fits : index + full.length + 1 < indexBound) :
    openChunks aead noncePrefix index
      ((full.zipIdx index).map (fun entry => sealChunk aead noncePrefix entry.2 false entry.1) ++
        [sealChunk aead noncePrefix (index + full.length) true last]) = (full.flatten ++ last, none) := by
  induction full generalizing index with
  | nil =>
    have opens := @openChunk_sealed _ noncePrefix lawful index true last
    have room : index + 1 < indexBound := by simpa using fits
    simp only [List.zipIdx_nil, List.map_nil, List.nil_append, List.length_nil, Nat.add_zero, openChunks,
      List.isEmpty_nil, opens, if_pos room, List.flatten_nil, List.append_nil]
  | cons plain full ih =>
    rw [List.length_cons] at fits
    have opens := @openChunk_sealed _ noncePrefix lawful index false plain
    have room : index + 1 < indexBound := by omega
    have later := ih (index + 1) (by omega)
    have more : ((full.zipIdx (index + 1)).map (fun entry => sealChunk aead noncePrefix entry.2 false entry.1) ++
        [sealChunk aead noncePrefix (index + 1 + full.length) true last]).isEmpty = false := by simp
    have shift : index + (full.length + 1) = index + 1 + full.length := by omega
    rw [List.zipIdx_cons, List.map_cons, List.cons_append, List.length_cons, shift, openChunks, more, opens]
    simp only [if_pos room]
    rw [later, List.flatten_cons, List.append_assoc]

theorem opened_sealed (lawful : aead.Lawful) (payload : Bytes) (fits : Fits payload) :
    opened aead noncePrefix (sealedPayload aead noncePrefix payload) = (payload, none) := by
  obtain ⟨full, last, chunks⟩ : ∃ full last, Chunks.chunksOf chunk payload = full ++ [last] := by
    have some_chunk := Chunks.chunksOf_ne chunk payload
    exact ⟨_, _, (List.dropLast_append_getLast some_chunk).symm⟩
  have sizes := Chunks.chunksOf_sized chunk payload chunk_positive full last chunks
  have cut : Chunks.chunksOf sealedChunk (sealedPayload aead noncePrefix payload) =
      full.zipIdx.map (fun entry => sealChunk aead noncePrefix entry.2 false entry.1) ++
        [sealChunk aead noncePrefix (0 + full.length) true last] := by
    rw [sealedPayload_full payload full last chunks, sealedFront, List.flatMap_def, Nat.zero_add]
    apply Chunks.chunksOf_full sealedChunk _ _ Opener.sealedChunk_positive
    next =>
      intro sealed inside
      obtain ⟨entry, among, rfl⟩ := List.mem_map.mp inside
      rw [sealChunk_length lawful, sizes.1 entry.1 (List.fst_mem_of_mem_zipIdx among)]
      rfl
    next =>
      rw [sealChunk_length lawful]
      exact Nat.add_le_add_right sizes.2 tagLen
    next =>
      intro _ none
      have length := @sealChunk_length _ noncePrefix lawful full.length true last
      rw [none, List.length_nil] at length
      simp [tagLen] at length
  have count : full.length + 1 < indexBound := by
    unfold Fits at fits
    rwa [chunks, List.length_append] at fits
  rw [opened, cut, openChunks_sealed lawful full last 0 (by omega), ← Chunks.chunksOf_flatten chunk payload, chunks]
  simp

end

end Postio.Blobs

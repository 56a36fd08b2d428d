import EasyUds.Transport.Reader

/-! # Stream frames

The frames of a chunked stream, and `IncomingStream`, which reads them from a byte source piece by
piece (`reactor/stream.cpp`). The checks of a total against `max_stream_size` are the same wherever
a stream is read or written.
-/

namespace EasyUds.Reactor.Stream

open Protocol.Codec Transport.Reader

structure Frame where
  type : WireType
  requestId : UInt32
  arg1 : UInt32
  arg2 : UInt32
  payload : List UInt8
  deriving DecidableEq, Repr

/-- `write_frame_with_payload`, and `write_header_frame` when there is no payload. -/
def Frame.bytes (wireVersion : UInt8) (frame : Frame) : List UInt8 :=
  encodeHeader frame.type frame.requestId frame.arg1 frame.arg2 0 wireVersion ++ frame.payload

def chunkFrame (type : WireType) (requestId : UInt32) (bytes : List UInt8) : Frame :=
  ⟨type, requestId, UInt32.ofNat bytes.length, 0, bytes⟩

def headerFrame (type : WireType) (requestId arg1 : UInt32) : Frame := ⟨type, requestId, arg1, 0, []⟩

def sizeMax : Nat := 2 ^ 64 - 1

def exceeds (maxStreamSize total size : Nat) : Bool :=
  size > sizeMax - total || (maxStreamSize != 0 && size > maxStreamSize - total)

structure IncomingStream where
  chunkType : WireType
  endType : WireType
  maxSize : Nat
  requestId : UInt32
  totalSize : Nat
  frameRemaining : Nat
  ended : Bool
  deriving DecidableEq, Repr

namespace IncomingStream

def opened (stream : IncomingStream) (chunkSize : Nat) : IncomingStream :=
  { stream with totalSize := stream.totalSize + chunkSize, frameRemaining := chunkSize }

def acceptHeader (stream : IncomingStream) (header : HeaderBytes) : Except Exception IncomingStream :=
  match decodeHeader header with
  | .error reason => .error reason
  | .ok decoded =>
    if decoded.type = stream.endType then
      if decoded.requestId ≠ stream.requestId ∨ decoded.arg1 ≠ 0 ∨ decoded.arg2 ≠ 0 then
        .error (.runtimeError "invalid stream end frame")
      else .ok { stream with ended := true }
    else if decoded.type ≠ stream.chunkType ∨ decoded.requestId ≠ stream.requestId ∨ decoded.arg1 = 0 ∨
        decoded.arg2 ≠ 0 then
      .error (.runtimeError "invalid stream chunk frame")
    else if exceeds stream.maxSize stream.totalSize decoded.arg1.toNat then
      .error (.lengthError "stream exceeds max_stream_size")
    else .ok (stream.opened decoded.arg1.toNat)

def readPayload (stream : IncomingStream) (source : Source) (capacity : Nat) :
    Except Exception (List UInt8) × IncomingStream × Source :=
  let size := min capacity stream.frameRemaining
  match source.read size with
  | (.ok bytes, source) => (.ok bytes, { stream with frameRemaining := stream.frameRemaining - size }, source)
  | (.error reason, source) => (.error reason, stream, source)

def read (stream : IncomingStream) (source : Source) (capacity : Nat) :
    Except Exception (List UInt8) × IncomingStream × Source :=
  if stream.ended then (.ok [], stream, source)
  else if stream.frameRemaining = 0 then
    match source.read headerSize with
    | (.error reason, source) => (.error reason, stream, source)
    | (.ok header, source) =>
      match stream.acceptHeader header with
      | .error reason => (.error reason, stream, source)
      | .ok opened => if opened.ended then (.ok [], opened, source) else opened.readPayload source capacity
  else stream.readPayload source capacity

end IncomingStream

def frames (chunkType endType : WireType) (requestId : UInt32) (chunks : List (List UInt8)) : List Frame :=
  chunks.map (chunkFrame chunkType requestId) ++ [headerFrame endType requestId 0]

def wire (wireVersion : UInt8) (frames : List Frame) : List UInt8 := (frames.map (Frame.bytes wireVersion)).flatten

def Cut (chunks : List (List UInt8)) : Prop := ∀ chunk ∈ chunks, chunk ≠ [] ∧ chunk.length ≤ maxWireField

def Within (maxStreamSize total : Nat) : Prop := total ≤ sizeMax ∧ (maxStreamSize ≠ 0 → total ≤ maxStreamSize)

instance (maxStreamSize total : Nat) : Decidable (Within maxStreamSize total) := inferInstanceAs (Decidable (_ ∧ _))

inductive Carries (wireVersion : UInt8) (stream : IncomingStream) : List UInt8 → List UInt8 → List UInt8 → Prop
  | ended (tail : List UInt8) : stream.ended = true → Carries wireVersion stream tail [] tail
  | frames (current tail : List UInt8) (chunks : List (List UInt8)) :
      stream.ended = false → current.length = stream.frameRemaining → Cut chunks →
        Within stream.maxSize (stream.totalSize + chunks.flatten.length) →
        Carries wireVersion stream
          (current ++ (wire wireVersion (frames stream.chunkType stream.endType stream.requestId chunks) ++ tail))
          (current ++ chunks.flatten) tail

variable {wireVersion : UInt8} {stream : IncomingStream} {source : Source} {capacity : Nat}
variable {opened : IncomingStream} {bytes : List UInt8} {header : HeaderBytes}

theorem not_exceeds {maxStreamSize total size : Nat} (h : Within maxStreamSize (total + size)) :
    exceeds maxStreamSize total size = false := by
  obtain ⟨hSize, hMax⟩ := h
  simp only [exceeds, Bool.or_eq_false_iff, decide_eq_false_iff_not, Bool.and_eq_false_imp, bne_iff_ne]
  refine ⟨by omega, fun hLimit => ?_⟩
  have hFits := hMax hLimit
  omega

theorem Within.mono {maxStreamSize total less : Nat} (h : Within maxStreamSize total) (hLess : less ≤ total) :
    Within maxStreamSize less :=
  ⟨hLess.trans h.1, fun hLimit => hLess.trans (h.2 hLimit)⟩

theorem toNat_length (h : bytes.length ≤ maxWireField) :
    (UInt32.ofNat bytes.length).toNat = bytes.length := by
  rw [UInt32.toNat_ofNat']
  exact Nat.mod_eq_of_lt (by unfold maxWireField at h; omega)

theorem ofNat_length_ne_zero (hBytes : bytes ≠ []) (hLength : bytes.length ≤ maxWireField) :
    UInt32.ofNat bytes.length ≠ 0 := by
  intro hZero
  have hNat := congrArg UInt32.toNat hZero
  rw [toNat_length hLength] at hNat
  exact hBytes (List.length_eq_zero_iff.mp hNat)

def KnownVersion (wireVersion : UInt8) : Prop := wireVersion = version ∨ wireVersion = cancellableVersion

theorem decode_stream (hVersion : KnownVersion wireVersion) {type : WireType} (hType : type ≠ .cancelRequest)
    (requestId arg1 arg2 : UInt32) :
    decodeHeader (encodeHeader type requestId arg1 arg2 0 wireVersion) =
      .ok { type, requestId, arg1, arg2, flags := 0, version := wireVersion } :=
  decodeHeader_encodeHeader type requestId arg1 arg2 wireVersion hVersion fun h => absurd h hType

structure Kinds (stream : IncomingStream) : Prop where
  distinct : stream.chunkType ≠ stream.endType
  chunk : stream.chunkType ≠ .cancelRequest
  ending : stream.endType ≠ .cancelRequest

theorem acceptHeader_end (hVersion : KnownVersion wireVersion) (hKinds : Kinds stream) :
    stream.acceptHeader (encodeHeader stream.endType stream.requestId 0 0 0 wireVersion) =
      .ok { stream with ended := true } := by
  rw [IncomingStream.acceptHeader, decode_stream hVersion hKinds.ending]
  simp

theorem acceptHeader_chunk (hVersion : KnownVersion wireVersion) (hKinds : Kinds stream) (hBytes : bytes ≠ [])
    (hLength : bytes.length ≤ maxWireField) (hWithin : Within stream.maxSize (stream.totalSize + bytes.length)) :
    stream.acceptHeader (encodeHeader stream.chunkType stream.requestId (UInt32.ofNat bytes.length) 0 0 wireVersion) =
      .ok (stream.opened bytes.length) := by
  rw [IncomingStream.acceptHeader, decode_stream hVersion hKinds.chunk]
  simp [hKinds.distinct, ofNat_length_ne_zero hBytes hLength, toNat_length hLength, not_exceeds hWithin]

theorem read_front {front rest : List UInt8} (h : source.ahead = front ++ rest) :
    ∃ next, source.read front.length = (.ok front, next) ∧ next.ahead = rest := by
  have hExact := source.read_exact front.length
  rw [h] at hExact
  obtain ⟨hResult, hRest⟩ := hExact.front
  exact ⟨_, Prod.ext hResult rfl, hRest⟩

structure Took (wireVersion : UInt8) (outcome : Except Exception (List UInt8) × IncomingStream × Source)
    (capacity : Nat) (pending tail bytes later : List UInt8) : Prop where
  result : outcome.1 = .ok bytes
  fits : bytes.length ≤ capacity
  exhausted : bytes = [] → pending = [] ∧ outcome.2.1.ended = true
  pieces : pending = bytes ++ later
  carries : Carries wireVersion outcome.2.1 outcome.2.2.ahead later tail
  kinds : Kinds outcome.2.1

theorem readPayload_took {current tail : List UInt8} {chunks : List (List UInt8)} (hKinds : Kinds stream)
    (hCapacity : 0 < capacity) (hCurrent : current ≠ []) (hEnded : stream.ended = false)
    (hLength : current.length = stream.frameRemaining) (hCut : Cut chunks)
    (hWithin : Within stream.maxSize (stream.totalSize + chunks.flatten.length))
    (hAhead : source.ahead = current ++
      (wire wireVersion (frames stream.chunkType stream.endType stream.requestId chunks) ++ tail)) :
    Took wireVersion (stream.readPayload source capacity) capacity (current ++ chunks.flatten) tail
      (current.take capacity) (current.drop capacity ++ chunks.flatten) := by
  rw [← List.take_append_drop capacity current, List.append_assoc] at hAhead
  obtain ⟨source', hRead, hAhead'⟩ := read_front hAhead
  rw [List.length_take, hLength] at hRead
  have hPayload : stream.readPayload source capacity =
      (.ok (current.take capacity),
        { stream with frameRemaining := stream.frameRemaining - min capacity stream.frameRemaining }, source') := by
    rw [IncomingStream.readPayload]
    simp only [hRead]
  rw [hPayload]
  refine ⟨rfl, List.length_take_le _ _, fun hNone => ?_, ?_, ?_, hKinds.1, hKinds.2, hKinds.3⟩
  · rcases List.take_eq_nil_iff.mp hNone with hZero | hNil
    · exact absurd hZero hCapacity.ne'
    · exact absurd hNil hCurrent
  · rw [← List.append_assoc, List.take_append_drop]
  · rw [hAhead']
    refine .frames _ _ chunks hEnded ?_ hCut hWithin
    rw [List.length_drop, hLength]
    dsimp only
    omega

theorem wire_cons (frame : Frame) (rest : List Frame) :
    wire wireVersion (frame :: rest) = frame.bytes wireVersion ++ wire wireVersion rest := rfl

theorem read_ended (h : stream.ended = true) : stream.read source capacity = (.ok [], stream, source) := by
  rw [IncomingStream.read, if_pos h]

theorem read_header {c : Nat} {header rest : List UInt8} (hHeader : header.length = headerSize)
    (hEnded : stream.ended = false) (hRemaining : stream.frameRemaining = 0) (hAhead : source.ahead = header ++ rest)
    (hAccept : stream.acceptHeader header = .ok opened) :
    ∃ source', source'.ahead = rest ∧ stream.read source c =
      if opened.ended then (.ok [], opened, source') else opened.readPayload source' c := by
  obtain ⟨source', hRead, hRest⟩ := read_front hAhead
  rw [hHeader] at hRead
  refine ⟨source', hRest, ?_⟩
  rw [IncomingStream.read, if_neg (ne_of_eq_of_ne hEnded Bool.false_ne_true), if_pos hRemaining]
  simp only [hRead, hAccept]

theorem read_took {pending tail : List UInt8} (hVersion : KnownVersion wireVersion) (hKinds : Kinds stream)
    (hCapacity : 0 < capacity) (h : Carries wireVersion stream source.ahead pending tail) :
    ∃ bytes later, Took wireVersion (stream.read source capacity) capacity pending tail bytes later := by
  generalize hAhead : source.ahead = ahead at h
  cases h with
  | ended _ hEnded =>
    refine ⟨[], [], ?_⟩
    rw [read_ended hEnded]
    refine ⟨rfl, Nat.zero_le _, fun _ => ⟨rfl, hEnded⟩, rfl, ?_, hKinds⟩
    rw [hAhead]
    exact .ended _ hEnded
  | frames current tail chunks hEnded hLength hCut hWithin =>
    by_cases hCurrent : current = []
    · subst hCurrent
      cases chunks with
      | nil =>
        have hFront : source.ahead = encodeHeader stream.endType stream.requestId 0 0 0 wireVersion ++ tail := by
          rw [hAhead]
          simp [wire, frames, headerFrame, Frame.bytes]
        obtain ⟨source', hRest, hRead⟩ :=
          read_header (c := capacity) rfl hEnded hLength.symm hFront (acceptHeader_end hVersion hKinds)
        rw [hRead, if_pos rfl]
        refine ⟨[], [], rfl, Nat.zero_le _, fun _ => ⟨rfl, rfl⟩, rfl, ?_, hKinds.1, hKinds.2, hKinds.3⟩
        rw [hRest]
        exact .ended _ rfl
      | cons chunk chunks =>
        obtain ⟨hChunk, hFits⟩ := hCut chunk List.mem_cons_self
        have hFront : source.ahead =
            encodeHeader stream.chunkType stream.requestId (UInt32.ofNat chunk.length) 0 0 wireVersion ++ (chunk ++
              (wire wireVersion (frames stream.chunkType stream.endType stream.requestId chunks) ++ tail)) := by
          rw [hAhead]
          simp [wire, frames, chunkFrame, Frame.bytes]
        rw [List.flatten_cons, List.length_append, ← Nat.add_assoc] at hWithin
        obtain ⟨source', hRest, hRead⟩ := read_header (c := capacity) rfl hEnded hLength.symm hFront
          (acceptHeader_chunk hVersion hKinds hChunk hFits (hWithin.mono (Nat.le_add_right _ _)))
        have hOpen : ¬(stream.opened chunk.length).ended = true := ne_of_eq_of_ne hEnded Bool.false_ne_true
        rw [hRead, if_neg hOpen]
        have hOpened : Kinds (stream.opened chunk.length) := ⟨hKinds.1, hKinds.2, hKinds.3⟩
        have hTook := readPayload_took hOpened hCapacity hChunk hEnded rfl
          (fun later hLater => hCut later (List.mem_cons_of_mem _ hLater)) hWithin hRest
        exact ⟨_, _, hTook⟩
    · have hRemaining : stream.frameRemaining ≠ 0 := by
        rw [← hLength]
        exact fun hNone => hCurrent (List.length_eq_zero_iff.mp hNone)
      rw [IncomingStream.read, if_neg (ne_of_eq_of_ne hEnded Bool.false_ne_true), if_neg hRemaining]
      exact ⟨_, _, readPayload_took hKinds hCapacity hCurrent hEnded hLength hCut hWithin hAhead⟩

section

variable (stream : IncomingStream) (source : Source) (capacity : Nat)

inductive ReadStep : Except Exception (List UInt8) × IncomingStream × Source → Prop
  | ended : stream.ended = true → ReadStep (.ok [], stream, source)
  | headerFailed (reason : Exception) (source' : Source) : stream.ended = false → stream.frameRemaining = 0 →
      source.read headerSize = (.error reason, source') → ReadStep (.error reason, stream, source')
  | refused (reason : Exception) (header : HeaderBytes) (source' : Source) : stream.ended = false →
      stream.frameRemaining = 0 → source.read headerSize = (.ok header, source') →
        ReadStep (.error reason, stream, source')
  | finished (opened : IncomingStream) (header : HeaderBytes) (source' : Source) : stream.ended = false →
      stream.frameRemaining = 0 → stream.acceptHeader header = .ok opened → opened.ended = true →
        ReadStep (.ok [], opened, source')
  | opened (opened : IncomingStream) (header : HeaderBytes) (source' : Source) : stream.ended = false →
      stream.frameRemaining = 0 → stream.acceptHeader header = .ok opened → opened.ended = false →
        0 < opened.frameRemaining → ReadStep (opened.readPayload source' capacity)
  | inside : stream.ended = false → 0 < stream.frameRemaining → ReadStep (stream.readPayload source capacity)

end

theorem acceptHeader_opens (h : stream.acceptHeader header = .ok opened) :
    opened = { stream with ended := true } ∨ ∃ size, 0 < size ∧ opened = stream.opened size := by
  rw [IncomingStream.acceptHeader] at h
  split at h
  · cases h
  · rename_i decoded _
    split at h
    · split at h
      · cases h
      · cases h
        exact .inl rfl
    · split at h
      · cases h
      · rename_i hChunk
        split at h
        · cases h
        · cases h
          refine .inr ⟨_, Nat.pos_of_ne_zero fun hZero => hChunk (.inr (.inr (.inl ?_))), rfl⟩
          exact UInt32.toNat_inj.mp hZero

theorem read_step (stream : IncomingStream) (source : Source) (capacity : Nat) :
    ReadStep stream source capacity (stream.read source capacity) := by
  rw [IncomingStream.read]
  split
  · rename_i hEnded
    exact .ended hEnded
  · rename_i hOpen
    have hEnded : stream.ended = false := Bool.not_eq_true _ ▸ hOpen
    split
    · rename_i hRemaining
      split
      · rename_i reason source' hRead
        exact .headerFailed reason source' hEnded hRemaining hRead
      · rename_i header source' hRead
        split
        · rename_i reason hAccept
          exact .refused reason header source' hEnded hRemaining hRead
        · rename_i opened hAccept
          split
          · rename_i hFinished
            exact .finished opened header source' hEnded hRemaining hAccept hFinished
          · rename_i hFinished
            rcases acceptHeader_opens hAccept with rfl | ⟨size, hPositive, rfl⟩
            · exact absurd rfl hFinished
            · exact .opened _ header source' hEnded hRemaining hAccept hEnded hPositive
    · rename_i hRemaining
      exact .inside hEnded (Nat.pos_of_ne_zero hRemaining)

theorem readPayload_ended (stream : IncomingStream) (source : Source) (capacity : Nat) :
    (stream.readPayload source capacity).2.1.ended = stream.ended := by
  rw [IncomingStream.readPayload]
  split <;> rfl

theorem readPayload_result (stream : IncomingStream) (source : Source) (capacity : Nat) :
    (stream.readPayload source capacity).1 = (source.read (min capacity stream.frameRemaining)).1 := by
  rw [IncomingStream.readPayload]
  split <;> rename_i hRead <;> rw [hRead]

theorem readPayload_requestId (stream : IncomingStream) (source : Source) (capacity : Nat) :
    (stream.readPayload source capacity).2.1.requestId = stream.requestId := by
  rw [IncomingStream.readPayload]
  split <;> rfl

theorem acceptHeader_requestId (h : stream.acceptHeader header = .ok opened) :
    opened.requestId = stream.requestId := by
  rcases acceptHeader_opens h with rfl | ⟨size, -, rfl⟩ <;> rfl

theorem read_requestId (stream : IncomingStream) (source : Source) (capacity : Nat) :
    (stream.read source capacity).2.1.requestId = stream.requestId := by
  have hStep := read_step stream source capacity
  generalize stream.read source capacity = outcome at hStep ⊢
  cases hStep with
  | ended hEnded => rfl
  | headerFailed reason source' hEnded hRemaining hRead => rfl
  | refused reason header source' hEnded hRemaining hRead => rfl
  | finished opened header source' hEnded hRemaining hAccept hFinished => exact acceptHeader_requestId hAccept
  | opened opened header source' hEnded hRemaining hAccept hOpen hPositive =>
    rw [readPayload_requestId]
    exact acceptHeader_requestId hAccept
  | inside hEnded hPositive => exact readPayload_requestId _ _ _

theorem read_failed_open {reason : Exception} (h : (stream.read source capacity).1 = .error reason) :
    (stream.read source capacity).2.1.ended = false := by
  have hStep := read_step stream source capacity
  generalize stream.read source capacity = outcome at hStep h ⊢
  cases hStep with
  | ended hEnded => cases h
  | headerFailed reason source' hEnded hRemaining hRead => exact hEnded
  | refused reason header source' hEnded hRemaining hRead => exact hEnded
  | finished opened header source' hEnded hRemaining hAccept hFinished => cases h
  | opened opened header source' hEnded hRemaining hAccept hOpen hPositive =>
    rw [readPayload_ended]
    exact hOpen
  | inside hEnded hPositive =>
    rw [readPayload_ended]
    exact hEnded

theorem readPayload_nonempty (hCapacity : 0 < capacity) (hPositive : 0 < stream.frameRemaining) :
    (stream.readPayload source capacity).1 ≠ .ok [] := by
  intro hNothing
  rw [readPayload_result] at hNothing
  have hZero : 0 = min capacity stream.frameRemaining := (source.read_exact _).length hNothing
  omega

/-- Only the end of a stream reads as nothing. -/
theorem read_nothing_ended (hCapacity : 0 < capacity) (h : (stream.read source capacity).1 = .ok []) :
    (stream.read source capacity).2.1.ended = true := by
  have hStep := read_step stream source capacity
  generalize stream.read source capacity = outcome at hStep h ⊢
  cases hStep with
  | ended hEnded => exact hEnded
  | headerFailed reason source' hEnded hRemaining hRead => cases h
  | refused reason header source' hEnded hRemaining hRead => cases h
  | finished opened header source' hEnded hRemaining hAccept hFinished => exact hFinished
  | opened opened header source' hEnded hRemaining hAccept hOpen hPositive =>
    exact absurd h (readPayload_nonempty hCapacity hPositive)
  | inside hEnded hPositive => exact absurd h (readPayload_nonempty hCapacity hPositive)

def need (stream : IncomingStream) (capacity : Nat) : Nat :=
  if stream.frameRemaining = 0 then headerSize else min capacity stream.frameRemaining

theorem read_short (hOpen : stream.ended = false) (hShort : source.ahead.length < need stream capacity) :
    ∃ reason, (stream.read source capacity).1 = .error reason := by
  rw [IncomingStream.read, if_neg (ne_of_eq_of_ne hOpen Bool.false_ne_true)]
  unfold need at hShort
  split at hShort
  · rename_i hRemaining
    obtain ⟨reason, hReason⟩ := (source.read_exact headerSize).short hShort
    rw [if_pos hRemaining]
    generalize source.read headerSize = outcome at hReason
    obtain ⟨result, source'⟩ := outcome
    cases hReason
    exact ⟨reason, rfl⟩
  · rename_i hRemaining
    rw [if_neg hRemaining, readPayload_result]
    exact (source.read_exact _).short hShort

end EasyUds.Reactor.Stream

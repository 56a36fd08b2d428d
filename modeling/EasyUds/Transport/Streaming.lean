import EasyUds.Reactor.StreamDelivery

/-! # One-shot streams

`write_stream_request` sends what the caller's reader gives, cut as the reader cuts it;
`run_oneshot_stream` then reads the status and passes the chunks of the response on, in pieces of at
most `stream_chunk_size` bytes.
-/

namespace EasyUds.Transport.Streaming

open Lib Protocol.Codec Transport.Reader Reactor.Stream
  Reactor.StreamExchange Reactor.StreamDelivery

structure ClientOptions where
  streamChunkSize : Nat
  maxStreamSize : Nat
  maxMessageSize : Nat
  protocolVersion : UInt8
  chunk_size : 1 ≤ streamChunkSize ∧ streamChunkSize ≤ maxWireField
  known_version : KnownVersion protocolVersion

/-- The request chunks: the frames that are written, and how the loop ends. `results` is what the
reader gives from call to call. -/
def writeChunks (client : ClientOptions) (requestId : UInt32) :
    Nat → List (List UInt8) → List Frame × Except Exception Unit
  | _, [] => ([headerFrame .streamRequestEnd requestId 0], .ok ())
  | total, bytes :: rest =>
    if bytes = [] then ([headerFrame .streamRequestEnd requestId 0], .ok ())
    else if bytes.length > client.streamChunkSize then
      ([], .error (.runtimeError "stream reader returned more bytes than its capacity"))
    else if exceeds client.maxStreamSize total bytes.length then
      ([], .error (.lengthError "stream exceeds max_stream_size"))
    else
      let later := writeChunks client requestId (total + bytes.length) rest
      (chunkFrame .streamRequestChunk requestId bytes :: later.1, later.2)

def writeStreamRequest (client : ClientOptions) (requestId : UInt32) (route : List UInt8)
    (results : List (List UInt8)) : List Frame × Except Exception Unit :=
  let chunks := writeChunks client requestId 0 results
  (⟨.streamRequest, requestId, UInt32.ofNat route.length, 0, route⟩ :: chunks.1, chunks.2)

def sendOneshotStream (client : ClientOptions) (route : List UInt8) (results : List (List UInt8)) :
    List Frame × Except Exception Unit :=
  if route = [] then ([], .error (.invalidArgument "route must not be empty"))
  else if route.length > client.maxMessageSize ∨ route.length > maxWireField then
    ([], .error (.lengthError "route exceeds max_message_size"))
  else writeStreamRequest client 0 route results

def decodeExpected (header : HeaderBytes) (expected : WireType) : Except Exception DecodedHeader :=
  match decodeHeader header with
  | .error reason => .error reason
  | .ok decoded =>
    if decoded.type ≠ expected then .error (.error .protocol "unexpected protocol message type") else .ok decoded

/-- The pieces given to `response_chunk`, and how the reading ends. -/
structure Received (α : Type) where
  pieces : List (List UInt8)
  result : Except Exception α

def passChunk (client : ClientOptions) : Nat → BufferedReader → Nat → Received BufferedReader
  | 0, reader, _ => ⟨[], .ok reader⟩
  | fuel + 1, reader, remaining =>
    if remaining = 0 then ⟨[], .ok reader⟩
    else
      let take := min remaining client.streamChunkSize
      match reader.read take with
      | (.error reason, _) => ⟨[], .error reason⟩
      | (.ok bytes, reader) =>
        let later := passChunk client fuel reader (remaining - take)
        ⟨bytes :: later.pieces, later.result⟩

/-- The outer loop; `total` is the size so far. -/
def passChunks (client : ClientOptions) : Nat → BufferedReader → Nat → Received BufferedReader
  | 0, reader, _ => ⟨[], .ok reader⟩
  | fuel + 1, reader, total =>
    match reader.read headerSize with
    | (.error reason, _) => ⟨[], .error reason⟩
    | (.ok header, reader) =>
      match decodeHeader header with
      | .error reason => ⟨[], .error reason⟩
      | .ok chunk =>
        if chunk.type = .streamResponseEnd then
          if chunk.requestId ≠ 0 ∨ chunk.arg1 ≠ 0 ∨ chunk.arg2 ≠ 0 then
            ⟨[], .error (.error .protocol "invalid stream end frame")⟩
          else ⟨[], .ok reader⟩
        else if chunk.type ≠ .streamResponseChunk ∨ chunk.requestId ≠ 0 ∨ chunk.arg1 = 0 ∨ chunk.arg2 ≠ 0 then
          ⟨[], .error (.error .protocol "invalid stream chunk frame")⟩
        else if exceeds client.maxStreamSize total chunk.arg1.toNat then
          ⟨[], .error (.error .tooLarge "stream exceeds max_stream_size")⟩
        else
          let passed := passChunk client chunk.arg1.toNat reader chunk.arg1.toNat
          match passed.result with
          | .error reason => ⟨passed.pieces, .error reason⟩
          | .ok reader =>
            let later := passChunks client fuel reader (total + chunk.arg1.toNat)
            ⟨passed.pieces ++ later.pieces, later.result⟩

def int32Max : UInt32 := 2147483647

/-- The rest of `run_oneshot_stream`. Every frame takes a header, so that the bytes ahead bound
the number of rounds. -/
def readStreamResponse (client : ClientOptions) (reader : BufferedReader) : Received Int32 :=
  match reader.read headerSize with
  | (.error reason, _) => ⟨[], .error reason⟩
  | (.ok header, reader) =>
    match decodeExpected header .streamResponse with
    | .error reason => ⟨[], .error reason⟩
    | .ok decoded =>
      if decoded.requestId ≠ 0 ∨ decoded.arg1 > int32Max ∨ decoded.arg2 ≠ 0 then
        ⟨[], .error (.error .protocol "invalid stream response header")⟩
      else
        let passed := passChunks client (reader.ahead.length + 1) reader 0
        ⟨passed.pieces, passed.result.map fun _ => decoded.arg1.toInt32⟩

variable {client : ClientOptions} {requestId : UInt32} {reader : BufferedReader} {rest : List UInt8}
  {chunks : List (List UInt8)} {total : Nat}

theorem writeChunks_frames (hCut : ∀ chunk ∈ chunks, chunk ≠ [] ∧ chunk.length ≤ client.streamChunkSize)
    (hWithin : Within client.maxStreamSize (total + chunks.flatten.length)) :
    writeChunks client requestId total chunks =
      (frames .streamRequestChunk .streamRequestEnd requestId chunks, .ok ()) := by
  induction chunks generalizing total with
  | nil => rfl
  | cons chunk chunks ih =>
    obtain ⟨hChunk, hFits⟩ := hCut chunk List.mem_cons_self
    rw [List.flatten_cons, List.length_append, ← Nat.add_assoc] at hWithin
    have hPiece := not_exceeds (hWithin.mono (Nat.le_add_right _ _))
    have hLater := ih (fun later hLater => hCut later (List.mem_cons_of_mem _ hLater)) hWithin
    rw [writeChunks, if_neg hChunk, if_neg (Nat.not_lt.mpr hFits),
      if_neg (ne_of_eq_of_ne hPiece Bool.false_ne_true), hLater]
    rfl

theorem reader_front {front : List UInt8} (h : reader.ahead = front ++ rest) :
    ∃ next, reader.read front.length = (.ok front, next) ∧ next.ahead = rest := by
  have hExact := reader.read_exact front.length
  rw [h] at hExact
  obtain ⟨hResult, hRest⟩ := hExact.front
  exact ⟨_, Prod.ext hResult rfl, hRest⟩

theorem passChunk_passes (client : ClientOptions) {chunk : List UInt8} (fuel : Nat) (hFuel : chunk.length ≤ fuel)
    (hAhead : reader.ahead = chunk ++ rest) :
    (passChunk client fuel reader chunk.length).pieces.flatten = chunk ∧
      ∃ next, (passChunk client fuel reader chunk.length).result = .ok next ∧ next.ahead = rest := by
  induction fuel generalizing reader chunk with
  | zero =>
    have hNone : chunk = [] := List.length_eq_zero_iff.mp (Nat.le_zero.mp hFuel)
    subst hNone
    exact ⟨rfl, reader, rfl, hAhead⟩
  | succ fuel ih =>
    rw [passChunk]
    split
    · rename_i hZero
      have hNone : chunk = [] := List.length_eq_zero_iff.mp hZero
      subst hNone
      exact ⟨rfl, reader, rfl, hAhead⟩
    · rename_i hSome
      have hSize := client.chunk_size.1
      rw [← List.take_append_drop client.streamChunkSize chunk, List.append_assoc] at hAhead
      obtain ⟨next, hRead, hNext⟩ := reader_front hAhead
      obtain ⟨hFlatten, hResult⟩ := ih (by rw [List.length_drop]; omega) hNext
      rw [List.length_take, Nat.min_comm] at hRead
      rw [List.length_drop] at hFlatten hResult
      simp only [hRead]
      rw [show chunk.length - min chunk.length client.streamChunkSize = chunk.length - client.streamChunkSize by omega]
      exact ⟨by rw [List.flatten_cons, hFlatten, List.take_append_drop], hResult⟩

theorem passChunks_passes (fuel : Nat) (hFuel : chunks.length < fuel) (hCut : Cut chunks)
    (hWithin : Within client.maxStreamSize (total + chunks.flatten.length))
    (hAhead : reader.ahead =
      wire client.protocolVersion (frames .streamResponseChunk .streamResponseEnd 0 chunks) ++ rest) :
    (passChunks client fuel reader total).pieces.flatten = chunks.flatten ∧
      ∃ next, (passChunks client fuel reader total).result = .ok next ∧ next.ahead = rest := by
  induction fuel generalizing reader chunks total with
  | zero => exact absurd hFuel (Nat.not_lt_zero _)
  | succ fuel ih =>
    cases chunks with
    | nil =>
      have hFront : reader.ahead = encodeHeader .streamResponseEnd 0 0 0 0 client.protocolVersion ++ rest := by
        rw [hAhead]
        simp [wire, frames, headerFrame, Frame.bytes]
      obtain ⟨next, hRead, hNext⟩ := reader_front hFront
      rw [encodeHeader_length] at hRead
      rw [passChunks]
      simp only [hRead, decode_stream client.known_version (show WireType.streamResponseEnd ≠ .cancelRequest by simp)]
      exact ⟨rfl, next, rfl, hNext⟩
    | cons chunk chunks =>
      obtain ⟨hChunk, hFits⟩ := hCut chunk List.mem_cons_self
      have hFront : reader.ahead =
          encodeHeader .streamResponseChunk 0 (UInt32.ofNat chunk.length) 0 0 client.protocolVersion ++ (chunk ++
            (wire client.protocolVersion (frames .streamResponseChunk .streamResponseEnd 0 chunks) ++ rest)) := by
        rw [hAhead]
        simp [wire, frames, chunkFrame, Frame.bytes]
      rw [List.flatten_cons, List.length_append, ← Nat.add_assoc] at hWithin
      have hPiece := not_exceeds (hWithin.mono (Nat.le_add_right _ _))
      obtain ⟨next, hRead, hNext⟩ := reader_front hFront
      rw [encodeHeader_length] at hRead
      obtain ⟨hPieces, later, hPassed, hLater⟩ := passChunk_passes client _ le_rfl hNext
      obtain ⟨hFlatten, hEnd⟩ := ih (Nat.lt_of_succ_lt_succ hFuel)
        (fun other hOther => hCut other (List.mem_cons_of_mem _ hOther)) hWithin hLater
      rw [passChunks]
      simp only [hRead, decode_stream client.known_version (show WireType.streamResponseChunk ≠ .cancelRequest by simp),
        toNat_length hFits]
      have hNonzero : UInt32.ofNat chunk.length ≠ 0 := ofNat_length_ne_zero hChunk hFits
      rw [if_neg (by decide), if_neg (by simp [hNonzero]), if_neg (ne_of_eq_of_ne hPiece Bool.false_ne_true), hPassed]
      exact ⟨by rw [List.flatten_append, hPieces, hFlatten, List.flatten_cons], hEnd⟩

theorem length_le_wire {wireVersion : UInt8} {chunkType endType : WireType} (chunks : List (List UInt8)) :
    chunks.length ≤ (wire wireVersion (frames chunkType endType requestId chunks)).length := by
  induction chunks with
  | nil => exact Nat.zero_le _
  | cons chunk chunks ih =>
    rw [frames, List.map_cons, List.cons_append, wire_cons, List.length_append, Frame.bytes, List.length_append,
      encodeHeader_length]
    change _ ≤ _ + (wire wireVersion (frames chunkType endType requestId chunks)).length
    rw [List.length_cons, headerSize]
    omega

theorem toInt32_toUInt32 {status : Int32} (h : 0 ≤ status) :
    status.toUInt32.toInt32 = status ∧ ¬status.toUInt32 > int32Max := by
  refine ⟨rfl, fun hLarge => ?_⟩
  have hInt : 0 ≤ status.toBitVec.toInt := Int32.le_iff_toInt_le.mp h
  rw [BitVec.toInt_eq_toNat_cond] at hInt
  have hNat : (int32Max).toNat < status.toBitVec.toNat := UInt32.lt_iff_toNat_lt.mp hLarge
  have hMax : (int32Max).toNat = 2147483647 := rfl
  have hBound := status.toBitVec.isLt
  split at hInt <;> omega

theorem readStreamResponse_reads {status : Int32} (hStatus : 0 ≤ status) (hCut : Cut chunks)
    (hWithin : Within client.maxStreamSize chunks.flatten.length)
    (hAhead : reader.ahead = wire client.protocolVersion (answerFrames 0 status chunks) ++ rest) :
    (readStreamResponse client reader).pieces.flatten = chunks.flatten ∧
      (readStreamResponse client reader).result = .ok status := by
  have hFront : reader.ahead = encodeHeader .streamResponse 0 status.toUInt32 0 0 client.protocolVersion ++
      (wire client.protocolVersion (frames .streamResponseChunk .streamResponseEnd 0 chunks) ++ rest) := by
    rw [hAhead]
    simp [answerFrames, opening, wire, frames, headerFrame, Frame.bytes]
  obtain ⟨next, hRead, hNext⟩ := reader_front hFront
  rw [encodeHeader_length] at hRead
  obtain ⟨hBack, hRange⟩ := toInt32_toUInt32 hStatus
  have hFuel : chunks.length < next.ahead.length + 1 := by
    rw [hNext, List.length_append]
    exact Nat.lt_succ_of_le ((length_le_wire chunks).trans (Nat.le_add_right _ _))
  have hWhole : Within client.maxStreamSize (0 + chunks.flatten.length) := by rwa [Nat.zero_add]
  obtain ⟨hFlatten, last, hResult, -⟩ := passChunks_passes _ hFuel hCut hWhole hNext
  rw [readStreamResponse]
  simp only [hRead, decodeExpected,
    decode_stream client.known_version (show WireType.streamResponse ≠ .cancelRequest by simp)]
  rw [if_neg (by decide)]
  dsimp only
  rw [if_neg (by simp [hRange]), hResult, hBack]
  exact ⟨hFlatten, rfl⟩

theorem checked_status (response : StreamResponse) :
    response.checked.status = (if response.status < 0 then 500 else response.status) ∧
      0 ≤ response.checked.status := by
  rw [StreamResponse.checked]
  split
  · exact ⟨rfl, by decide⟩
  · rename_i hStatus
    exact ⟨rfl, Int32.not_lt.mp hStatus⟩

/-- What holds at every point of an exchange about `body`, when `tail` follows the stream. -/
structure RoundTrip (client : ClientOptions) (opts : Options) (source : Source) (body tail : List UInt8)
    (s : State) : Prop where
  delivered : (∀ reading ∈ s.reads, ∃ bytes, reading.result = .ok bytes) ∧ taken s <+: body
  next : ∀ capacity, 0 < capacity → ∃ bytes, (s.stream.read s.source capacity).1 = .ok bytes ∧
    bytes.length ≤ capacity ∧ (bytes = [] ↔ taken s = body)
  drains : ∀ response, s.phase = .draining response → ∃ rounds t,
    (machine opts 0 source).exec (fair opts) s (List.replicate rounds .drain) = some t ∧
      t.phase = .header response.checked ∧ t.source.ahead = tail
  answers : ∀ response chunks, s.phase = .header response → response.body = .handler →
    (∀ chunk ∈ chunks, chunk ≠ [] ∧ chunk.length ≤ opts.streamChunkSize) →
    Within opts.maxStreamSize chunks.flatten.length → ∃ t,
      (machine opts 0 source).exec (fair opts) s (.sent :: production chunks) = some t ∧
        t.phase = .finished ∧ t.produced = chunks
  silent : ∀ response, s.answer = some response → response.status < 0 →
    s.produced = [] ∧ ∀ bytes, step opts s (.produced bytes) = none
  received : ∀ reader rest, s.phase = .finished → Within client.maxStreamSize s.produced.flatten.length →
    BufferedReader.ahead reader = wire client.protocolVersion s.written ++ rest →
      (readStreamResponse client reader).pieces.flatten = s.produced.flatten ∧
      ∃ response, s.answer = some response ∧
        (readStreamResponse client reader).result = .ok (if response.status < 0 then 500 else response.status)

theorem stream_round_trip (client : ClientOptions) (opts : Options) (route tail : List UInt8)
    (results : List (List UInt8)) {source : Source} {s : State}
    (hRoute : route ≠ [] ∧ route.length ≤ client.maxMessageSize ∧ route.length ≤ maxWireField)
    (hCut : ∀ piece ∈ results, piece ≠ [] ∧ piece.length ≤ client.streamChunkSize)
    (hClient : Within client.maxStreamSize results.flatten.length)
    (hServer : Within opts.maxStreamSize results.flatten.length)
    (hSource : source.ahead =
      wire client.protocolVersion (sendOneshotStream client route results).1.tail ++ tail)
    (hReached : (machine opts 0 source).Reached (fun s action => fair opts s action = true) s) :
    (sendOneshotStream client route results).2 = .ok () ∧
      RoundTrip client opts source results.flatten tail s := by
  have hFrames : sendOneshotStream client route results =
      (⟨.streamRequest, 0, UInt32.ofNat route.length, 0, route⟩ ::
        frames .streamRequestChunk .streamRequestEnd 0 results, .ok ()) := by
    have hWhole : Within client.maxStreamSize (0 + results.flatten.length) := by rwa [Nat.zero_add]
    rw [sendOneshotStream, if_neg hRoute.1, if_neg (by omega), writeStreamRequest, writeChunks_frames hCut hWhole]
  rw [hFrames] at hSource ⊢
  have hVersion := client.known_version
  have hWire : Cut results := fun piece hPiece =>
    ⟨(hCut piece hPiece).1, (hCut piece hPiece).2.trans client.chunk_size.2⟩
  obtain ⟨hInv, hSilenced⟩ : Inv client.protocolVersion 0 results.flatten tail s ∧ Silenced s :=
    hReached.invariant (I := fun s => Inv client.protocolVersion 0 results.flatten tail s ∧ Silenced s)
      (fun s (hInit : s = _) => hInit ▸ ⟨.start results hWire hServer hSource, nofun⟩)
      (fun _ _ _ _ hInv hGuard hStep => ⟨hInv.1.next hVersion hGuard hStep, hInv.2.next hInv.1 hStep⟩)
  refine ⟨rfl, ⟨hInv.succeeded, ?_⟩, ?_, ?_, ?_, ?_, ?_⟩
  · obtain ⟨later, hBody, -⟩ := hInv.ahead
    exact ⟨later, hBody.symm⟩
  · exact fun capacity hCapacity => (hInv.toReads.read hVersion hCapacity).2
  · exact fun response hPhase => drain_finishes hVersion (results.flatten.length + 1) (by omega) hInv hPhase
  · intro response chunks hPhase hBody hChunks hWithin
    have hWritten := hInv.written
    rw [Written, hPhase] at hWritten
    obtain ⟨written, hWrite, hNext, hUnproduced⟩ : ∃ t, (machine opts 0 source).step s .sent = some t ∧
        t.phase = .body .handler 0 ∧ t.produced = [] := by
      simp only [machine, step, writeStep, hPhase, hBody, Option.some.injEq, exists_eq_left']
      exact ⟨trivial, hWritten.2.1⟩
    have hWhole : Within opts.maxStreamSize (0 + chunks.flatten.length) := by rwa [Nat.zero_add]
    obtain ⟨t, hExec, hFinished, hProduced⟩ := production_finishes chunks hNext hChunks hWhole
    refine ⟨t, (Machine.exec_cons _ rfl hWrite).trans hExec, hFinished, ?_⟩
    rw [hProduced, hUnproduced, List.nil_append]
  · intro response hAnswer hNegative
    obtain ⟨hUnproduced, hBody⟩ := hSilenced response hAnswer hNegative
    refine ⟨hUnproduced, fun bytes => ?_⟩
    rw [step]
    split
    · rename_i hPhase
      rw [hPhase] at hBody
      cases hBody
    · rfl
  · intro reader rest hPhase hWithin hAhead
    have hWritten := hInv.written
    rw [Written, hPhase] at hWritten
    obtain ⟨status, ⟨response, hAnswer, rfl⟩, hAnswered⟩ := hWritten
    rw [hAnswered] at hAhead
    obtain ⟨hStatus, hNonneg⟩ := checked_status response
    obtain ⟨hPieces, hResult⟩ := readStreamResponse_reads hNonneg hInv.cut hWithin hAhead
    exact ⟨hPieces, response, hAnswer, hStatus ▸ hResult⟩

def smallClient : ClientOptions where
  streamChunkSize := 2
  maxStreamSize := 8
  maxMessageSize := 64
  protocolVersion := version
  chunk_size := by decide
  known_version := .inl rfl

def smallServer : Options where
  streamChunkSize := 3
  maxStreamSize := 8
  maxMessageSize := 64
  includeHandlerErrorMessages := false
  chunk_size := by decide

def threeBytes : List UInt8 := wire version (frames .streamRequestChunk .streamRequestEnd 0 [[1, 2], [3]]) ++ [9]

/-- The reactor has read 30 bytes ahead, the handler takes one byte and answers with two pieces. -/
theorem stream_round_trip_split :
    ∃ s, (machine smallServer 0 ⟨threeBytes.take 30, 0, [.data (threeBytes.drop 30)]⟩).Reached
        (fun s action => fair smallServer s action = true) s ∧
      s.phase = .finished ∧ s.answer = some ⟨200, .handler⟩ ∧ s.produced = [[4, 5, 6], [7]] ∧
      RoundTrip smallClient smallServer ⟨threeBytes.take 30, 0, [.data (threeBytes.drop 30)]⟩ [1, 2, 3] [9] s := by
  obtain ⟨s, hReached, hFinished, hAnswer, hProduced⟩ := Machine.exists_reached_of_exec
    (fun s => s.phase = .finished ∧ s.answer = some ⟨200, .handler⟩ ∧ s.produced = [[4, 5, 6], [7]]) (fair smallServer)
    [.read 1, .respond 200 true, .drain, .drain, .drain, .sent, .produced [4, 5, 6], .sent, .produced [7], .sent,
      .produced [], .sent]
    (M := machine smallServer 0 ⟨threeBytes.take 30, 0, [.data (threeBytes.drop 30)]⟩)
    (s := start smallServer 0 _) rfl (by decide)
  exact ⟨s, hReached, hFinished, hAnswer, hProduced,
    (stream_round_trip smallClient smallServer [97] [9] [[1, 2], [3]] (by decide) (by decide) (by decide) (by decide)
      (by decide) hReached).2⟩

/-- A negative status of the handler reaches the client as 500. -/
theorem negative_status_replaced :
    ∃ s, (machine smallServer 0 ⟨threeBytes, 0, []⟩).Reached (fun s action => fair smallServer s action = true) s ∧
      s.phase = .finished ∧ s.answer = some ⟨-1, .handler⟩ ∧
      (readStreamResponse smallClient ⟨[], [.data (wire version s.written)]⟩).result = .ok 500 :=
  Machine.exists_reached_of_exec _ (fair smallServer)
    [.respond (-1) true, .drain, .drain, .drain, .sent, .proceed, .sent] (s := start smallServer 0 _) rfl (by decide)

end EasyUds.Transport.Streaming

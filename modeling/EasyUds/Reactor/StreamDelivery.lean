import EasyUds.Reactor.StreamExchange

/-! # Exchanges within the limits

When the frames ahead carry a whole request body, no send fails and the response keeps within the
limits, an exchange gives the handler the body piece by piece, drains the rest, and writes exactly the
frames of the response.
-/

namespace EasyUds.Reactor.StreamDelivery

open Lib Protocol.Codec Transport.Reader Reactor.Stream
  Reactor.StreamExchange

/-- Reads ask for something, no send and no response reader fails, and the pieces of the response keep
within the chunk size and `max_stream_size`. -/
def fair (opts : Options) (s : State) : Action → Bool
  | .read capacity => 0 < capacity
  | .sendFailed | .producerThrew => false
  | .produced bytes =>
    match s.phase with
    | .body _ total => bytes.length ≤ opts.streamChunkSize && !exceeds opts.maxStreamSize total bytes.length
    | _ => true
  | .proceed =>
    match s.phase with
    | .body (.message rest) total => !exceeds opts.maxStreamSize total (rest.take opts.streamChunkSize).length
    | _ => true
  | _ => true

def Reading.bytes (reading : Reading) : List UInt8 :=
  match reading.result with
  | .ok bytes => bytes
  | .error _ => []

def taken (s : State) : List UInt8 := (s.reads.map Reading.bytes).flatten

def opening (requestId : UInt32) (status : Int32) (chunks : List (List UInt8)) : List Frame :=
  headerFrame .streamResponse requestId status.toUInt32 :: chunks.map (chunkFrame .streamResponseChunk requestId)

def answerFrames (requestId : UInt32) (status : Int32) (chunks : List (List UInt8)) : List Frame :=
  opening requestId status chunks ++ [headerFrame .streamResponseEnd requestId 0]

def Sends (s : State) (status : Int32) : Prop := ∃ response, s.answer = some response ∧ status = response.checked.status

def Written (requestId : UInt32) (s : State) : Prop :=
  match s.phase with
  | .handling => s.written = [] ∧ s.produced = []
  | .draining response => s.written = [] ∧ s.produced = [] ∧ s.answer = some response
  | .header response => s.written = [] ∧ s.produced = [] ∧ Sends s response.status
  | .body _ total => total = s.produced.flatten.length ∧
      ∃ status, Sends s status ∧ s.written = opening requestId status s.produced
  | .chunk _ total bytes => total = s.produced.flatten.length ∧
      ∃ status earlier, Sends s status ∧ s.produced = earlier ++ [bytes] ∧
        s.written = opening requestId status earlier
  | .ending => ∃ status, Sends s status ∧ s.written = opening requestId status s.produced
  | .finished => ∃ status, Sends s status ∧ s.written = answerFrames requestId status s.produced

/-- The reader has given a first part of the body, and the rest of it is ahead. -/
structure Reads (wireVersion : UInt8) (requestId : UInt32) (body tail : List UInt8) (s : State) : Prop where
  kinds : Kinds s.stream
  id : s.stream.requestId = requestId
  succeeded : ∀ reading ∈ s.reads, ∃ bytes, reading.result = .ok bytes
  ahead : ∃ later, body = taken s ++ later ∧ Carries wireVersion s.stream s.source.ahead later tail

structure Inv (wireVersion : UInt8) (requestId : UInt32) (body tail : List UInt8) (s : State) : Prop
    extends Reads wireVersion requestId body tail s where
  drained : Answering s.phase ∨ s.phase = .finished → s.stream.ended = true
  written : Written requestId s
  cut : Cut s.produced
  healthy : s.closing = false

variable {opts : Options} {wireVersion : UInt8} {requestId : UInt32} {body tail : List UInt8} {source : Source}
  {s t : State} {action : Action} {capacity : Nat}

theorem Inv.start (chunks : List (List UInt8)) (hCut : Cut chunks)
    (hWithin : Within opts.maxStreamSize chunks.flatten.length)
    (hSource : source.ahead =
      wire wireVersion (frames .streamRequestChunk .streamRequestEnd requestId chunks) ++ tail) :
    Inv wireVersion requestId chunks.flatten tail (StreamExchange.start opts requestId source) where
  kinds := ⟨nofun, nofun, nofun⟩
  id := rfl
  succeeded := fun _ h => absurd h List.not_mem_nil
  ahead := by
    refine ⟨chunks.flatten, rfl, ?_⟩
    have hCarries := @Carries.frames wireVersion (StreamExchange.start opts requestId source).stream [] tail chunks
      rfl rfl hCut ((Nat.zero_add _).symm ▸ hWithin)
    rw [List.nil_append, List.nil_append] at hCarries
    rw [show (StreamExchange.start opts requestId source).source.ahead = _ from hSource]
    exact hCarries
  drained := by rintro (h | h) <;> cases h
  written := ⟨rfl, rfl⟩
  cut := fun _ h => absurd h List.not_mem_nil
  healthy := rfl

theorem taken_read (s : State) (capacity : Nat) :
    taken (s.read capacity) =
      taken s ++ Reading.bytes ⟨headerAhead s.stream s.source, (s.stream.read s.source capacity).1⟩ := by
  simp [taken, State.read]

theorem Reads.read (hVersion : KnownVersion wireVersion) (hCapacity : 0 < capacity)
    (h : Reads wireVersion requestId body tail s) :
    Reads wireVersion requestId body tail (s.read capacity) ∧
      ∃ bytes, (s.stream.read s.source capacity).1 = .ok bytes ∧ bytes.length ≤ capacity ∧
        (bytes = [] ↔ taken s = body) := by
  obtain ⟨later, hBody, hCarries⟩ := h.ahead
  obtain ⟨bytes, rest, hTook⟩ := read_took hVersion h.kinds hCapacity hCarries
  have hTaken : taken (s.read capacity) = taken s ++ bytes := by
    rw [taken_read, hTook.result]
    rfl
  refine ⟨⟨hTook.kinds, (read_requestId _ _ _).trans h.id, ?_, rest, ?_, hTook.carries⟩, bytes, hTook.result,
    hTook.fits, fun hNothing => ?_, fun hWhole => ?_⟩
  · intro reading hReading
    rcases List.mem_append.mp hReading with hEarlier | hLast
    · exact h.succeeded reading hEarlier
    · obtain rfl := List.mem_singleton.mp hLast
      exact ⟨bytes, hTook.result⟩
  · rw [hBody, hTook.pieces, hTaken, List.append_assoc]
  · rw [hBody, (hTook.exhausted hNothing).1, List.append_nil]
  · have hNone : later = [] := by
      rw [hWhole] at hBody
      exact List.append_cancel_left (hBody.symm.trans (List.append_nil _).symm)
    exact (List.append_eq_nil_iff.mp (hTook.pieces.symm.trans hNone)).1

theorem Reads.congr (h : Reads wireVersion requestId body tail s) (hReads : t.reads = s.reads)
    (hStream : t.stream = s.stream) (hSource : t.source = s.source) : Reads wireVersion requestId body tail t := by
  obtain ⟨hKinds, hId, hSucceeded, hAhead⟩ := h
  refine ⟨hStream ▸ hKinds, hStream ▸ hId, hReads ▸ hSucceeded, ?_⟩
  rw [taken, hReads, hStream, hSource]
  exact hAhead

theorem Inv.read (hVersion : KnownVersion wireVersion) (hCapacity : 0 < capacity)
    (hInv : Inv wireVersion requestId body tail s) : Inv wireVersion requestId body tail (s.read capacity) where
  toReads := (hInv.toReads.read hVersion hCapacity).1
  drained := fun hLate => by
    have hEnded := hInv.drained hLate
    rw [State.read, read_ended hEnded]
    exact hEnded
  written := hInv.written
  cut := hInv.cut
  healthy := hInv.healthy

theorem Inv.drain {response : StreamResponse} (hVersion : KnownVersion wireVersion)
    (hInv : Inv wireVersion requestId body tail s) (hPhase : s.phase = .draining response) :
    Inv wireVersion requestId body tail (drainStep opts s response) := by
  obtain ⟨hReads, bytes, hResult, -, -⟩ := hInv.toReads.read hVersion opts.chunk_size.1
  have hWritten : s.written = [] ∧ s.produced = [] ∧ s.answer = some response := by
    have h := hInv.written
    rwa [Written, hPhase] at h
  rw [drainStep, hResult]
  dsimp only
  split
  · rename_i hNothing
    have hEnded := read_nothing_ended opts.chunk_size.1 (hNothing ▸ hResult)
    exact ⟨hReads.congr rfl rfl rfl, fun _ => hEnded, ⟨hWritten.1, hWritten.2.1, response, hWritten.2.2, rfl⟩,
      hInv.cut, hInv.healthy⟩
  · exact hInv.read hVersion opts.chunk_size.1

theorem Inv.produce {old new : Body} {total : Nat} {bytes : List UInt8}
    (hInv : Inv wireVersion requestId body tail s) (hPhase : s.phase = .body old total)
    (hFits : bytes.length ≤ opts.streamChunkSize) (hWithin : exceeds opts.maxStreamSize total bytes.length = false) :
    Inv wireVersion requestId body tail (produceStep opts s new total bytes) := by
  have hEnded : s.stream.ended = true := hInv.drained (.inl (hPhase ▸ trivial))
  have hWritten : total = s.produced.flatten.length ∧
      ∃ status, Sends s status ∧ s.written = opening requestId status s.produced := by
    have h := hInv.written
    rwa [Written, hPhase] at h
  obtain ⟨hTotal, status, hSends, hFrames⟩ := hWritten
  rw [produceStep]
  split
  · exact ⟨hInv.toReads.congr rfl rfl rfl, fun _ => hEnded, ⟨status, hSends, hFrames⟩, hInv.cut, hInv.healthy⟩
  · rename_i hBytes
    rw [if_neg (not_or.mpr ⟨Nat.not_lt.mpr hFits, ne_of_eq_of_ne hWithin Bool.false_ne_true⟩)]
    refine ⟨hInv.toReads.congr rfl rfl rfl, fun _ => hEnded, ⟨?_, status, s.produced, hSends, rfl, hFrames⟩, ?_,
      hInv.healthy⟩
    · rw [hTotal]
      simp
    · intro chunk hChunk
      rcases List.mem_append.mp hChunk with hEarlier | hLast
      · exact hInv.cut chunk hEarlier
      · obtain rfl := List.mem_singleton.mp hLast
        exact ⟨hBytes, hFits.trans opts.chunk_size.2⟩

theorem drainStep_cases (opts : Options) (s : State) (response : StreamResponse) :
    drainStep opts s response = (s.read opts.streamChunkSize).fail ∨
      drainStep opts s response = { s.read opts.streamChunkSize with phase := .header response.checked } ∨
      drainStep opts s response = s.read opts.streamChunkSize := by
  unfold drainStep
  split
  · exact .inl rfl
  · split
    · exact .inr (.inl rfl)
    · exact .inr (.inr rfl)

theorem produceStep_answer (opts : Options) (s : State) (response : Body) (total : Nat) (bytes : List UInt8) :
    (produceStep opts s response total bytes).answer = s.answer := by
  unfold produceStep
  split
  · rfl
  · split <;> rfl

theorem opening_append (status : Int32) (chunks : List (List UInt8)) (bytes : List UInt8) :
    opening requestId status chunks ++ [chunkFrame .streamResponseChunk requestId bytes] =
      opening requestId status (chunks ++ [bytes]) := by
  simp [opening]

theorem Inv.send (hInv : Inv wireVersion requestId body tail s) (hWrite : writeStep s = some t) :
    Inv wireVersion requestId body tail t := by
  have hWritten := hInv.written
  obtain ⟨hAnswering, -, hStream, -⟩ := writeStep_reader hWrite
  have hEnded := hInv.drained (.inl hAnswering)
  rw [Written] at hWritten
  rw [writeStep, hInv.id] at hWrite
  split at hWrite
  · rename_i response hPhase
    cases hWrite
    rw [hPhase] at hWritten
    obtain ⟨hNone, hUnproduced, hSends⟩ := hWritten
    refine ⟨hInv.toReads.congr rfl rfl rfl, fun _ => hEnded, ⟨?_, response.status, hSends, ?_⟩, hInv.cut, hInv.healthy⟩
    · rw [hUnproduced]
      rfl
    · rw [hNone, hUnproduced]
      rfl
  · rename_i response total bytes hPhase
    cases hWrite
    rw [hPhase] at hWritten
    obtain ⟨hTotal, status, earlier, hSends, hProduced, hFrames⟩ := hWritten
    refine ⟨hInv.toReads.congr rfl rfl rfl, fun _ => hEnded, ⟨hTotal, status, hSends, ?_⟩, hInv.cut, hInv.healthy⟩
    rw [hFrames, opening_append, hProduced]
  · rename_i hPhase
    cases hWrite
    rw [hPhase] at hWritten
    obtain ⟨status, hSends, hFrames⟩ := hWritten
    refine ⟨hInv.toReads.congr rfl rfl rfl, fun _ => hEnded, ⟨status, hSends, ?_⟩, hInv.cut, hInv.healthy⟩
    rw [hFrames]
    rfl
  · cases hWrite

theorem Inv.next (hVersion : KnownVersion wireVersion) (hInv : Inv wireVersion requestId body tail s)
    (hGuard : fair opts s action = true) (hStep : step opts s action = some t) :
    Inv wireVersion requestId body tail t := by
  cases step_cases hStep with
  | read capacity _ => exact hInv.read hVersion (of_decide_eq_true hGuard)
  | answered _ response hPhase =>
    have hWritten := hInv.written
    rw [Written, hPhase] at hWritten
    refine ⟨hInv.toReads.congr rfl rfl rfl, ?_, ⟨hWritten.1, hWritten.2, rfl⟩, hInv.cut, hInv.healthy⟩
    rintro (h | h) <;> cases h
  | drain response hPhase => exact hInv.drain hVersion hPhase
  | sent hWrite => exact hInv.send hWrite
  | failed _ hCause =>
    rcases hCause with ⟨rfl, -⟩ | ⟨rfl, -⟩ <;> cases hGuard
  | closed total hPhase =>
    have hWritten := hInv.written
    rw [Written, hPhase] at hWritten
    exact ⟨hInv.toReads.congr rfl rfl rfl, fun _ => hInv.drained (.inl (hPhase ▸ trivial)), hWritten.2, hInv.cut,
      hInv.healthy⟩
  | copied rest total hPhase =>
    rw [fair, hPhase] at hGuard
    exact hInv.produce hPhase (List.length_take_le _ _) (Bool.not_eq_true' _ ▸ hGuard)
  | produced bytes total hPhase =>
    rw [fair, hPhase] at hGuard
    obtain ⟨hFits, hWithin⟩ := Bool.and_eq_true _ _ ▸ hGuard
    exact hInv.produce hPhase (of_decide_eq_true hFits) (Bool.not_eq_true' _ ▸ hWithin)

/-- A response with a negative status has no body any more when it is written, and its reader is not called. -/
def Silenced (s : State) : Prop :=
  ∀ response, s.answer = some response → response.status < 0 → s.produced = [] ∧
    match s.phase with
    | .header checked => checked.body = .absent
    | .body body _ => body = .absent
    | .chunk _ _ _ => False
    | _ => True

theorem Silenced.next (hs : Silenced s) (hInv : Inv wireVersion requestId body tail s)
    (hStep : step opts s action = some t) : Silenced t := by
  intro response hAnswer hNegative
  have hWritten := hInv.written
  rw [Written] at hWritten
  cases step_cases hStep with
  | read capacity _ => exact hs response hAnswer hNegative
  | answered _ answer hPhase =>
    rw [hPhase] at hWritten
    exact ⟨hWritten.2, trivial⟩
  | drain answer hPhase =>
    rw [hPhase] at hWritten
    obtain ⟨-, hUnproduced, hSome⟩ := hWritten
    obtain hDrain | hDrain | hDrain := drainStep_cases opts s answer <;> rw [hDrain] at hAnswer ⊢
    · exact ⟨hUnproduced, trivial⟩
    · cases hSome.symm.trans hAnswer
      refine ⟨hUnproduced, ?_⟩
      dsimp only
      rw [StreamResponse.checked, if_pos hNegative]
    · refine ⟨hUnproduced, ?_⟩
      dsimp only [State.read]
      rw [hPhase]
      trivial
  | sent hWrite =>
    unfold writeStep at hWrite
    split at hWrite
    · rename_i checked hPhase
      cases hWrite
      have hOld := hs response hAnswer hNegative
      rwa [hPhase] at hOld
    · rename_i rest total bytes hPhase
      cases hWrite
      have hOld := hs response hAnswer hNegative
      rw [hPhase] at hOld
      exact hOld.2.elim
    · cases hWrite
      exact ⟨(hs response hAnswer hNegative).1, trivial⟩
    · cases hWrite
  | failed | closed => exact ⟨(hs response hAnswer hNegative).1, trivial⟩
  | copied rest total hPhase | produced bytes total hPhase =>
    have hOld := (hs response ((produceStep_answer ..).symm.trans hAnswer) hNegative).2
    rw [hPhase] at hOld
    cases hOld

theorem Carries.of_ended {stream : IncomingStream} {ahead pending : List UInt8} (hEnded : stream.ended = true)
    (h : Carries wireVersion stream ahead pending tail) : pending = [] ∧ ahead = tail := by
  cases h with
  | ended _ _ => exact ⟨rfl, rfl⟩
  | frames _ _ _ hOpen => exact absurd (hOpen.symm.trans hEnded) Bool.false_ne_true

theorem Reads.taken_le (h : Reads wireVersion requestId body tail s) : (taken s).length ≤ body.length := by
  obtain ⟨later, hBody, -⟩ := h.ahead
  rw [hBody, List.length_append]
  exact Nat.le_add_right _ _

theorem drain_round (opts : Options) {response : StreamResponse} (hVersion : KnownVersion wireVersion)
    (hInv : Inv wireVersion requestId body tail s) (hPhase : s.phase = .draining response) :
    (drainStep opts s response).phase = .header response.checked ∧ (drainStep opts s response).source.ahead = tail ∨
      (drainStep opts s response).phase = .draining response ∧
        (taken s).length < (taken (drainStep opts s response)).length := by
  have hNext : Inv wireVersion requestId body tail (drainStep opts s response) := hInv.drain hVersion hPhase
  obtain ⟨-, bytes, hResult, -, -⟩ := hInv.toReads.read hVersion opts.chunk_size.1
  rw [drainStep, hResult] at hNext ⊢
  dsimp only at hNext ⊢
  split
  · rename_i hNothing
    rw [if_pos hNothing] at hNext
    obtain ⟨later, -, hCarries⟩ := hNext.ahead
    exact .inl ⟨rfl, (Carries.of_ended (hNext.drained (.inl trivial)) hCarries).2⟩
  · rename_i hSome
    refine .inr ⟨hPhase, ?_⟩
    rw [taken_read, hResult, List.length_append]
    exact Nat.lt_add_of_pos_right (List.length_pos_iff.mpr hSome)

theorem drain_finishes {response : StreamResponse} (hVersion : KnownVersion wireVersion) (left : Nat)
    (hLeft : body.length < (taken s).length + left) (hInv : Inv wireVersion requestId body tail s)
    (hPhase : s.phase = .draining response) :
    ∃ rounds t, (machine opts requestId source).exec (fair opts) s (List.replicate rounds .drain) = some t ∧
      t.phase = .header response.checked ∧ t.source.ahead = tail := by
  induction left generalizing s with
  | zero =>
    have hTaken := hInv.toReads.taken_le
    omega
  | succ left ih =>
    have hStep : (machine opts requestId source).step s .drain = some (drainStep opts s response) := by
      simp only [machine, step, hPhase]
    rcases drain_round opts hVersion hInv hPhase with ⟨hHeader, hTail⟩ | ⟨hDraining, hMore⟩
    · refine ⟨1, _, ?_, hHeader, hTail⟩
      rw [List.replicate_one, Machine.exec_cons _ rfl hStep]
      rfl
    · obtain ⟨rounds, t, hExec, hHeader⟩ := ih (by omega) (hInv.drain hVersion hPhase) hDraining
      refine ⟨rounds + 1, t, ?_, hHeader⟩
      rw [List.replicate_succ, Machine.exec_cons _ rfl hStep]
      exact hExec

def production (chunks : List (List UInt8)) : List Action :=
  chunks.flatMap (fun chunk => [Action.produced chunk, .sent]) ++ [Action.produced [], .sent]

theorem production_finishes {total : Nat} (chunks : List (List UInt8)) (hPhase : s.phase = .body .handler total)
    (hCut : ∀ chunk ∈ chunks, chunk ≠ [] ∧ chunk.length ≤ opts.streamChunkSize)
    (hWithin : Within opts.maxStreamSize (total + chunks.flatten.length)) :
    ∃ t, (machine opts requestId source).exec (fair opts) s (production chunks) = some t ∧
      t.phase = .finished ∧ t.produced = s.produced ++ chunks := by
  induction chunks generalizing s total with
  | nil =>
    have hPiece : exceeds opts.maxStreamSize total 0 = false := not_exceeds hWithin
    have hFair : fair opts s (.produced []) = true := by
      rw [fair, hPhase]
      simp [hPiece]
    have hStep : (machine opts requestId source).step s (.produced []) = some { s with phase := .ending } := by
      simp only [machine, step, hPhase, produceStep, if_true]
    refine ⟨_, Machine.exec_cons _ hFair hStep, rfl, (List.append_nil _).symm⟩
  | cons chunk chunks ih =>
    obtain ⟨hChunk, hFits⟩ := hCut chunk List.mem_cons_self
    rw [List.flatten_cons, List.length_append, ← Nat.add_assoc] at hWithin
    have hPiece := not_exceeds (hWithin.mono (Nat.le_add_right _ _))
    have hFair : fair opts s (.produced chunk) = true := by
      rw [fair, hPhase]
      simp [hPiece, hFits]
    have hStep : (machine opts requestId source).step s (.produced chunk) =
        some { s with
          phase := .chunk .handler (total + chunk.length) chunk
          produced := s.produced ++ [chunk] } := by
      simp only [machine, step, hPhase, produceStep, if_neg hChunk]
      rw [if_neg (not_or.mpr ⟨Nat.not_lt.mpr hFits, ne_of_eq_of_ne hPiece Bool.false_ne_true⟩)]
    obtain ⟨t, hExec, hFinished, hProduced⟩ :=
      @ih { s with
        written := s.written ++ [chunkFrame .streamResponseChunk s.stream.requestId chunk]
        phase := .body .handler (total + chunk.length)
        produced := s.produced ++ [chunk] } _ rfl
        (fun later hLater => hCut later (List.mem_cons_of_mem _ hLater)) hWithin
    refine ⟨t, ?_, hFinished, by rw [hProduced, List.append_assoc]; rfl⟩
    exact (Machine.exec_cons _ hFair hStep).trans ((Machine.exec_cons _ rfl rfl).trans hExec)

end EasyUds.Reactor.StreamDelivery

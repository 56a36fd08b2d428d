import EasyUds.Lib.Machine
import EasyUds.Reactor.Parser
import EasyUds.Reactor.Stream

/-! # The stream exchange of a worker

`run_stream_exchange` gives the stream handler a reader of the request body, drains what the handler
left, and then writes the response. An exception of the handler becomes a response; any other
exception marks the connection as closing, and so `rearm_connection` closes it. What the handler and
its response reader do, and whether a send succeeds, is left to the actions of a run.
-/

namespace EasyUds.Reactor.StreamExchange

open Lib Protocol.Codec Transport.Reader Reactor.Stream

structure Options where
  streamChunkSize : Nat
  maxStreamSize : Nat
  maxMessageSize : Nat
  includeHandlerErrorMessages : Bool
  chunk_size : 1 ≤ streamChunkSize ∧ streamChunkSize ≤ maxWireField

/-- A response has no body, the handler's reader, or the rest of a message for
`bounded_error_body_reader`. -/
inductive Body
  | absent
  | handler
  | message (rest : List UInt8)
  deriving DecidableEq, Repr

structure StreamResponse where
  status : Int32
  body : Body
  deriving DecidableEq

/-- The response to an exception of the handler; one that is no `std::exception` has no message. -/
def errorResponse (opts : Options) : Option (List UInt8) → StreamResponse
  | none => ⟨500, .absent⟩
  | some message =>
    if opts.includeHandlerErrorMessages then
      ⟨500, .message (if message.length ≤ opts.maxMessageSize then message else [])⟩
    else ⟨500, .absent⟩

def StreamResponse.checked (response : StreamResponse) : StreamResponse :=
  if response.status < 0 then ⟨500, .absent⟩ else response

inductive Phase
  | handling
  | draining (response : StreamResponse)
  | header (response : StreamResponse)
  | body (response : Body) (total : Nat)
  | chunk (response : Body) (total : Nat) (bytes : List UInt8)
  | ending
  | finished
  deriving DecidableEq

structure Reading where
  header : Option HeaderBytes
  result : Except Exception (List UInt8)
  deriving DecidableEq

def Reading.failed (reading : Reading) : Bool :=
  match reading.result with
  | .ok _ => false
  | .error _ => true

/-- `reads`, `answer`, `written` and `produced` are histories. -/
structure State where
  source : Source
  stream : IncomingStream
  phase : Phase
  closing : Bool
  reads : List Reading
  answer : Option StreamResponse
  written : List Frame
  produced : List (List UInt8)
  deriving DecidableEq

inductive Action
  | read (capacity : Nat)
  | missing
  | respond (status : Int32) (hasBody : Bool)
  | threw (message : Option (List UInt8))
  | drain
  | sent
  | sendFailed
  | proceed
  | produced (bytes : List UInt8)
  | producerThrew
  deriving DecidableEq

def headerAhead (stream : IncomingStream) (source : Source) : Option HeaderBytes :=
  if stream.ended ∨ stream.frameRemaining ≠ 0 then none
  else
    match (source.read headerSize).1 with
    | .ok header => some header
    | .error _ => none

def State.read (s : State) (capacity : Nat) : State :=
  let outcome := s.stream.read s.source capacity
  { s with
    stream := outcome.2.1
    source := outcome.2.2
    reads := s.reads ++ [⟨headerAhead s.stream s.source, outcome.1⟩] }

def State.fail (s : State) : State := { s with closing := true, phase := .finished }

def drainStep (opts : Options) (s : State) (response : StreamResponse) : State :=
  match (s.stream.read s.source opts.streamChunkSize).1 with
  | .error _ => (s.read opts.streamChunkSize).fail
  | .ok bytes =>
    if bytes = [] then { s.read opts.streamChunkSize with phase := .header response.checked }
    else s.read opts.streamChunkSize

def produceStep (opts : Options) (s : State) (response : Body) (total : Nat) (bytes : List UInt8) : State :=
  if bytes = [] then { s with phase := .ending }
  else if bytes.length > opts.streamChunkSize ∨ exceeds opts.maxStreamSize total bytes.length then s.fail
  else { s with
    phase := .chunk response (total + bytes.length) bytes
    produced := s.produced ++ [bytes] }

def writeStep (s : State) : Option State :=
  match s.phase with
  | .header response => some { s with
      written := s.written ++ [headerFrame .streamResponse s.stream.requestId response.status.toUInt32]
      phase := .body response.body 0 }
  | .chunk response total bytes => some { s with
      written := s.written ++ [chunkFrame .streamResponseChunk s.stream.requestId bytes]
      phase := .body response total }
  | .ending => some { s with
      written := s.written ++ [headerFrame .streamResponseEnd s.stream.requestId 0]
      phase := .finished }
  | _ => none

def State.respond (s : State) (response : StreamResponse) : State :=
  { s with phase := .draining response, answer := some response }

def step (opts : Options) (s : State) : Action → Option State
  | .read capacity =>
    match s.phase with
    | .handling => some (s.read capacity)
    -- The response may still hold the reader of the request body.
    | .body .handler _ => some (s.read capacity)
    | _ => none
  | .missing => if s.phase = .handling ∧ s.reads = [] then some (s.respond ⟨404, .absent⟩) else none
  | .respond status hasBody =>
    if s.phase = .handling then some (s.respond ⟨status, if hasBody then .handler else .absent⟩) else none
  | .threw message =>
    if s.phase = .handling then some (s.respond (errorResponse opts message)) else none
  | .drain =>
    match s.phase with
    | .draining response => some (drainStep opts s response)
    | _ => none
  | .sent => writeStep s
  | .sendFailed => (writeStep s).map fun _ => s.fail
  | .proceed =>
    match s.phase with
    | .body .absent _ => some { s with phase := .ending }
    | .body (.message rest) total =>
      some (produceStep opts s (.message (rest.drop opts.streamChunkSize)) total (rest.take opts.streamChunkSize))
    | _ => none
  | .produced bytes =>
    match s.phase with
    | .body .handler total => some (produceStep opts s .handler total bytes)
    | _ => none
  | .producerThrew =>
    match s.phase with
    | .body .handler _ => some s.fail
    | _ => none

def start (opts : Options) (requestId : UInt32) (source : Source) : State where
  source := source
  stream :=
    { chunkType := .streamRequestChunk
      endType := .streamRequestEnd
      maxSize := opts.maxStreamSize
      requestId := requestId
      totalSize := 0
      frameRemaining := 0
      ended := false }
  phase := .handling
  closing := false
  reads := []
  answer := none
  written := []
  produced := []

def machine (opts : Options) (requestId : UInt32) (source : Source) : Machine State Action where
  initial s := s = start opts requestId source
  step := step opts

variable {opts : Options} {requestId : UInt32} {source : Source} {s t : State} {action : Action}

section

variable (opts : Options) (s : State)

inductive Step : Action → State → Prop
  | read (capacity : Nat) : (s.phase = .handling ∨ ∃ total, s.phase = .body .handler total) →
      Step (.read capacity) (s.read capacity)
  | answered (action : Action) (response : StreamResponse) : s.phase = .handling → Step action (s.respond response)
  | drain (response : StreamResponse) : s.phase = .draining response → Step .drain (drainStep opts s response)
  | sent {t : State} : writeStep s = some t → Step .sent t
  | failed (action : Action) : (action = .sendFailed ∧ (writeStep s).isSome ∨
      action = .producerThrew ∧ ∃ total, s.phase = .body .handler total) → Step action s.fail
  | closed (total : Nat) : s.phase = .body .absent total → Step .proceed { s with phase := .ending }
  | copied (rest : List UInt8) (total : Nat) : s.phase = .body (.message rest) total → Step .proceed
        (produceStep opts s (.message (rest.drop opts.streamChunkSize)) total (rest.take opts.streamChunkSize))
  | produced (bytes : List UInt8) (total : Nat) : s.phase = .body .handler total →
      Step (.produced bytes) (produceStep opts s .handler total bytes)

end

theorem step_cases (h : step opts s action = some t) : Step opts s action t := by
  cases action with
  | read capacity =>
    simp only [step] at h
    split at h
    · rename_i hPhase
      cases h
      exact .read capacity (.inl hPhase)
    · rename_i total hPhase
      cases h
      exact .read capacity (.inr ⟨total, hPhase⟩)
    · cases h
  | missing =>
    simp only [step] at h
    split at h
    · rename_i hPhase
      cases h
      exact .answered _ _ hPhase.1
    · cases h
  | respond status hasBody | threw message =>
    simp only [step] at h
    split at h
    · rename_i hPhase
      cases h
      exact .answered _ _ hPhase
    · cases h
  | drain =>
    simp only [step] at h
    split at h
    · rename_i response hPhase
      cases h
      exact .drain response hPhase
    · cases h
  | sent => exact .sent h
  | sendFailed =>
    obtain ⟨written, hWrite, rfl⟩ := Option.map_eq_some_iff.mp h
    exact .failed _ (.inl ⟨rfl, by rw [hWrite]; rfl⟩)
  | proceed =>
    simp only [step] at h
    split at h
    · rename_i total hPhase
      cases h
      exact .closed total hPhase
    · rename_i rest total hPhase
      cases h
      exact .copied rest total hPhase
    · cases h
  | produced bytes =>
    simp only [step] at h
    split at h
    · rename_i total hPhase
      cases h
      exact .produced bytes total hPhase
    · cases h
  | producerThrew =>
    simp only [step] at h
    split at h
    · rename_i total hPhase
      cases h
      exact .failed _ (.inr ⟨rfl, total, hPhase⟩)
    · cases h

def State.failed (s : State) : Bool := s.reads.any Reading.failed

/-- A read after a failed one does not get what it asks for. -/
def starves (opts : Options) (s : State) (action : Action) : Bool :=
  match action with
  | .read capacity => !s.failed || s.source.ahead.length < need s.stream capacity
  | .drain => !s.failed || s.source.ahead.length < need s.stream opts.streamChunkSize
  | _ => true

def Stopped (reads : List Reading) : Prop :=
  reads.Pairwise fun earlier later => earlier.failed = true → later.failed = true ∧ later.header = none

structure Broken (s : State) : Prop where
  opened : s.stream.ended = false
  unwritten : s.written = []
  phase : s.phase = .handling ∨ (∃ response, s.phase = .draining response) ∨ s.phase = .finished ∧ s.closing = true

def Answering : Phase → Prop
  | .handling | .draining _ | .finished => False
  | _ => True

structure Inv (s : State) : Prop where
  stopped : Stopped s.reads
  broken : s.failed = true → Broken s
  unwritten : s.phase = .handling ∨ (∃ response, s.phase = .draining response) → s.written = []
  drained : Answering s.phase → s.stream.ended = true

theorem Inv.start : Inv (start opts requestId source) :=
  ⟨.nil, fun h => (Bool.false_ne_true h).elim, fun _ => rfl, False.elim⟩

theorem headerAhead_short {capacity : Nat} (hShort : s.source.ahead.length < need s.stream capacity) :
    headerAhead s.stream s.source = none := by
  rw [headerAhead]
  split
  · rfl
  · rename_i hBetween
    have hRemaining : s.stream.frameRemaining = 0 := by
      by_contra hInside
      exact hBetween (.inr hInside)
    rw [need, if_pos hRemaining] at hShort
    obtain ⟨reason, hReason⟩ := (s.source.read_exact headerSize).short hShort
    rw [hReason]

theorem read_failed {capacity : Nat} :
    (s.read capacity).failed =
      (s.failed || Reading.failed ⟨headerAhead s.stream s.source, (s.stream.read s.source capacity).1⟩) := by
  simp [State.failed, State.read]

theorem Inv.read {capacity : Nat} (hInv : Inv s)
    (hGuard : s.failed = true → s.source.ahead.length < need s.stream capacity) :
    Stopped (s.read capacity).reads ∧ ((s.read capacity).failed = true → (s.read capacity).stream.ended = false) := by
  by_cases hFailed : s.failed = true
  · have hShort := hGuard hFailed
    obtain ⟨reason, hReason⟩ := read_short (hInv.broken hFailed).opened hShort
    refine ⟨List.pairwise_append.mpr ⟨hInv.stopped, List.pairwise_singleton _ _, ?_⟩, fun _ => read_failed_open hReason⟩
    intro earlier _ later hLater _
    obtain rfl := List.mem_singleton.mp hLater
    exact ⟨by rw [Reading.failed, hReason], headerAhead_short hShort⟩
  · refine ⟨List.pairwise_append.mpr ⟨hInv.stopped, List.pairwise_singleton _ _, ?_⟩, fun h => ?_⟩
    · intro earlier hEarlier _ _ hEarlierFailed
      exact absurd (List.any_eq_true.mpr ⟨earlier, hEarlier, hEarlierFailed⟩) hFailed
    · rw [read_failed, Bool.eq_false_of_not_eq_true hFailed, Bool.false_or, Reading.failed] at h
      split at h
      · cases h
      · rename_i reason hReason
        exact read_failed_open hReason

theorem Inv.drain {response : StreamResponse} (hInv : Inv s) (hPhase : s.phase = .draining response)
    (hGuard : s.failed = true → s.source.ahead.length < need s.stream opts.streamChunkSize) :
    Inv (drainStep opts s response) := by
  obtain ⟨hStopped, hOpen⟩ := hInv.read hGuard
  have hUnwritten := hInv.unwritten (.inr ⟨response, hPhase⟩)
  rw [drainStep]
  split
  · rename_i reason hReason
    exact ⟨hStopped, fun _ => ⟨read_failed_open hReason, hUnwritten, .inr (.inr ⟨rfl, rfl⟩)⟩, fun _ => hUnwritten,
      False.elim⟩
  · rename_i bytes hBytes
    split
    · rename_i hNothing
      have hEnded := read_nothing_ended opts.chunk_size.1 (hNothing ▸ hBytes)
      refine ⟨hStopped, fun hFailed => ?_, fun _ => hUnwritten, fun _ => hEnded⟩
      exact absurd ((hOpen hFailed).symm.trans hEnded) Bool.false_ne_true
    · refine ⟨hStopped, fun hFailed => ⟨hOpen hFailed, hUnwritten, .inr (.inl ⟨response, hPhase⟩)⟩,
        fun _ => hUnwritten, ?_⟩
      intro hAnswering
      change Answering s.phase at hAnswering
      rw [hPhase] at hAnswering
      exact hAnswering.elim

theorem Inv.not_failed (hInv : Inv s) (hAnswering : Answering s.phase) : s.failed = false := by
  by_contra hFailed
  have hBroken := hInv.broken (Bool.not_eq_false _ ▸ hFailed)
  exact absurd (hBroken.opened.symm.trans (hInv.drained hAnswering)) Bool.false_ne_true

theorem Inv.answer (hInv : Inv s) (hAnswering : Answering s.phase) (hReads : t.reads = s.reads)
    (hStream : t.stream = s.stream) (hPhase : Answering t.phase ∨ t.phase = .finished) : Inv t := by
  have hFailed : t.failed = false := by
    rw [State.failed, hReads]
    exact hInv.not_failed hAnswering
  refine ⟨hReads ▸ hInv.stopped, fun h => absurd (hFailed.symm.trans h) Bool.false_ne_true, ?_,
    fun _ => hStream ▸ hInv.drained hAnswering⟩
  rintro (hHandling | ⟨response, hDraining⟩)
  · rw [hHandling] at hPhase
    rcases hPhase with h | h
    · exact h.elim
    · cases h
  · rw [hDraining] at hPhase
    rcases hPhase with h | h
    · exact h.elim
    · cases h

theorem produceStep_reader (response : Body) (total : Nat) (bytes : List UInt8) :
    (produceStep opts s response total bytes).reads = s.reads ∧
      (produceStep opts s response total bytes).stream = s.stream ∧
      (Answering (produceStep opts s response total bytes).phase ∨
        (produceStep opts s response total bytes).phase = .finished) := by
  rw [produceStep]
  split
  · exact ⟨rfl, rfl, .inl trivial⟩
  · split
    · exact ⟨rfl, rfl, .inr rfl⟩
    · exact ⟨rfl, rfl, .inl trivial⟩

theorem writeStep_reader (h : writeStep s = some t) :
    Answering s.phase ∧ t.reads = s.reads ∧ t.stream = s.stream ∧ (Answering t.phase ∨ t.phase = .finished) := by
  rw [writeStep] at h
  split at h
  · rename_i hPhase
    cases h
    exact ⟨hPhase ▸ trivial, rfl, rfl, .inl trivial⟩
  · rename_i hPhase
    cases h
    exact ⟨hPhase ▸ trivial, rfl, rfl, .inl trivial⟩
  · rename_i hPhase
    cases h
    exact ⟨hPhase ▸ trivial, rfl, rfl, .inr rfl⟩
  · cases h

theorem starves_iff {capacity : Nat} :
    (!s.failed || decide (s.source.ahead.length < need s.stream capacity)) = true ↔
      (s.failed = true → s.source.ahead.length < need s.stream capacity) := by
  rw [Bool.or_eq_true, Bool.not_eq_true', decide_eq_true_eq, ← Bool.not_eq_true, imp_iff_not_or]

theorem Inv.next (hInv : Inv s) (hGuard : starves opts s action = true) (hStep : step opts s action = some t) :
    Inv t := by
  cases step_cases hStep with
  | read capacity hPhase =>
    obtain ⟨hStopped, hOpen⟩ := hInv.read (starves_iff.mp hGuard)
    rcases hPhase with hHandling | ⟨total, hBody⟩
    · have hUnwritten := hInv.unwritten (.inl hHandling)
      refine ⟨hStopped, fun hFailed => ⟨hOpen hFailed, hUnwritten, .inl hHandling⟩, fun _ => hUnwritten, fun h => ?_⟩
      change Answering s.phase at h
      rw [hHandling] at h
      exact h.elim
    · have hAnswering : Answering s.phase := hBody ▸ trivial
      have hEnded : (s.read capacity).stream.ended = true := by
        rw [State.read, read_ended (hInv.drained hAnswering)]
        exact hInv.drained hAnswering
      refine ⟨hStopped, fun hFailed => absurd ((hOpen hFailed).symm.trans hEnded) Bool.false_ne_true, ?_,
        fun _ => hEnded⟩
      change s.phase = _ ∨ (∃ response, s.phase = _) → _
      rw [hBody]
      rintro (h | ⟨response, h⟩) <;> cases h
  | answered _ response hPhase =>
    have hUnwritten := hInv.unwritten (.inl hPhase)
    exact ⟨hInv.stopped, fun hFailed => ⟨(hInv.broken hFailed).opened, hUnwritten, .inr (.inl ⟨response, rfl⟩)⟩,
      fun _ => hUnwritten, False.elim⟩
  | drain response hPhase => exact hInv.drain hPhase (starves_iff.mp hGuard)
  | sent hWrite =>
    obtain ⟨hAnswering, hReads, hStream, hPhase⟩ := writeStep_reader hWrite
    exact hInv.answer hAnswering hReads hStream hPhase
  | failed _ hCause =>
    have hAnswering : Answering s.phase := by
      rcases hCause with ⟨-, hSome⟩ | ⟨-, total, hBody⟩
      · obtain ⟨written, hWrite⟩ := Option.isSome_iff_exists.mp hSome
        exact (writeStep_reader hWrite).1
      · exact hBody ▸ trivial
    exact hInv.answer hAnswering rfl rfl (.inr rfl)
  | closed total hPhase => exact hInv.answer (hPhase ▸ trivial) rfl rfl (.inl trivial)
  | copied rest total hPhase =>
    obtain ⟨hReads, hStream, hNext⟩ := @produceStep_reader opts s (.message (rest.drop opts.streamChunkSize)) total
      (rest.take opts.streamChunkSize)
    exact hInv.answer (hPhase ▸ trivial) hReads hStream hNext
  | produced bytes total hPhase =>
    obtain ⟨hReads, hStream, hNext⟩ := @produceStep_reader opts s .handler total bytes
    exact hInv.answer (hPhase ▸ trivial) hReads hStream hNext

/-- As long as reads after a failed one are starved, a framing error ends the connection. -/
theorem framing_error_ends_connection
    (h : (machine opts requestId source).Reached (fun s action => starves opts s action = true) s) :
    Stopped s.reads ∧ (s.failed = true →
      (∀ frame ∈ s.written, frame.type ≠ .streamResponseEnd) ∧ (s.phase = .finished → s.closing = true)) := by
  have hInv : Inv s := h.invariant (I := Inv) (fun s (hInit : s = _) => hInit ▸ .start)
    (fun _ _ _ _ hInv hGuard hStep => hInv.next hGuard hStep)
  refine ⟨hInv.stopped, fun hFailed => ⟨?_, fun hFinished => ?_⟩⟩
  · rw [(hInv.broken hFailed).unwritten]
    exact fun frame hFrame => absurd hFrame List.not_mem_nil
  · rcases (hInv.broken hFailed).phase with hPhase | ⟨response, hPhase⟩ | ⟨-, hClosing⟩
    · exact absurd (hPhase.symm.trans hFinished) nofun
    · exact absurd (hPhase.symm.trans hFinished) nofun
    · exact hClosing

def narrow : Options where
  streamChunkSize := 64
  maxStreamSize := 4
  maxMessageSize := 64
  includeHandlerErrorMessages := false
  chunk_size := Parser.smallMessages.messageSize

def oversizedHeader : HeaderBytes := encodeHeader .streamRequestChunk 7 20 0 0 version

def endHeader : HeaderBytes := encodeHeader .streamRequestEnd 7 0 0 0 version

/-- The peer sends an oversized chunk and goes away inside its payload. -/
theorem framing_error_ends_connection_truncated :
    ∃ s, (machine narrow 7 ⟨oversizedHeader ++ endHeader.take 8, 0, [.closed]⟩).Reached
        (fun s action => starves narrow s action = true) s ∧
      s.failed = true ∧ s.phase = .finished ∧ Stopped s.reads ∧ s.closing = true := by
  obtain ⟨s, hReached, hFailed, hFinished⟩ := Machine.exists_reached_of_exec
    (fun s => s.failed = true ∧ s.phase = .finished) (starves narrow) [.read 16, .read 16, .respond 200 false, .drain]
    (M := machine narrow 7 ⟨oversizedHeader ++ endHeader.take 8, 0, [.closed]⟩) (s := start narrow 7 _) rfl (by decide)
  obtain ⟨hStopped, hEnd⟩ := framing_error_ends_connection hReached
  exact ⟨s, hReached, hFailed, hFinished, hStopped, (hEnd hFailed).2 hFinished⟩

/-- The payload of an oversized chunk is taken as the end frame, and the exchange succeeds. -/
theorem oversized_payload_read_as_header :
    ∃ s, (machine narrow 7 ⟨oversizedHeader, 0, [.data endHeader]⟩).Reachable s ∧
      s.reads = [⟨some oversizedHeader, .error (.lengthError "stream exceeds max_stream_size")⟩,
        ⟨some endHeader, .ok []⟩] ∧
      s.phase = .finished ∧ s.closing = false ∧ headerFrame .streamResponseEnd 7 0 ∈ s.written :=
  Machine.exists_reachable_of_exec _ [.read 16, .respond 200 false, .drain, .sent, .proceed, .sent]
    (s := start narrow 7 _) rfl (by decide)

end EasyUds.Reactor.StreamExchange

import EasyUds.Lib.Blocks
import EasyUds.Transport.Io
import EasyUds.Reactor.Parser

/-! # What the parser decodes

`decoder` says what a byte stream means, without buffers: a header announces a block, and the block is
a request, a stream route, or nothing at all for a cancellation. A pass of the parse loop takes bytes
from the front of `pending` and moves the decoder over exactly these bytes, so how the stream was cut
into receive results cannot matter.
-/

namespace EasyUds.Reactor.ParserDecode

open Lib Lib.BlockDecoder Protocol.Codec Transport.Io Reactor.Parser

inductive Stage
  | header
  | payload (header : HeaderBytes) (requestId arg1 arg2 : UInt32)
  | streamRoute (header : HeaderBytes) (requestId arg1 : UInt32)
  | streaming
  | failed (error : Exception)
  deriving DecidableEq, Repr

structure Mode where
  version : UInt8
  stage : Stage
  deriving DecidableEq, Repr

def blockSize : Stage → Option Nat
  | .header => some headerSize
  | .payload _ _ arg1 arg2 => some (arg1.toNat + arg2.toNat)
  | .streamRoute _ _ arg1 => some arg1.toNat
  | .streaming | .failed _ => none

def finishHeader (opts : Options) (version : UInt8) (block : HeaderBytes) : Mode × List Event :=
  match decodeHeader block with
  | .error error => (⟨version, .failed error⟩, [])
  | .ok decoded =>
    let seen := observedVersion version decoded.version
    match announce opts seen false decoded with
    | .error error => (⟨seen, .failed error⟩, [])
    | .ok (.cancel requestId) => (⟨seen, .header⟩, [.cancel requestId])
    | .ok (.request decoded) => (⟨seen, .payload block decoded.requestId decoded.arg1 decoded.arg2⟩, [])
    | .ok (.stream decoded) => (⟨seen, .streamRoute block decoded.requestId decoded.arg1⟩, [])

def finishBlock (opts : Options) (mode : Mode) (block : List UInt8) : Mode × List Event :=
  match mode.stage with
  | .header => finishHeader opts mode.version block
  | .payload _ requestId arg1 _ =>
    (⟨mode.version, .header⟩, [.request requestId (block.take arg1.toNat) (block.drop arg1.toNat) none])
  | .streamRoute _ requestId _ => (⟨mode.version, .streaming⟩, [.stream requestId block])
  | .streaming | .failed _ => (mode, [])

def decoder (opts : Options) : BlockDecoder UInt8 Mode Event where
  size mode := blockSize mode.stage
  finish := finishBlock opts

abbrev Position := Cursor UInt8 Mode

def start : Position := ⟨⟨0, .header⟩, []⟩

/-- Where the parser stands in its stream; `pending` is what lies in front of it. -/
def position (rc : ReactorConnection) : Position :=
  match rc.phase with
  | .header => ⟨⟨rc.wireVersion, .header⟩, rc.header.take rc.headerReceived⟩
  | .requestBudget => ⟨⟨rc.wireVersion, .payload rc.header rc.requestId rc.arg1 rc.arg2⟩, []⟩
  | .requestPayload =>
    ⟨⟨rc.wireVersion, .payload rc.header rc.requestId rc.arg1 rc.arg2⟩, rc.routeBuffer ++ rc.bodyBuffer⟩
  | .streamBudget => ⟨⟨rc.wireVersion, .streamRoute rc.header rc.requestId rc.arg1⟩, []⟩
  | .streamRoute => ⟨⟨rc.wireVersion, .streamRoute rc.header rc.requestId rc.arg1⟩, rc.routeBuffer⟩

def Buffered (rc : ReactorConnection) : Prop :=
  match rc.phase with
  | .header => rc.headerReceived < headerSize
  | .requestBudget =>
    rc.headerReceived = 0 ∧ rc.payloadReceived = 0 ∧ rc.payloadTotal = rc.arg1.toNat + rc.arg2.toNat ∧
      0 < rc.payloadTotal
  | .requestPayload =>
    rc.headerReceived = 0 ∧ rc.payloadTotal = rc.arg1.toNat + rc.arg2.toNat ∧
      rc.payloadReceived < rc.payloadTotal ∧ rc.routeBuffer.length = min rc.payloadReceived rc.arg1.toNat ∧
      rc.bodyBuffer.length = rc.payloadReceived - rc.arg1.toNat
  | .streamBudget => rc.headerReceived = 0 ∧ 0 < rc.arg1.toNat
  | .streamRoute => rc.headerReceived = 0 ∧ rc.routeBuffer.length < rc.arg1.toNat

structure Sound (rc : ReactorConnection) : Prop where
  header : rc.header.length = headerSize
  offset : rc.pendingOffset ≤ rc.pending.length
  buffered : Buffered rc
  receivedFds : rc.receivedFds = []
  receivedFd : rc.receivedFd = none

variable {taken : List UInt8}

theorem accepted_sound : Sound accepted := ⟨rfl, Nat.le_refl _, Nat.zero_lt_succ _, rfl, rfl⟩

section Buffers

variable {opts : Options} {rc : ReactorConnection}

theorem unparsed_length : (unparsed rc).length = available rc := List.length_drop

theorem releaseConsumedPending_eq (opts : Options) (rc : ReactorConnection)
    (hOffset : rc.pendingOffset ≤ rc.pending.length) :
    ∃ pending offset, releaseConsumedPending opts rc = { rc with pending, pendingOffset := offset } ∧
      offset ≤ pending.length ∧ pending.drop offset = unparsed rc := by
  unfold releaseConsumedPending
  split
  · rename_i hUsed
    simp only [Bool.and_eq_true, beq_iff_eq] at hUsed
    refine ⟨[], 0, rfl, Nat.le_refl _, ?_⟩
    rw [unparsed, hUsed.2, List.drop_length]
    rfl
  · exact ⟨rc.pending, rc.pendingOffset, rfl, hOffset, rfl⟩

theorem unparsed_take (take : Nat) :
    unparsed rc = (unparsed rc).take take ++ rc.pending.drop (rc.pendingOffset + take) := by
  rw [← List.drop_drop]
  exact (List.take_append_drop take _).symm

theorem header_copied {header : List UInt8} (chunk : List UInt8) {received : Nat}
    (hLength : header.length = headerSize)
    (hFits : received + chunk.length ≤ headerSize) :
    (header.take received ++ chunk ++ header.drop (received + chunk.length)).length = headerSize ∧
      (header.take received ++ chunk ++ header.drop (received + chunk.length)).take (received + chunk.length) =
        header.take received ++ chunk := by
  have hFront : (header.take received ++ chunk).length = received + chunk.length := by
    rw [List.length_append, List.length_take]
    omega
  constructor
  · rw [List.length_append, hFront, List.length_drop]
    omega
  · rw [← hFront, List.take_left]

end Buffers

section Copies

variable {rc : ReactorConnection}

theorem exists_chunk (hOffset : rc.pendingOffset ≤ rc.pending.length) (missing : Nat) :
    ∃ take chunk, take = min (available rc) missing ∧ chunk = (unparsed rc).take take ∧ chunk.length = take ∧
      unparsed rc = chunk ++ rc.pending.drop (rc.pendingOffset + take) ∧
      rc.pendingOffset + take ≤ rc.pending.length ∧
      (take < missing → rc.pending.drop (rc.pendingOffset + take) = []) := by
  refine ⟨_, _, rfl, rfl, ?_, unparsed_take _, ?_, fun hLess => List.drop_eq_nil_of_le ?_⟩
  · rw [List.length_take, unparsed_length]
    omega
  · rw [available]
    omega
  · rw [available] at hLess ⊢
    omega

theorem headerPass_eq (opts : Options) (answer : Answer) (hLength : rc.header.length = headerSize)
    (hOffset : rc.pendingOffset ≤ rc.pending.length) (hShort : rc.headerReceived < headerSize) :
    ∃ chunk pending offset, unparsed rc = chunk ++ pending.drop offset ∧ offset ≤ pending.length ∧
      ((rc.headerReceived + chunk.length < headerSize ∧ pending.drop offset = [] ∧
          ∃ header, header.length = headerSize ∧
            header.take (rc.headerReceived + chunk.length) = rc.header.take rc.headerReceived ++ chunk ∧
            headerPass opts answer rc = .stop { rc with
              header, headerReceived := rc.headerReceived + chunk.length, pending, pendingOffset := offset } []) ∨
        (rc.headerReceived + chunk.length = headerSize ∧
          headerPass opts answer rc = wholeHeader opts answer
            { rc with
              header := rc.header.take rc.headerReceived ++ chunk
              headerReceived := 0
              pending
              pendingOffset := offset })) := by
  obtain ⟨take, chunk, hTake, hChunk, hTaken, hSplit, hInside, hNothing⟩ :=
    exists_chunk hOffset (headerSize - rc.headerReceived)
  obtain ⟨hCopied, hFront⟩ := header_copied chunk hLength (show rc.headerReceived + chunk.length ≤ headerSize by omega)
  have hHeader : (copyHeader rc take).header =
      rc.header.take rc.headerReceived ++ chunk ++ rc.header.drop (rc.headerReceived + chunk.length) := by
    rw [copyHeader, ← hChunk, hTaken]
  rw [headerPass, ← hTake]
  by_cases hWhole : rc.headerReceived + take = headerSize
  · obtain ⟨pending, offset, hReleased, hBound, hRest⟩ :=
      releaseConsumedPending_eq opts { copyHeader rc take with headerReceived := 0 } hInside
    refine ⟨chunk, pending, offset, hSplit.trans (congrArg _ hRest.symm), hBound, .inr ⟨by rw [hTaken, hWhole], ?_⟩⟩
    rw [List.drop_eq_nil_of_le (by rw [hLength, hTaken, hWhole]), List.append_nil] at hHeader
    rw [if_neg (not_not_intro (show (copyHeader rc take).headerReceived = headerSize from hWhole)),
      hReleased, ← hHeader]
    rfl
  · obtain ⟨pending, offset, hReleased, hBound, hRest⟩ := releaseConsumedPending_eq opts (copyHeader rc take) hInside
    refine ⟨chunk, pending, offset, hSplit.trans (congrArg _ hRest.symm), hBound,
      .inl ⟨by omega, ?_, _, hCopied, hFront, ?_⟩⟩
    · exact hRest.trans (hNothing (by omega))
    · rw [if_pos (show (copyHeader rc take).headerReceived ≠ headerSize from hWhole), hReleased, ← hHeader, hTaken]
      rfl

theorem payload_copied {route body : List UInt8} (chunk : List UInt8) {arg1 received : Nat}
    (hRoute : route.length = min received arg1) (hBody : body.length = received - arg1) :
    (route ++ chunk.take (min chunk.length (arg1 - route.length))) ++
        (body ++ chunk.drop (min chunk.length (arg1 - route.length))) = route ++ body ++ chunk ∧
      (route ++ chunk.take (min chunk.length (arg1 - route.length))).length = min (received + chunk.length) arg1 ∧
      (body ++ chunk.drop (min chunk.length (arg1 - route.length))).length = received + chunk.length - arg1 := by
  refine ⟨?_, ?_, ?_⟩
  · by_cases hFull : received < arg1
    · have hEmpty : body = [] := List.length_eq_zero_iff.mp (by omega)
      rw [hEmpty, List.nil_append, List.append_nil, List.append_assoc, List.take_append_drop]
    · have hNone : min chunk.length (arg1 - route.length) = 0 := by omega
      rw [hNone, List.take_zero, List.append_nil, List.drop_zero, List.append_assoc]
  · rw [List.length_append, List.length_take]
    omega
  · rw [List.length_append, List.length_drop]
    omega

theorem payloadPass_eq (opts : Options) (answer : Answer) (hOffset : rc.pendingOffset ≤ rc.pending.length)
    (hMissing : rc.payloadReceived < rc.payloadTotal)
    (hRoute : rc.routeBuffer.length = min rc.payloadReceived rc.arg1.toNat)
    (hBody : rc.bodyBuffer.length = rc.payloadReceived - rc.arg1.toNat) :
    ∃ chunk route body pending offset, unparsed rc = chunk ++ pending.drop offset ∧ offset ≤ pending.length ∧
      route ++ body = rc.routeBuffer ++ rc.bodyBuffer ++ chunk ∧
      route.length = min (rc.payloadReceived + chunk.length) rc.arg1.toNat ∧
      body.length = rc.payloadReceived + chunk.length - rc.arg1.toNat ∧
      ((rc.payloadReceived + chunk.length < rc.payloadTotal ∧ pending.drop offset = [] ∧
          payloadPass opts answer rc = .stop
            { rc with
              routeBuffer := route
              bodyBuffer := body
              payloadReceived := rc.payloadReceived + chunk.length
              pending
              pendingOffset := offset } []) ∨
        (rc.payloadReceived + chunk.length = rc.payloadTotal ∧
          payloadPass opts answer rc = dispatchRequest answer
            { rc with
              routeBuffer := route
              bodyBuffer := body
              payloadReceived := rc.payloadReceived + chunk.length
              pending
              pendingOffset := offset })) := by
  obtain ⟨take, chunk, hTake, hChunk, hTaken, hSplit, hInside, hNothing⟩ :=
    exists_chunk hOffset (rc.payloadTotal - rc.payloadReceived)
  obtain ⟨hJoin, hRouteNext, hBodyNext⟩ := payload_copied chunk hRoute hBody
  obtain ⟨route, hRouteEq⟩ : ∃ route, route = rc.routeBuffer ++
    chunk.take (min chunk.length (rc.arg1.toNat - rc.routeBuffer.length)) := ⟨_, rfl⟩
  obtain ⟨body, hBodyEq⟩ : ∃ body, body = rc.bodyBuffer ++
    chunk.drop (min chunk.length (rc.arg1.toNat - rc.routeBuffer.length)) := ⟨_, rfl⟩
  rw [← hRouteEq, ← hBodyEq] at hJoin
  rw [← hRouteEq] at hRouteNext
  rw [← hBodyEq] at hBodyNext
  rw [hTaken] at hRouteEq hBodyEq
  obtain ⟨pending, offset, hReleased, hBound, hRest⟩ := releaseConsumedPending_eq opts
    { rc with
      routeBuffer := route
      bodyBuffer := body
      pendingOffset := rc.pendingOffset + take
      payloadReceived := rc.payloadReceived + take } hInside
  refine ⟨chunk, route, body, pending, offset, hSplit.trans (congrArg _ hRest.symm), hBound, hJoin, hRouteNext,
    hBodyNext, ?_⟩
  rw [payloadPass, ← hTake, ← hChunk, ← hRouteEq, ← hBodyEq, hReleased, hTaken]
  dsimp only
  split
  · rename_i hFull
    exact .inr ⟨hFull, rfl⟩
  · rename_i hPart
    exact .inl ⟨by omega, hRest.trans (hNothing (by omega)), rfl⟩

theorem streamPass_eq (opts : Options) (answer : Answer) (hOffset : rc.pendingOffset ≤ rc.pending.length)
    (hMissing : rc.routeBuffer.length < rc.arg1.toNat) :
    ∃ chunk pending offset, unparsed rc = chunk ++ pending.drop offset ∧ offset ≤ pending.length ∧
      ((rc.routeBuffer.length + chunk.length < rc.arg1.toNat ∧ pending.drop offset = [] ∧
          streamPass opts answer rc = .stop
            { rc with routeBuffer := rc.routeBuffer ++ chunk, pending, pendingOffset := offset } []) ∨
        (rc.routeBuffer.length + chunk.length = rc.arg1.toNat ∧
          streamPass opts answer rc = dispatchStream answer
            { rc with routeBuffer := rc.routeBuffer ++ chunk, pending, pendingOffset := offset })) := by
  obtain ⟨take, chunk, hTake, hChunk, hTaken, hSplit, hInside, hNothing⟩ :=
    exists_chunk hOffset (rc.arg1.toNat - rc.routeBuffer.length)
  obtain ⟨pending, offset, hReleased, hBound, hRest⟩ := releaseConsumedPending_eq opts
    { rc with routeBuffer := rc.routeBuffer ++ chunk, pendingOffset := rc.pendingOffset + take } hInside
  refine ⟨chunk, pending, offset, hSplit.trans (congrArg _ hRest.symm), hBound, ?_⟩
  rw [streamPass, ← hTake, ← hChunk, hReleased]
  dsimp only
  split
  · rename_i hFull
    exact .inr ⟨(List.length_append ..).symm.trans hFull, rfl⟩
  · rename_i hPart
    rw [List.length_append] at hPart
    exact .inl ⟨by omega, hRest.trans (hNothing (by omega)), rfl⟩

end Copies

/-- From `rc` to `next` the parser has gone over the bytes `taken`. -/
structure Moved (opts : Options) (rc next : ReactorConnection) (taken : List UInt8) (events : List Event) :
    Prop where
  sound : Sound next
  bytes : unparsed rc = taken ++ unparsed next
  run : (decoder opts).run (position rc) taken = (position next, events)
  closing : next.closing = rc.closing
  streamActive : next.streamActive = rc.streamActive

def Ended (opts : Options) (rc : ReactorConnection) (stage : Stage) (events : List Event) : Prop :=
  ∃ taken rest version, unparsed rc = taken ++ rest ∧
    (decoder opts).run (position rc) taken = (⟨⟨version, stage⟩, []⟩, events)

def Ready (rc : ReactorConnection) : Prop := rc.phase ≠ .requestBudget ∧ rc.phase ≠ .streamBudget

def PassSpec (opts : Options) (answer : Answer) (rc : ReactorConnection) : Pass → Prop
  | .again next events => Ready next ∧ ∃ taken, taken ≠ [] ∧ Moved opts rc next taken events
  | .stop next events =>
    (∃ taken, Moved opts rc next taken events ∧ (answer.reserved = true → Ready next) ∧
        (answer = granted → unparsed next = [])) ∨
      ((next.streamActive = true ∨ next.closing = true) ∧ Ended opts rc .streaming events)
  | .threw _ error => Ended opts rc (.failed error) []

section Passes

variable {opts : Options} {answer : Answer} {rc : ReactorConnection}
variable {decoded : DecodedHeader} {whole full : ReactorConnection} {version : UInt8} {chunk : List UInt8}

theorem headerPass_cases (opts : Options) (answer : Answer) (hSound : Sound rc) (hPhase : rc.phase = .header) :
    (∃ next, headerPass opts answer rc = .stop next [] ∧ Moved opts rc next (unparsed rc) [] ∧
      unparsed next = [] ∧ Ready next) ∨
    ∃ block chunk pending offset, chunk ≠ [] ∧ unparsed rc = chunk ++ pending.drop offset ∧
      offset ≤ pending.length ∧ block.length = headerSize ∧
      (decoder opts).run (position rc) chunk =
        (⟨(finishHeader opts rc.wireVersion block).1, []⟩, (finishHeader opts rc.wireVersion block).2) ∧
      headerPass opts answer rc = wholeHeader opts answer
        { rc with header := block, headerReceived := 0, pending, pendingOffset := offset } := by
  have hShort : rc.headerReceived < headerSize := by
    have hBuffered := hSound.buffered
    rwa [Buffered, hPhase] at hBuffered
  have hPosition : position rc = ⟨⟨rc.wireVersion, .header⟩, rc.header.take rc.headerReceived⟩ := by
    rw [position, hPhase]
  have hHeld : (rc.header.take rc.headerReceived).length = rc.headerReceived := by
    rw [List.length_take, hSound.header]
    omega
  obtain ⟨chunk, pending, offset, hBytes, hBound, hCases⟩ :=
    headerPass_eq opts answer hSound.header hSound.offset hShort
  obtain ⟨hPart, hEmpty, header, hLength, hFront, hPass⟩ | ⟨hWhole, hPass⟩ := hCases
  · left
    have hUnparsed : unparsed rc = chunk := by rw [hBytes, hEmpty, List.append_nil]
    refine ⟨_, hPass, ⟨⟨hLength, hBound, ?_, hSound.receivedFds, hSound.receivedFd⟩, ?_, ?_, rfl, rfl⟩, hEmpty,
      by simp [Ready, hPhase]⟩
    · simp only [Buffered, hPhase]
      exact hPart
    · change unparsed rc = unparsed rc ++ pending.drop offset
      rw [hEmpty, List.append_nil]
    · rw [hPosition, hUnparsed, run_short rfl (by rw [hHeld]; exact hPart)]
      simp only [position, hPhase, hFront]
  · right
    have hSome : chunk ≠ [] := by
      rintro rfl
      rw [List.length_nil] at hWhole
      omega
    refine ⟨_, chunk, pending, offset, hSome, hBytes, hBound, ?_, ?_, hPass⟩
    · rw [List.length_append, hHeld, hWhole]
    · rw [hPosition]
      exact run_complete rfl hSome (by rw [hHeld, hWhole])

theorem announce_cases {descriptor : Bool} {announced : Announced}
    (h : announce opts version descriptor decoded = .ok announced) : version = decoded.version ∧
    ((announced = .cancel decoded.requestId ∧ decoded.type = .cancelRequest) ∨
      (announced = .request decoded ∧ decoded.type = .request ∧ decoded.flags &&& carriesWindowsHandleFlag = 0 ∧
        (decoded.flags &&& carriesFdFlag ≠ 0 → descriptor = true) ∧
        validateRequestLengths decoded.arg1.toNat decoded.arg2.toNat opts.maxMessageSize = .ok ()) ∨
      (announced = .stream decoded ∧ decoded.type = .streamRequest ∧ 0 < decoded.arg1.toNat)) := by
  unfold announce at h
  split at h
  · cases h
  · rename_i hVersion
    refine ⟨not_not.mp hVersion, ?_⟩
    split at h
    · rename_i hType
      cases h
      exact .inl ⟨rfl, hType⟩
    · rename_i hType
      split at h
      · cases h
      · rename_i hHandle
        split at h
        · cases h
        · rename_i hFlag
          split at h
          · cases h
          · rename_i hLengths
            cases h
            refine .inr (.inl ⟨rfl, hType, not_not.mp hHandle, fun hSet => ?_, hLengths⟩)
            by_contra hNone
            exact hFlag ⟨hSet, Bool.not_eq_true _ ▸ hNone⟩
    · rename_i hType
      split at h
      · cases h
      · split at h
        · cases h
        · rename_i hHeader
          cases h
          refine .inr (.inr ⟨rfl, hType, Nat.pos_of_ne_zero fun hZero => hHeader (.inl ?_)⟩)
          exact UInt32.toNat_inj.mp hZero
    · cases h

structure AtHeader (opts : Options) (rc whole : ReactorConnection) (chunk : List UInt8) : Prop where
  some : chunk ≠ []
  bytes : unparsed rc = chunk ++ unparsed whole
  run : (decoder opts).run (position rc) chunk =
    (⟨(finishHeader opts whole.wireVersion whole.header).1, []⟩,
      (finishHeader opts whole.wireVersion whole.header).2)
  sound : Sound whole
  phase : whole.phase = .header
  received : whole.headerReceived = 0
  closing : whole.closing = rc.closing
  streamActive : whole.streamActive = rc.streamActive

theorem startRequest_spec (h : AtHeader opts rc whole chunk)
    (hFinish : finishHeader opts whole.wireVersion whole.header =
      (⟨version, .payload whole.header decoded.requestId decoded.arg1 decoded.arg2⟩, []))
    (hFlag : decoded.flags &&& carriesFdFlag = 0) (hRoute : 0 < decoded.arg1.toNat) :
    PassSpec opts answer rc (startRequest opts answer { whole with wireVersion := version } decoded) := by
  have hRun := h.run
  rw [hFinish] at hRun
  have hNoFd : ¬ (decoded.flags &&& carriesFdFlag ≠ 0) := not_not_intro hFlag
  unfold startRequest beginRequestPayload
  by_cases hRefused : (opts.strictBudget && !answer.reserved) = true
  · simp only [hRefused, if_true, if_neg hNoFd]
    refine .inl ⟨chunk, ⟨⟨h.sound.header, h.sound.offset, ?_, h.sound.receivedFds, h.sound.receivedFd⟩, h.bytes,
      hRun, h.closing, h.streamActive⟩, ?_, ?_⟩
    · exact ⟨h.received, rfl, rfl, Nat.lt_of_lt_of_le hRoute (Nat.le_add_right _ _)⟩
    · intro hReserved
      simp [hReserved] at hRefused
    · rintro rfl
      simp [granted] at hRefused
  · simp only [hRefused, if_neg hNoFd]
    refine ⟨⟨nofun, nofun⟩, chunk, h.some,
      ⟨⟨h.sound.header, h.sound.offset, ?_, h.sound.receivedFds, h.sound.receivedFd⟩, h.bytes,
      hRun, h.closing, h.streamActive⟩⟩
    refine ⟨h.received, rfl, Nat.lt_of_lt_of_le hRoute (Nat.le_add_right _ _), ?_, ?_⟩
    · exact (Nat.zero_min _).symm
    · exact (Nat.zero_sub _).symm

theorem startStream_spec (h : AtHeader opts rc whole chunk)
    (hFinish : finishHeader opts whole.wireVersion whole.header =
      (⟨version, .streamRoute whole.header decoded.requestId decoded.arg1⟩, [])) (hRoute : 0 < decoded.arg1.toNat) :
    PassSpec opts answer rc (startStream opts answer { whole with wireVersion := version } decoded) := by
  have hRun := h.run
  rw [hFinish] at hRun
  unfold startStream beginStreamRoute
  by_cases hRefused : (opts.strictBudget && !answer.reserved) = true
  · simp only [hRefused, if_true]
    refine .inl ⟨chunk, ⟨⟨h.sound.header, h.sound.offset, ⟨h.received, hRoute⟩, h.sound.receivedFds,
      h.sound.receivedFd⟩, h.bytes, hRun, h.closing, h.streamActive⟩, ?_, ?_⟩
    · intro hReserved
      simp [hReserved] at hRefused
    · rintro rfl
      simp [granted] at hRefused
  · simp only [hRefused]
    exact ⟨⟨nofun, nofun⟩, chunk, h.some, ⟨⟨h.sound.header, h.sound.offset, ⟨h.received, hRoute⟩, h.sound.receivedFds,
      h.sound.receivedFd⟩, h.bytes, hRun, h.closing, h.streamActive⟩⟩

theorem wholeHeader_spec (h : AtHeader opts rc whole chunk) :
    PassSpec opts answer rc (wholeHeader opts answer whole) := by
  have hNoFds : (whole.receivedFds != []) = false := by rw [h.sound.receivedFds]; rfl
  have hRun := h.run
  unfold wholeHeader
  cases hDecode : decodeHeader whole.header with
  | error error =>
    rw [finishHeader, hDecode] at hRun
    exact ⟨chunk, _, _, h.bytes, hRun⟩
  | ok decoded =>
    dsimp only
    rw [hNoFds]
    cases hAnnounce : announce opts (observedVersion whole.wireVersion decoded.version) false decoded with
    | error error =>
      simp only [finishHeader, hDecode, hAnnounce] at hRun
      exact ⟨chunk, _, _, h.bytes, hRun⟩
    | ok announced =>
      obtain ⟨-, ⟨rfl, -⟩ | ⟨rfl, -, -, hFlag, hLengths⟩ | ⟨rfl, -, hRoute⟩⟩ := announce_cases hAnnounce
      · simp only [finishHeader, hDecode, hAnnounce] at hRun
        refine ⟨⟨by simp [h.phase], by simp [h.phase]⟩, chunk, h.some,
          ⟨⟨h.sound.header, h.sound.offset, ?_, h.sound.receivedFds, h.sound.receivedFd⟩, h.bytes, ?_, h.closing,
            h.streamActive⟩⟩
        · have hBuffered := h.sound.buffered
          simp only [Buffered, h.phase] at hBuffered ⊢
          exact hBuffered
        · rw [hRun, position]
          simp only [h.phase, h.received, List.take_zero]
      · apply startRequest_spec h _ (not_not.mp fun hSet => absurd (hFlag hSet) Bool.false_ne_true)
          (validateRequestLengths_ok.mp hLengths).1
        simp only [finishHeader, hDecode, hAnnounce]
      · apply startStream_spec h _ hRoute
        simp only [finishHeader, hDecode, hAnnounce]

theorem headerPass_spec (hSound : Sound rc) (hPhase : rc.phase = .header) :
    PassSpec opts answer rc (headerPass opts answer rc) := by
  obtain ⟨next, hPass, hMoved, hEmpty⟩ | ⟨block, chunk, pending, offset, hSome, hBytes, hOffset, hLength,
    hRun, hPass⟩ :=
    headerPass_cases opts answer hSound hPhase
  · rw [hPass]
    exact .inl ⟨_, hMoved, fun _ => hEmpty.2, fun _ => hEmpty.1⟩
  · rw [hPass]
    apply wholeHeader_spec
    refine ⟨hSome, hBytes, hRun, ⟨hLength, hOffset, ?_, hSound.receivedFds, hSound.receivedFd⟩, hPhase, rfl, rfl, rfl⟩
    simp only [Buffered, hPhase]
    exact Nat.zero_lt_succ _

theorem dispatchRequest_spec (hAnswer : ∀ error, answer.dispatched ≠ .threw error) (hSome : taken ≠ [])
    (hBytes : unparsed rc = taken ++ unparsed full) (hHeader : full.header.length = headerSize)
    (hOffset : full.pendingOffset ≤ full.pending.length) (hReceived : full.headerReceived = 0)
    (hFds : full.receivedFds = []) (hRun : (decoder opts).run (position rc) taken =
      (⟨⟨full.wireVersion, .header⟩, []⟩,
        [.request full.requestId full.routeBuffer full.bodyBuffer full.receivedFd]))
    (hClosing : full.closing = rc.closing) (hStream : full.streamActive = rc.streamActive) :
    PassSpec opts answer rc (dispatchRequest answer full) := by
  have hSize : full.headerReceived < headerSize := by
    rw [hReceived]
    exact Nat.zero_lt_succ _
  unfold dispatchRequest
  cases hDispatched : answer.dispatched with
  | threw error => exact absurd hDispatched (hAnswer error)
  | paused =>
    refine .inl ⟨taken, ⟨⟨hHeader, hOffset, hSize, hFds, rfl⟩, hBytes, ?_, hClosing, hStream⟩,
      fun _ => ⟨nofun, nofun⟩, ?_⟩
    · rw [hRun, position]
      simp only [hReceived, List.take_zero]
    · rintro rfl
      cases hDispatched
  | accepted =>
    refine ⟨⟨nofun, nofun⟩, taken, hSome, ⟨⟨hHeader, hOffset, hSize, hFds, rfl⟩, hBytes, ?_, hClosing, hStream⟩⟩
    rw [hRun, position]
    simp only [hReceived, List.take_zero]

theorem payloadPass_spec (hAnswer : ∀ error, answer.dispatched ≠ .threw error) (hSound : Sound rc)
    (hPhase : rc.phase = .requestPayload) : PassSpec opts answer rc (payloadPass opts answer rc) := by
  have hBuffered := hSound.buffered
  simp only [Buffered, hPhase] at hBuffered
  obtain ⟨hReceived, hTotal, hMissing, hRoute, hBody⟩ := hBuffered
  have hPosition : position rc = ⟨⟨rc.wireVersion, .payload rc.header rc.requestId rc.arg1 rc.arg2⟩,
      rc.routeBuffer ++ rc.bodyBuffer⟩ := by
    rw [position, hPhase]
  have hHeld : (rc.routeBuffer ++ rc.bodyBuffer).length = rc.payloadReceived := by
    rw [List.length_append]
    omega
  obtain ⟨chunk, route, body, pending, offset, hBytes, hBound, hJoin, hRouteNext, hBodyNext, hCases⟩ :=
    payloadPass_eq opts answer hSound.offset hMissing hRoute hBody
  obtain ⟨hPart, hNothing, hPass⟩ | ⟨hFull, hPass⟩ := hCases
  · rw [hPass]
    refine .inl ⟨chunk, ⟨⟨hSound.header, hBound, ?_, hSound.receivedFds, hSound.receivedFd⟩, hBytes, ?_, rfl, rfl⟩,
      fun _ => by simp [Ready, hPhase], fun _ => hNothing⟩
    · simp only [Buffered, hPhase]
      exact ⟨hReceived, hTotal, hPart, hRouteNext, hBodyNext⟩
    · rw [hPosition, run_short rfl (by rw [hHeld, ← hTotal]; exact hPart), ← hJoin, position]
      simp only [hPhase]
  · rw [hPass]
    have hSome : chunk ≠ [] := by
      rintro rfl
      rw [List.length_nil] at hFull
      omega
    have hFinal : (decoder opts).run (position rc) chunk =
        (⟨⟨rc.wireVersion, .header⟩, []⟩, [.request rc.requestId route body rc.receivedFd]) := by
      have hWhole : route.length = rc.arg1.toNat := by omega
      rw [hPosition, run_complete rfl hSome (by rw [hHeld, hFull, hTotal]), ← hJoin]
      change ((⟨⟨rc.wireVersion, .header⟩, []⟩ : Position),
        [Event.request rc.requestId ((route ++ body).take rc.arg1.toNat)
        ((route ++ body).drop rc.arg1.toNat) none]) = _
      rw [← hWhole, List.take_left, List.drop_left, hSound.receivedFd]
    apply dispatchRequest_spec hAnswer hSome
    exacts [hBytes, hSound.header, hBound, hReceived, hSound.receivedFds, hFinal, rfl, rfl]

theorem dispatchStream_spec {rest : List UInt8} (hBytes : unparsed rc = taken ++ rest)
    (hRun : (decoder opts).run (position rc) taken =
      (⟨⟨full.wireVersion, .streaming⟩, []⟩, [.stream full.requestId full.routeBuffer])) :
    PassSpec opts answer rc (dispatchStream answer full) := by
  unfold dispatchStream
  dsimp only
  split
  · exact .inr ⟨.inl rfl, taken, rest, _, hBytes, hRun⟩
  · exact .inr ⟨.inr rfl, taken, rest, _, hBytes, hRun⟩

theorem streamPass_spec (hSound : Sound rc) (hPhase : rc.phase = .streamRoute) :
    PassSpec opts answer rc (streamPass opts answer rc) := by
  have hBuffered := hSound.buffered
  simp only [Buffered, hPhase] at hBuffered
  obtain ⟨hReceived, hMissing⟩ := hBuffered
  have hPosition : position rc =
      ⟨⟨rc.wireVersion, .streamRoute rc.header rc.requestId rc.arg1⟩, rc.routeBuffer⟩ := by
    rw [position, hPhase]
  obtain ⟨chunk, pending, offset, hBytes, hBound, hCases⟩ := streamPass_eq opts answer hSound.offset hMissing
  obtain ⟨hPart, hNothing, hPass⟩ | ⟨hFull, hPass⟩ := hCases
  · rw [hPass]
    refine .inl ⟨chunk, ⟨⟨hSound.header, hBound, ?_, hSound.receivedFds, hSound.receivedFd⟩, hBytes, ?_, rfl, rfl⟩,
      fun _ => by simp [Ready, hPhase], fun _ => hNothing⟩
    · simp only [Buffered, hPhase, List.length_append]
      exact ⟨hReceived, hPart⟩
    · rw [hPosition, run_short rfl hPart, position]
      simp only [hPhase]
  · rw [hPass]
    have hSome : chunk ≠ [] := by
      rintro rfl
      rw [List.length_nil] at hFull
      omega
    refine dispatchStream_spec hBytes ?_
    rw [hPosition, run_complete rfl hSome hFull]
    rfl

theorem parsePass_spec (hAnswer : ∀ error, answer.dispatched ≠ .threw error) (hSound : Sound rc)
    (hReady : Ready rc) : PassSpec opts answer rc (parsePass opts answer rc) := by
  unfold parsePass
  cases hPhase : rc.phase with
  | header => exact headerPass_spec hSound hPhase
  | requestPayload => exact payloadPass_spec hAnswer hSound hPhase
  | streamRoute => exact streamPass_spec hSound hPhase
  | requestBudget => exact absurd hPhase hReady.1
  | streamBudget => exact absurd hPhase hReady.2

inductive Retried (opts : Options) (reserved : Bool) (rc : ReactorConnection) : ReactorConnection × Bool → Prop
  | ready : Ready rc → Retried opts reserved rc (rc, true)
  | refused : reserved = false → Retried opts reserved rc ({ rc with readPaused := true }, false)
  | request : rc.phase = .requestBudget → Retried opts reserved rc
      ({ rc with
          reservedRequestBytes := if opts.strictBudget then rc.payloadTotal else rc.reservedRequestBytes
          routeBuffer := []
          bodyBuffer := []
          phase := .requestPayload }, true)
  | stream : rc.phase = .streamBudget → Retried opts reserved rc
      ({ rc with
          reservedRequestBytes := if opts.strictBudget then rc.arg1.toNat else rc.reservedRequestBytes
          routeBuffer := []
          phase := .streamRoute }, true)

theorem retryBudget_cases (opts : Options) (answer : Answer) (rc : ReactorConnection) :
    Retried opts answer.reserved rc (retryBudget opts answer rc) := by
  rw [retryBudget]
  cases hPhase : rc.phase with
  | header | requestPayload | streamRoute => exact .ready (by simp [Ready, hPhase])
  | requestBudget =>
    dsimp only
    rw [beginRequestPayload]
    split
    · exact .refused (by simp_all)
    · exact .request hPhase
  | streamBudget =>
    dsimp only
    rw [beginStreamRoute]
    split
    · exact .refused (by simp_all)
    · exact .stream hPhase

theorem retryBudget_moved (opts : Options) (answer : Answer) (hSound : Sound rc) :
    Moved opts rc (retryBudget opts answer rc).1 [] [] ∧
      ((retryBudget opts answer rc).2 = true → Ready (retryBudget opts answer rc).1) := by
  have hBuffered := hSound.buffered
  have hRetried := retryBudget_cases opts answer rc
  generalize retryBudget opts answer rc = retried at hRetried ⊢
  cases hRetried with
  | ready hReady => exact ⟨⟨hSound, rfl, rfl, rfl, rfl⟩, fun _ => hReady⟩
  | refused =>
    exact ⟨⟨⟨hSound.header, hSound.offset, hBuffered, hSound.receivedFds, hSound.receivedFd⟩, rfl, rfl, rfl, rfl⟩,
      nofun⟩
  | request hPhase =>
    simp only [Buffered, hPhase] at hBuffered
    obtain ⟨hHeader, hNone, hTotal, hSome⟩ := hBuffered
    refine ⟨⟨⟨hSound.header, hSound.offset, ⟨hHeader, hTotal, hNone ▸ hSome, ?_, ?_⟩, hSound.receivedFds,
      hSound.receivedFd⟩, rfl, ?_, rfl, rfl⟩, fun _ => ⟨nofun, nofun⟩⟩
    · simp [hNone]
    · simp [hNone]
    · rw [position, hPhase]
      rfl
  | stream hPhase =>
    simp only [Buffered, hPhase] at hBuffered
    refine ⟨⟨⟨hSound.header, hSound.offset, hBuffered, hSound.receivedFds, hSound.receivedFd⟩, rfl, ?_, rfl, rfl⟩,
      fun _ => ⟨nofun, nofun⟩⟩
    rw [position, hPhase]
    rfl

end Passes

section Calls

variable {opts : Options} {rc next : ReactorConnection} {socket : List UInt8} {receives : List Receive}
variable {left : List UInt8} {middle : ReactorConnection}

theorem Moved.trans {more : List UInt8} {events later : List Event} (h : Moved opts rc middle taken events)
    (hNext : Moved opts middle next more later) :
    Moved opts rc next (taken ++ more) (events ++ later) where
  sound := hNext.sound
  bytes := by rw [h.bytes, hNext.bytes, List.append_assoc]
  run := run_append_of_eq h.run hNext.run
  closing := hNext.closing.trans h.closing
  streamActive := hNext.streamActive.trans h.streamActive

theorem Moved.ended {events later : List Event} {stage : Stage} (h : Moved opts rc next taken events)
    (hEnded : Ended opts next stage later) : Ended opts rc stage (events ++ later) := by
  obtain ⟨more, rest, version, hBytes, hRun⟩ := hEnded
  refine ⟨taken ++ more, rest, version, ?_, run_append_of_eq h.run hRun⟩
  rw [h.bytes, hBytes, List.append_assoc]

def ParsedSpec (opts : Options) (rc : ReactorConnection) (parsed : Parsed) : Prop :=
  match parsed.result with
  | .returned =>
    (∃ taken, Moved opts rc parsed.rc taken parsed.events ∧ unparsed parsed.rc = [] ∧ Ready parsed.rc) ∨
      ((parsed.rc.streamActive = true ∨ parsed.rc.closing = true) ∧ Ended opts rc .streaming parsed.events)
  | .threw error => Ended opts rc (.failed error) parsed.events
  | .outOfFuel => False

theorem parse_spec {fuel : Nat} (hFuel : available rc < fuel) (hSound : Sound rc) (hReady : Ready rc) :
    ParsedSpec opts rc (parse opts fuel [] rc) := by
  induction fuel generalizing rc with
  | zero => omega
  | succ fuel ih =>
    have hPass : PassSpec opts granted rc (parsePass opts granted rc) :=
      parsePass_spec nofun hSound hReady
    rw [parse, List.headD_nil, List.tail_nil]
    cases hCase : parsePass opts granted rc with
    | again next events =>
      rw [hCase] at hPass
      obtain ⟨hNext, taken, hSome, hMoved⟩ := hPass
      have hShorter : available next < fuel := by
        have hLength := congrArg List.length hMoved.bytes
        have hPositive := List.length_pos_of_ne_nil hSome
        rw [List.length_append, unparsed_length, unparsed_length] at hLength
        omega
      have hLater := ih hShorter hMoved.sound hNext
      unfold ParsedSpec at hLater ⊢
      dsimp only
      cases hResult : (parse opts fuel [] next).result with
      | returned =>
        rw [hResult] at hLater
        dsimp only at hLater ⊢
        obtain ⟨more, hMore, hEmpty, hReady⟩ | ⟨hClosed, hEnded⟩ := hLater
        · exact .inl ⟨_, hMoved.trans hMore, hEmpty, hReady⟩
        · exact .inr ⟨hClosed, hMoved.ended hEnded⟩
      | threw error =>
        rw [hResult] at hLater
        exact hMoved.ended hLater
      | outOfFuel =>
        rw [hResult] at hLater
        exact hLater.elim
    | stop last events =>
      rw [hCase] at hPass
      obtain ⟨taken, hMoved, hReady, hGranted⟩ | hStream := hPass
      · exact .inl ⟨taken, hMoved, hGranted rfl, hReady rfl⟩
      · exact .inr hStream
    | threw last error =>
      rw [hCase] at hPass
      exact hPass

theorem appendPending_eq (data : List UInt8) (hOffset : rc.pendingOffset ≤ rc.pending.length) :
    ∃ pending offset, appendPending rc data none = { rc with pending, pendingOffset := offset } ∧
      offset ≤ pending.length ∧ pending.drop offset = unparsed rc ++ data := by
  obtain ⟨hUnparsed, hBound⟩ := appendPending_unparsed data none hOffset
  refine ⟨_, _, ?_, hBound, hUnparsed⟩
  simp [appendPending]

def Fetched (rc : ReactorConnection) (socket : List UInt8) (next : ReactorConnection) (left : List UInt8) : Prop :=
  ∃ pending offset data, next = { rc with pending, pendingOffset := offset } ∧ socket = data ++ left ∧
    offset ≤ pending.length ∧ pending.drop offset = unparsed rc ++ data

theorem Fetched.nothing (hOffset : rc.pendingOffset ≤ rc.pending.length) : Fetched rc socket rc socket :=
  ⟨rc.pending, rc.pendingOffset, [], rfl, rfl, hOffset, (List.append_nil _).symm⟩

theorem Fetched.offset (h : Fetched rc socket next left) :
    next.pendingOffset ≤ next.pending.length := by
  obtain ⟨pending, offset, data, rfl, -, hOffset, -⟩ := h
  exact hOffset

theorem Fetched.trans {rest : List UInt8} (h : Fetched rc socket middle left) (hNext : Fetched middle left next rest) :
    Fetched rc socket next rest := by
  obtain ⟨pending, offset, data, rfl, rfl, -, hDrop⟩ := h
  obtain ⟨last, lastOffset, more, rfl, rfl, hLast, hAll⟩ := hNext
  refine ⟨last, lastOffset, data ++ more, rfl, (List.append_assoc ..).symm, hLast, ?_⟩
  rw [hAll, ← List.append_assoc, ← hDrop]
  rfl

theorem readPass_spec {receive : Receive} (hPlain : plain receive = true)
    (hOffset : rc.pendingOffset ≤ rc.pending.length) (readAhead : Nat) :
    ∃ next left, Fetched rc socket next left ∧
      (readPass opts rc socket readAhead receive = .parse next left ∨
        ∃ ahead, readPass opts rc socket readAhead receive = .more next left ahead) := by
  have hReads := readPass_reads opts rc socket readAhead receive
  generalize readPass opts rc socket readAhead receive = result at hReads ⊢
  cases hReads with
  | nothing => exact ⟨rc, socket, .nothing hOffset, .inl rfl⟩
  | interrupted => exact ⟨rc, socket, .nothing hOffset, .inr ⟨readAhead, rfl⟩⟩
  | stopped _ hStopped => exact absurd (hStopped.symm.trans hPlain) Bool.false_ne_true
  | invalid error => cases hPlain
  | some count fd data rest _ hSocket =>
    cases fd with
    | some fd => cases hPlain
    | none =>
      obtain ⟨pending, offset, hAppended, hBound, hDrop⟩ := appendPending_eq data hOffset
      refine ⟨_, rest, ⟨pending, offset, data, hAppended, hSocket, hBound, hDrop⟩, ?_⟩
      cases opts.strictBudget
      · exact .inr ⟨_, rfl⟩
      · exact .inl rfl

theorem readLoop_spec (hPlain : ∀ receive ∈ receives, plain receive = true)
    (hOffset : rc.pendingOffset ≤ rc.pending.length) (readAhead : Nat) :
    ∃ next left, readLoop opts rc socket readAhead receives = .parse next left ∧ Fetched rc socket next left := by
  induction receives generalizing rc socket readAhead with
  | nil => exact ⟨rc, socket, rfl, .nothing hOffset⟩
  | cons receive rest ih =>
    obtain ⟨next, left, hFetched, hPass⟩ := readPass_spec (hPlain receive (List.mem_cons_self ..)) hOffset readAhead
    rw [readLoop]
    obtain hPass | ⟨ahead, hPass⟩ := hPass
    · rw [hPass]
      exact ⟨next, left, rfl, hFetched⟩
    · rw [hPass]
      obtain ⟨last, final, hLoop, hLast⟩ :=
        ih (fun receive hMem => hPlain receive (List.mem_cons_of_mem _ hMem)) hFetched.offset ahead
      exact ⟨last, final, hLoop, hFetched.trans hLast⟩

theorem available_of_unparsed (h : unparsed rc = []) : available rc = 0 := by rw [← unparsed_length, h, List.length_nil]

theorem requestSize_pos (hBuffered : Buffered rc) (hReady : Ready rc) (hEmpty : unparsed rc = []) :
    1 ≤ requestSize opts rc 0 := by
  have hNone := available_of_unparsed hEmpty
  rw [requestSize]
  unfold reactorReadScratchSize reactorReadBatchSize
  split
  · cases hPhase : rc.phase with
    | header | requestPayload | streamRoute =>
      simp only [Buffered, hPhase] at hBuffered
      dsimp only
      omega
    | requestBudget => exact absurd hPhase hReady.1
    | streamBudget => exact absurd hPhase hReady.2
  · decide

/-- The call receives something, unless nothing has arrived. -/
def reads : List Receive → Bool
  | .bytes _ _ :: _ => true
  | _ => false

theorem readLoop_reads (hPlain : ∀ receive ∈ receives, plain receive = true)
    (hOffset : rc.pendingOffset ≤ rc.pending.length) (hSize : 1 ≤ requestSize opts rc 0)
    (hReads : reads receives = true)
    (hSome : socket ≠ []) (hRead : readLoop opts rc socket 0 receives = .parse next left) :
    left.length < socket.length := by
  have hPositive := List.length_pos_of_ne_nil hSome
  unfold reads at hReads
  split at hReads
  · rename_i count fd rest
    have hTake : 1 ≤ (socket.take (min (max 1 count) (requestSize opts rc 0))).length := by
      rw [List.length_take]
      omega
    have hBound : ¬ (reactorReadBatchSize ≤ 0 ∨ requestSize opts rc 0 = 0) := by
      unfold reactorReadBatchSize
      omega
    rw [readLoop, readPass, if_neg hBound] at hRead
    dsimp only at hRead
    rw [if_neg (List.ne_nil_of_length_pos hTake)] at hRead
    split at hRead
    · rename_i middle remaining ahead hMore
      split at hMore
      · cases hMore
      · cases hMore
        have hLater : ∀ receive ∈ rest, plain receive = true := fun receive hMem =>
          hPlain receive (List.mem_cons_of_mem _ hMem)
        obtain ⟨last, final, hLoop, pending, offset, data, -, hSocket, -⟩ :=
          readLoop_spec hLater (appendPending_unparsed _ fd hOffset).2 _
        cases hRead.symm.trans hLoop
        have hLength := congrArg List.length hSocket
        rw [List.length_drop, List.length_append] at hLength
        omega
    · rename_i hOther
      split at hRead
      · cases hRead
        rw [List.length_drop]
        omega
      · cases hRead
  · cases hReads

theorem Fetched.sound (h : Fetched rc socket next left) (hSound : Sound rc) : Sound next := by
  obtain ⟨pending, offset, data, rfl, -, hOffset, -⟩ := h
  exact ⟨hSound.header, hOffset, hSound.buffered, hSound.receivedFds, hSound.receivedFd⟩

theorem Fetched.position (h : Fetched rc socket next left) : position next = position rc := by
  obtain ⟨pending, offset, data, rfl, -, -, -⟩ := h
  rfl

theorem Fetched.bytes (h : Fetched rc socket next left) :
    unparsed next ++ left = unparsed rc ++ socket := by
  obtain ⟨pending, offset, data, rfl, rfl, -, hDrop⟩ := h
  rw [unparsed, hDrop, List.append_assoc]

def Rests (outcome : Outcome) (cursor : Position) : Prop :=
  match outcome.result with
  | .returned =>
    (Sound outcome.rc ∧ Ready outcome.rc ∧ unparsed outcome.rc = [] ∧ cursor = position outcome.rc ∧
        outcome.rc.closing = false ∧ outcome.rc.streamActive = false) ∨
      (cursor.mode.stage = .streaming ∧ ¬ (outcome.rc.closing = false ∧ outcome.rc.streamActive = false))
  | .threw error => cursor.mode.stage = .failed error
  | .outOfFuel => False

def Decodes (opts : Options) (rc : ReactorConnection) (socket : List UInt8) (outcome : Outcome) : Prop :=
  ∃ data cursor, socket = data ++ outcome.socket ∧
    (decoder opts).run (position rc) data = (cursor, outcome.events) ∧ Rests outcome cursor

theorem Ended.run {stage : Stage} {events : List Event} (h : Ended opts rc stage events)
    (hStage : blockSize stage = none) :
    ∃ version, (decoder opts).run (position rc) (unparsed rc) = (⟨⟨version, stage⟩, []⟩, events) := by
  obtain ⟨taken, rest, version, hBytes, hRun⟩ := h
  refine ⟨version, ?_⟩
  rw [hBytes, run_append_of_eq hRun (run_ended hStage rest), List.append_nil]

structure Open (rc : ReactorConnection) : Prop where
  sound : Sound rc
  ready : Ready rc
  unparsed : unparsed rc = []
  closing : rc.closing = false
  streamActive : rc.streamActive = false

theorem retryBudget_ready (opts : Options) (hReady : Ready rc) : retryBudget opts granted rc = (rc, true) := by
  unfold retryBudget
  cases hPhase : rc.phase with
  | requestBudget => exact absurd hPhase hReady.1
  | streamBudget => exact absurd hPhase hReady.2
  | header | requestPayload | streamRoute => rfl

theorem consume_reads (opts : Options) (hOpen : Open rc) (hPlain : ∀ receive ∈ receives, plain receive = true)
    (hReads : reads receives = true) (hSome : socket ≠ []) :
    (consume opts [] rc socket receives).socket.length < socket.length := by
  obtain ⟨next, left, hRead, -⟩ : ∃ next left,
      readLoop opts rc socket 0 receives = .parse next left ∧ Fetched rc socket next left :=
    readLoop_spec hPlain hOpen.sound.offset 0
  rw [consume, List.headD_nil, retryBudget_ready opts hOpen.ready]
  simp only [if_true, hRead]
  exact readLoop_reads hPlain hOpen.sound.offset (requestSize_pos hOpen.sound.buffered hOpen.ready hOpen.unparsed)
    hReads hSome hRead

theorem consume_decodes (hOpen : Open rc) (hPlain : ∀ receive ∈ receives, plain receive = true) :
    Decodes opts rc socket (consume opts [] rc socket receives) := by
  obtain ⟨fetched, left, hRead, hFetched⟩ : ∃ next left,
      readLoop opts rc socket 0 receives = .parse next left ∧ Fetched rc socket next left :=
    readLoop_spec hPlain hOpen.sound.offset 0
  have hSocket : socket = unparsed fetched ++ left := by
    rw [hFetched.bytes, hOpen.unparsed, List.nil_append]
  have hReady : Ready fetched ∧ fetched.closing = false ∧ fetched.streamActive = false := by
    obtain ⟨pending, offset, data, rfl, -⟩ := hFetched
    exact ⟨hOpen.ready, hOpen.closing, hOpen.streamActive⟩
  obtain ⟨hReady, hClosing, hStreaming⟩ := hReady
  have hParsed : ParsedSpec opts fetched (parse opts (available fetched + 1) [] fetched) :=
    parse_spec (Nat.lt_succ_self _) (hFetched.sound hOpen.sound) hReady
  rw [consume, List.headD_nil, List.tail_nil, retryBudget_ready opts hOpen.ready]
  simp only [if_true, hRead]
  unfold ParsedSpec at hParsed
  refine ⟨unparsed fetched, ?_⟩
  unfold Rests
  dsimp only
  rw [← hFetched.position]
  cases hResult : (parse opts (available fetched + 1) [] fetched).result with
  | returned =>
    rw [hResult] at hParsed
    obtain ⟨taken, hMoved, hEmpty, hLast⟩ | ⟨hClosed, hEnded⟩ := hParsed
    · have hTaken : taken = unparsed fetched := by rw [hMoved.bytes, hEmpty, List.append_nil]
      exact ⟨_, hSocket, hTaken ▸ hMoved.run, .inl ⟨hMoved.sound, hLast, hEmpty, rfl,
        hMoved.closing.trans hClosing, hMoved.streamActive.trans hStreaming⟩⟩
    · obtain ⟨version, hRun⟩ := hEnded.run rfl
      refine ⟨_, hSocket, hRun, .inr ⟨rfl, ?_⟩⟩
      rintro ⟨hNotClosing, hNotStreaming⟩
      rw [hNotClosing, hNotStreaming] at hClosed
      exact hClosed.elim nofun nofun
  | threw error =>
    rw [hResult] at hParsed
    obtain ⟨version, hRun⟩ := hParsed.run rfl
    exact ⟨_, hSocket, hRun, rfl⟩
  | outOfFuel =>
    rw [hResult] at hParsed
    exact hParsed.elim

theorem consumeAll_decodes (hOpen : Open rc) {calls : List (List Receive)}
    (hPlain : ∀ receives ∈ calls, ∀ receive ∈ receives, plain receive = true) :
    Decodes opts rc socket (consumeAll opts rc socket calls) := by
  induction calls generalizing rc socket with
  | nil =>
    exact ⟨[], _, rfl, rfl, .inl ⟨hOpen.sound, hOpen.ready, hOpen.unparsed, rfl, hOpen.closing, hOpen.streamActive⟩⟩
  | cons receives rest ih =>
    obtain ⟨data, cursor, hSocket, hRun, hRests⟩ : Decodes opts rc socket (consume opts [] rc socket receives) :=
      consume_decodes hOpen (hPlain receives (List.mem_cons_self ..))
    rw [consumeAll]
    dsimp only
    split
    · rename_i hGoes
      obtain ⟨hReturned, hClosing, hStreaming⟩ := hGoes
      rw [Rests, hReturned] at hRests
      obtain ⟨hSound, hReady, hEmpty, rfl, -, -⟩ | ⟨-, hClosed⟩ := hRests
      · obtain ⟨more, last, hMore, hLater, hLast⟩ := @ih _ (consume opts [] rc socket receives).socket
          ⟨hSound, hReady, hEmpty, hClosing, hStreaming⟩
          (fun receives hMem => hPlain receives (List.mem_cons_of_mem _ hMem))
        refine ⟨data ++ more, last, ?_, run_append_of_eq hRun hLater, hLast⟩
        rw [List.append_assoc, ← hMore]
        exact hSocket
      · exact absurd ⟨hClosing, hStreaming⟩ hClosed
    · exact ⟨data, cursor, hSocket, hRun, hRests⟩

def Complete (outcome : Outcome) : Prop :=
  outcome.socket = [] ∨ outcome.result ≠ .returned ∨ outcome.rc.closing = true ∨ outcome.rc.streamActive = true

theorem consumeAll_reads (hOpen : Open rc) {calls : List (List Receive)}
    (hPlain : ∀ receives ∈ calls, ∀ receive ∈ receives, plain receive = true) :
    Complete (consumeAll opts rc socket calls) ∨
      (consumeAll opts rc socket calls).socket.length + calls.countP reads ≤ socket.length := by
  induction calls generalizing rc socket with
  | nil => exact .inr (Nat.le_refl _)
  | cons receives rest ih =>
    have hFirst := hPlain receives (List.mem_cons_self ..)
    obtain ⟨data, cursor, hSocket, -, hRests⟩ : Decodes opts rc socket (consume opts [] rc socket receives) :=
      consume_decodes hOpen hFirst
    rw [consumeAll]
    dsimp only
    split
    · rename_i hGoes
      obtain ⟨hReturned, hClosing, hStreaming⟩ := hGoes
      rw [Rests, hReturned] at hRests
      obtain ⟨hSound, hReady, hEmpty, -⟩ | ⟨-, hClosed⟩ := hRests
      · obtain hComplete | hLess := @ih _ (consume opts [] rc socket receives).socket
          ⟨hSound, hReady, hEmpty, hClosing, hStreaming⟩ fun receives hMem =>
            hPlain receives (List.mem_cons_of_mem _ hMem)
        · exact .inl hComplete
        · have hLength := congrArg List.length hSocket
          rw [List.length_append] at hLength
          rw [List.countP_cons]
          by_cases hReads : reads receives = true
          · by_cases hSome : socket = []
            · refine .inl (.inl (List.length_eq_zero_iff.mp ?_))
              have hNone := congrArg List.length hSome
              rw [List.length_nil] at hNone
              dsimp only
              omega
            · have hShorter := consume_reads opts hOpen hFirst hReads hSome
              rw [if_pos hReads]
              exact .inr (by dsimp only; omega)
          · rw [if_neg hReads]
            exact .inr (by dsimp only; omega)
      · exact absurd ⟨hClosing, hStreaming⟩ hClosed
    · rename_i hStops
      refine .inl (.inr ?_)
      by_contra hNone
      simp only [not_or, ne_eq, Decidable.not_not, Bool.not_eq_true] at hNone
      exact hStops hNone

end Calls

inductive Frame
  | request (requestId : UInt32) (route body : List UInt8)
  | cancel (requestId : UInt32)
  deriving DecidableEq, Repr

def Frame.encode (version : UInt8) : Frame → List UInt8
  | .request requestId route body => requestFrame requestId route body version
  | .cancel requestId => cancelFrame requestId version

def Frame.event : Frame → Event
  | .request requestId route body => .request requestId route body none
  | .cancel requestId => .cancel requestId

def Frame.Valid (opts : Options) (wireVersion : UInt8) : Frame → Prop
  | .request _ route body =>
    (wireVersion = version ∨ wireVersion = cancellableVersion) ∧ route ≠ [] ∧
      route.length + body.length ≤ opts.maxMessageSize
  | .cancel requestId => wireVersion = cancellableVersion ∧ requestId ≠ 0

def Boundary (version : UInt8) (mode : Mode) : Prop :=
  mode.stage = .header ∧ (mode.version = 0 ∨ mode.version = version)

section Frames

variable {opts : Options} {wireVersion : UInt8} {mode : Mode}
variable {requestId : UInt32}

theorem observedVersion_boundary (hMode : Boundary wireVersion mode) :
    observedVersion mode.version wireVersion = wireVersion := by
  unfold observedVersion
  split
  · rfl
  · exact hMode.2.resolve_left ‹_›

theorem word_toNat_of_le (opts : Options) {size : Nat} (hSize : size ≤ opts.maxMessageSize) :
    (UInt32.ofNat size).toNat = size := by
  have hLimit := opts.messageSize.2
  rw [UInt32.toNat_ofNat']
  unfold maxWireField at hLimit
  omega

theorem Frame.Valid.sizes {route body : List UInt8}
    (hValid : Frame.Valid opts wireVersion (.request requestId route body)) :
    (UInt32.ofNat route.length).toNat = route.length ∧ (UInt32.ofNat body.length).toNat = body.length := by
  have hSize := hValid.2.2
  exact ⟨word_toNat_of_le opts (by omega), word_toNat_of_le opts (by omega)⟩

theorem finish_request {route body : List UInt8}
    (hValid : Frame.Valid opts wireVersion (.request requestId route body)) (hMode : Boundary wireVersion mode) :
    finishBlock opts mode (encodeHeader .request requestId (UInt32.ofNat route.length) (UInt32.ofNat body.length) 0
        wireVersion) =
      (⟨wireVersion, .payload (encodeHeader .request requestId (UInt32.ofNat route.length)
        (UInt32.ofNat body.length) 0 wireVersion) requestId (UInt32.ofNat route.length)
        (UInt32.ofNat body.length)⟩, []) := by
  obtain ⟨hRouteSize, hBodySize⟩ := hValid.sizes
  obtain ⟨hVersion, hRoute, hSize⟩ := hValid
  have hPositive := List.length_pos_of_ne_nil hRoute
  have hLimit := opts.messageSize.2
  have hLengths : validateRequestLengths route.length body.length opts.maxMessageSize = .ok () :=
    validateRequestLengths_ok.mpr ⟨hPositive, by omega, by omega, hSize⟩
  rw [finishBlock, hMode.1]
  dsimp only
  rw [finishHeader, decodeHeader_encodeHeader .request _ _ _ _ hVersion nofun]
  dsimp only
  rw [observedVersion_boundary hMode, announce, if_neg (not_not_intro rfl)]
  simp only [hRouteSize, hBodySize, hLengths]
  rfl

theorem finish_cancel (hValid : Frame.Valid opts wireVersion (.cancel requestId)) (hMode : Boundary wireVersion mode) :
    finishBlock opts mode (cancelFrame requestId wireVersion) = (⟨wireVersion, .header⟩, [.cancel requestId]) := by
  obtain ⟨hVersion, hId⟩ := hValid
  rw [finishBlock, hMode.1]
  dsimp only
  rw [finishHeader, cancelFrame,
    decodeHeader_encodeHeader _ _ _ _ _ (.inr hVersion) (fun _ => ⟨hVersion, hId, rfl, rfl⟩)]
  dsimp only
  rw [observedVersion_boundary hMode, announce, if_neg (not_not_intro rfl)]

theorem requestFrame_eq (requestId : UInt32) (route body : List UInt8) :
    requestFrame requestId route body wireVersion =
      encodeHeader .request requestId (UInt32.ofNat route.length) (UInt32.ofNat body.length) 0 wireVersion ++
        (route ++ body) := by
  simp [requestFrame, requestParts]

theorem run_header (opts : Options) (hMode : Boundary wireVersion mode) {header : HeaderBytes}
    (hLength : header.length = headerSize) :
    (decoder opts).run ⟨mode, []⟩ header = (⟨(finishBlock opts mode header).1, []⟩,
      (finishBlock opts mode header).2) := by
  have hSize : (decoder opts).size mode = some headerSize := congrArg blockSize hMode.1
  have hSome : header ≠ [] := by
    rintro rfl
    cases hLength
  exact run_complete hSize hSome (by rw [List.length_nil, Nat.zero_add, hLength])

theorem run_frame {frame : Frame} (hValid : frame.Valid opts wireVersion) (hMode : Boundary wireVersion mode) :
    (decoder opts).run ⟨mode, []⟩ (frame.encode wireVersion) = (⟨⟨wireVersion, .header⟩, []⟩, [frame.event]) := by
  cases frame with
  | cancel requestId =>
    have hLength : (cancelFrame requestId wireVersion).length = headerSize := rfl
    rw [Frame.encode, run_header opts hMode hLength, finish_cancel hValid hMode]
    rfl
  | request requestId route body =>
    obtain ⟨hRoute, hBody⟩ := hValid.sizes
    have hHeader := run_header opts hMode (encodeHeader_length .request requestId
      (UInt32.ofNat route.length) (UInt32.ofNat body.length) 0 wireVersion)
    rw [finish_request hValid hMode] at hHeader
    have hSome : route ++ body ≠ [] := fun hNil => hValid.2.1 (List.append_eq_nil_iff.mp hNil).1
    rw [Frame.encode, requestFrame_eq, run_append, hHeader, run_complete rfl hSome (by simp [hRoute, hBody])]
    simp only [decoder, finishBlock, List.nil_append, hRoute, List.take_left, List.drop_left]
    rfl

def heldBytes (cursor : Position) : List UInt8 :=
  match cursor.mode.stage with
  | .payload header _ _ _ | .streamRoute header _ _ => header ++ cursor.held
  | _ => cursor.held

inductive Fixed : Stage → Prop
  | header : Fixed .header
  | payload (header : HeaderBytes) (requestId arg1 arg2 : UInt32) : Fixed (.payload header requestId arg1 arg2)

theorem run_part {frame : Frame} (hValid : frame.Valid opts wireVersion) (hMode : Boundary wireVersion mode)
    {part rest : List UInt8} (hPart : frame.encode wireVersion = part ++ rest) (hRest : rest ≠ []) :
    ∃ cursor, (decoder opts).run ⟨mode, []⟩ part = (cursor, []) ∧ heldBytes cursor = part ∧
      Fixed cursor.mode.stage := by
  have hPositive := List.length_pos_of_ne_nil hRest
  have hLength := congrArg List.length hPart
  rw [List.length_append] at hLength
  have hSize : (decoder opts).size mode = some headerSize := congrArg blockSize hMode.1
  by_cases hShort : part.length < headerSize
  · refine ⟨_, run_short hSize (by simpa using hShort), ?_, ?_⟩
    · rw [heldBytes, hMode.1]
      rfl
    · rw [hMode.1]
      exact .header
  · cases frame with
    | cancel requestId =>
      have := encodeHeader_length .cancelRequest requestId 0 0 0 wireVersion
      rw [Frame.encode, cancelFrame, this] at hLength
      omega
    | request requestId route body =>
      obtain ⟨hRoute, hBody⟩ := hValid.sizes
      obtain ⟨header, hHeader⟩ : ∃ header, header = encodeHeader .request requestId (UInt32.ofNat route.length)
        (UInt32.ofNat body.length) 0 wireVersion := ⟨_, rfl⟩
      have hHeaderLength : header.length = headerSize := by rw [hHeader]; rfl
      rw [Frame.encode, requestFrame_eq, ← hHeader] at hPart
      obtain ⟨tail, rfl⟩ : header <+: part :=
        List.prefix_of_prefix_length_le ⟨_, rfl⟩ ⟨_, hPart.symm⟩ (by omega)
      rw [List.append_assoc, List.append_cancel_left_eq] at hPart
      have hTail := congrArg List.length hPart
      rw [List.length_append, List.length_append] at hTail
      have hFirst := run_header opts hMode hHeaderLength
      rw [hHeader, finish_request hValid hMode, ← hHeader] at hFirst
      have hSecond : (decoder opts).run ⟨⟨wireVersion, .payload header requestId (UInt32.ofNat route.length)
          (UInt32.ofNat body.length)⟩, []⟩ tail = (⟨_, [] ++ tail⟩, []) :=
        run_short rfl (by rw [hRoute, hBody, List.length_nil]; omega)
      exact ⟨_, run_append_of_eq hFirst hSecond, rfl, .payload ..⟩

end Frames

section Streams

variable {opts : Options} {wireVersion : UInt8} {frames : List Frame}

theorem start_boundary (version : UInt8) : Boundary version start.mode := ⟨rfl, .inl rfl⟩

theorem run_cut (hValid : ∀ frame ∈ frames, frame.Valid opts wireVersion) {front rest : List UInt8}
    (hBytes : frames.flatMap (Frame.encode wireVersion) = front ++ rest) :
    ∃ done later part cursor, frames = done ++ later ∧ front = done.flatMap (Frame.encode wireVersion) ++ part ∧
      Cut (Frame.encode wireVersion) later part rest ∧
      (decoder opts).run start front = (cursor, done.map Frame.event) ∧ heldBytes cursor = part ∧
      Fixed cursor.mode.stage := by
  obtain ⟨done, later, part, rfl, rfl, hCut⟩ := exists_cut hBytes
  obtain ⟨last, hLast, hDone⟩ : ∃ last, Boundary wireVersion last ∧
      (decoder opts).run ⟨start.mode, []⟩ (done.flatMap (Frame.encode wireVersion)) =
        (⟨last, []⟩, done.map Frame.event) := by
    apply run_frames _ (start_boundary wireVersion)
    intro frame hFrame mode hMode
    exact ⟨_, ⟨rfl, .inr rfl⟩, run_frame (hValid frame (List.mem_append_left _ hFrame)) hMode⟩
  obtain ⟨cursor, hPart, hHeld⟩ : ∃ cursor, (decoder opts).run ⟨last, []⟩ part = (cursor, []) ∧
      heldBytes cursor = part ∧ Fixed cursor.mode.stage := by
    cases hCut with
    | last =>
      refine ⟨_, rfl, ?_, ?_⟩
      · rw [heldBytes, hLast.1]
      · rw [hLast.1]
        exact .header
    | within hFrame hRest =>
      exact run_part (hValid _ (List.mem_append_right _ (List.mem_cons_self ..))) hLast hFrame hRest
  refine ⟨done, later, part, cursor, rfl, rfl, hCut, ?_, hHeld⟩
  have hRun := run_append_of_eq hDone hPart
  rwa [List.append_nil] at hRun

def unconsumed (rc : ReactorConnection) : List UInt8 :=
  (match rc.phase with
    | .header => rc.header.take rc.headerReceived
    | .requestBudget | .streamBudget => rc.header
    | .requestPayload => rc.header ++ (rc.routeBuffer ++ rc.bodyBuffer)
    | .streamRoute => rc.header ++ rc.routeBuffer) ++ unparsed rc

theorem unconsumed_eq (rc : ReactorConnection) : unconsumed rc = heldBytes (position rc) ++ unparsed rc := by
  unfold unconsumed position
  cases rc.phase <;> simp [heldBytes]

theorem accepted_open : Open accepted := ⟨accepted_sound, ⟨nofun, nofun⟩, rfl, rfl, rfl⟩

theorem complete_run {bytes : List UInt8} {outcome : Outcome} (h : Decodes opts accepted bytes outcome)
    (hComplete : Complete outcome) :
    ∃ cursor, (decoder opts).run start bytes = (cursor, outcome.events) ∧ Rests outcome cursor := by
  obtain ⟨data, cursor, rfl, hRun, hRests⟩ := h
  refine ⟨cursor, ?_, hRests⟩
  by_cases hAll : outcome.socket = []
  · rw [hAll, List.append_nil]
    exact hRun
  · have hEnded : blockSize cursor.mode.stage = none := by
      unfold Rests at hRests
      cases hResult : outcome.result with
      | returned =>
        rw [hResult] at hRests
        obtain ⟨-, -, -, -, hOpen, hFixed⟩ | ⟨hStage, -⟩ := hRests
        · simp [Complete, hAll, hResult, hOpen, hFixed] at hComplete
        · rw [hStage]
          rfl
      | threw error =>
        rw [hResult] at hRests
        rw [hRests]
        rfl
      | outOfFuel =>
        rw [hResult] at hRests
        exact hRests.elim
    have hRest := run_append_of_eq hRun (run_ended (D := decoder opts) hEnded outcome.socket)
    rwa [List.append_nil] at hRest

theorem Rests.result {first second : Outcome} {cursor : Position} (hFirst : Rests first cursor)
    (hSecond : Rests second cursor) : first.result = second.result := by
  have hStages : ∀ {outcome : Outcome}, Rests outcome cursor →
      (outcome.result = .returned ∧ ∀ error, cursor.mode.stage ≠ .failed error) ∨
        ∃ error, outcome.result = .threw error ∧ cursor.mode.stage = .failed error := by
    intro outcome hRests
    unfold Rests at hRests
    cases hResult : outcome.result with
    | returned =>
      rw [hResult] at hRests
      refine .inl ⟨rfl, ?_⟩
      obtain ⟨-, -, -, rfl, -, -⟩ | ⟨hStage, -⟩ := hRests
      · intro error hFailed
        unfold position at hFailed
        cases hPhase : outcome.rc.phase <;> rw [hPhase] at hFailed <;> cases hFailed
      · rw [hStage]
        nofun
    | threw error =>
      rw [hResult] at hRests
      exact .inr ⟨error, rfl, hRests⟩
    | outOfFuel =>
      rw [hResult] at hRests
      exact hRests.elim
  obtain ⟨hReturned, hOpen⟩ | ⟨error, hThrew, hFailed⟩ := hStages hFirst
  · obtain ⟨hOther, -⟩ | ⟨error, -, hFailed⟩ := hStages hSecond
    · rw [hReturned, hOther]
    · exact absurd hFailed (hOpen error)
  · obtain ⟨-, hOpen⟩ | ⟨other, hOther, hSame⟩ := hStages hSecond
    · exact absurd hFailed (hOpen error)
    · rw [hFailed] at hSame
      cases hSame
      rw [hThrew, hOther]

/-- The parser inverts the frame writer, however the stream is cut into receive results: it passes on
the frames that were received entirely, and its buffers hold the rest. For an arbitrary stream, what it
passes on and where it throws do not depend on the cuts, and as many calls with a receive as there are bytes
complete it. -/
theorem consume_fragments (opts : Options) :
    (∀ (wireVersion : UInt8) (frames : List Frame) (calls : List (List Receive)),
      (∀ frame ∈ frames, frame.Valid opts wireVersion) →
      (∀ receives ∈ calls, ∀ receive ∈ receives, plain receive = true) →
      ∃ outcome done later,
        consumeAll opts accepted (frames.flatMap (Frame.encode wireVersion)) calls = outcome ∧
        frames = done ++ later ∧ outcome.result = .returned ∧ outcome.events = done.map Frame.event ∧
        frames.flatMap (Frame.encode wireVersion) =
          done.flatMap (Frame.encode wireVersion) ++ unconsumed outcome.rc ++ outcome.socket ∧
        (∀ frame ∈ later.head?, (unconsumed outcome.rc).length < (frame.encode wireVersion).length) ∧
        (outcome.socket = [] → later = [] ∧ unconsumed outcome.rc = [])) ∧
    (∀ (bytes : List UInt8) (calls others : List (List Receive)),
      (∀ receives ∈ calls, ∀ receive ∈ receives, plain receive = true) →
      (∀ receives ∈ others, ∀ receive ∈ receives, plain receive = true) →
      Complete (consumeAll opts accepted bytes calls) → Complete (consumeAll opts accepted bytes others) →
      (consumeAll opts accepted bytes calls).events = (consumeAll opts accepted bytes others).events ∧
      (consumeAll opts accepted bytes calls).result = (consumeAll opts accepted bytes others).result) ∧
    (∀ (bytes : List UInt8) (calls : List (List Receive)),
      (∀ receives ∈ calls, ∀ receive ∈ receives, plain receive = true) →
      bytes.length ≤ calls.countP reads → Complete (consumeAll opts accepted bytes calls)) := by
  refine ⟨?_, ?_, ?_⟩
  · intro wireVersion frames calls hValid hPlain
    obtain ⟨outcome, hOutcome⟩ : ∃ outcome,
      consumeAll opts accepted (frames.flatMap (Frame.encode wireVersion)) calls = outcome := ⟨_, rfl⟩
    obtain ⟨data, cursor, hBytes, hRun, hRests⟩ :
        Decodes opts accepted (frames.flatMap (Frame.encode wireVersion)) outcome :=
      hOutcome ▸ consumeAll_decodes accepted_open hPlain
    obtain ⟨done, later, part, reached, hFrames, hData, hCut, hDone, hHeld, hFixed⟩ := run_cut hValid hBytes
    obtain ⟨rfl, hEvents⟩ := Prod.mk.inj (hRun.symm.trans hDone)
    have hStays : outcome.result = .returned ∧ unconsumed outcome.rc = part := by
      unfold Rests at hRests
      cases hResult : outcome.result with
      | returned =>
        rw [hResult] at hRests
        obtain ⟨-, -, hEmpty, rfl, -, -⟩ | ⟨hStage, -⟩ := hRests
        · rw [unconsumed_eq, hEmpty, List.append_nil]
          exact ⟨rfl, hHeld⟩
        · rw [hStage] at hFixed
          cases hFixed
      | threw error =>
        rw [hResult] at hRests
        rw [hRests] at hFixed
        cases hFixed
      | outOfFuel =>
        rw [hResult] at hRests
        exact hRests.elim
    obtain ⟨hReturned, hPart⟩ := hStays
    refine ⟨outcome, done, later, hOutcome, hFrames, hReturned, hEvents, ?_, ?_, ?_⟩
    · rw [hPart, ← hData]
      exact hBytes
    · rw [hPart]
      exact hCut.short
    · rw [hPart]
      exact hCut.complete
  · intro bytes calls others hPlain hOthers hComplete hOther
    obtain ⟨cursor, hRun, hRests⟩ := complete_run (consumeAll_decodes accepted_open hPlain) hComplete
    obtain ⟨second, hSecond, hLast⟩ := complete_run (consumeAll_decodes accepted_open hOthers) hOther
    obtain ⟨rfl, hEvents⟩ := Prod.mk.inj (hRun.symm.trans hSecond)
    exact ⟨hEvents, hRests.result hLast⟩
  · intro bytes calls hPlain hEnough
    refine (consumeAll_reads accepted_open hPlain).elim id fun hLess => .inl (List.length_eq_zero_iff.mp ?_)
    omega

def twoFrames : List Frame := [.request 7 [97, 98] [99], .cancel 7]

def threeCalls : List (List Receive) :=
  [[.bytes 5 none], [.interrupted, .bytes 16 none], [.bytes 9 none, .bytes 20 none]]

theorem consume_fragments_three_calls :
    (consumeAll smallMessages accepted (twoFrames.flatMap (Frame.encode 3)) threeCalls).events =
      twoFrames.map Frame.event := by
  have hValid : ∀ frame ∈ twoFrames, frame.Valid smallMessages 3 := by
    simp [twoFrames, Frame.Valid, smallMessages, cancellableVersion]
  obtain ⟨outcome, done, later, hOutcome, hFrames, -, hEvents, -, -, hAll⟩ :=
    (consume_fragments smallMessages).1 3 twoFrames threeCalls hValid (by decide)
  have hSocket : outcome.socket = [] := by
    rw [← hOutcome]
    decide
  rw [hOutcome, hEvents, hFrames, (hAll hSocket).1, List.append_nil]

end Streams

end EasyUds.Reactor.ParserDecode

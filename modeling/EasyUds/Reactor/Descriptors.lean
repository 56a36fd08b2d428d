import EasyUds.Reactor.ParserCalls
import EasyUds.Reactor.ParserDecode

/-! # Passed descriptors

The reactor queues a descriptor when it is received and takes one from the front of the queue when a
flagged header is complete. Frame and descriptor belong together as long as every frame says truly
whether it carries one, and as long as none waits while a worker has the connection.
-/

namespace EasyUds.Reactor.Descriptors

open Lib Protocol.Codec Reactor.Parser Reactor.ParserCalls
  Reactor.ParserDecode

def descriptorAt (stream : Stream) (position : Nat) : Option Nat := (attached stream position (position + 1)).head?

def flagged (header : HeaderBytes) : Bool :=
  match decodeHeader header with
  | .ok decoded => decoded.flags &&& carriesFdFlag != 0
  | .error _ => false

def decodes (header : HeaderBytes) : Bool :=
  match decodeHeader header with
  | .ok _ => true
  | .error _ => false

/-- A flag without a descriptor, or a descriptor on a frame without the flag. The flag itself is only
valid on one-shot requests. -/
def mismatched (stream : Stream) (head : Head) : Bool :=
  decodes head.header && (flagged head.header != (descriptorAt stream head.start).isSome)

/-- Every frame is sent with one call: a descriptor is attached to the first byte of a frame. -/
def framed (stream : Stream) (s : State) (action : Action) : Bool :=
  match action with
  | .pass _ =>
    let inner := if s.rc.phase = .header ∧ s.rc.headerReceived = 0 then s.parsed + 1 else s.parsed
    attached stream inner (s.parsed + passTake s.rc) == []
  | _ => true

/-- A header is complete that tells the truth, or one without a descriptor while none waits; a worker
gives the connection back without having met a descriptor and while none waits. -/
def truthful (stream : Stream) (s : State) (action : Action) : Bool :=
  match action with
  | .pass _ =>
    !completes s.rc || !mismatched stream (nextHead s) || (flagged (nextHead s).header && s.rc.receivedFds == [])
  | .rearm taken replayed busy =>
    s.rc.receivedFds == [] &&
      attached stream s.received (rearmStep stream s taken replayed busy).received == []
  | _ => true

structure Past (stream : Stream) (s : State) : Prop where
  genuine : ∀ head ∈ s.heads, head.header = bytes stream head.start (head.start + headerSize)
  own : ∀ exposed ∈ s.exposed, exposed.head ∈ s.heads ∧ exposed.fd = descriptorAt stream exposed.head.start ∧
    (flagged exposed.head.header = true ↔ exposed.fd.isSome = true)
  closes : ∀ head ∈ s.heads, mismatched stream head = true → s.call = .closed

/-- What is to hold of the headers and requests so far, and of the descriptors that wait. -/
structure Matched (stream : Stream) (s : State) : Prop extends Past stream s where
  waiting : s.call ≠ .closed →
    s.rc.receivedFds = attached stream (s.parsed - s.rc.headerReceived) s.received

variable {opts : Options} {stream : Stream} {s t : State} {action : Action} {answer : Answer}
variable {decoded : DecodedHeader}

theorem attached_one (position : Nat) :
    attached stream position (position + 1) = (descriptorAt stream position).toList := by
  have hLength : (attached stream position (position + 1)).length ≤ 1 := by
    refine (List.length_filterMap_le _ _).trans ?_
    rw [Lib.segment, List.length_take]
    omega
  rw [descriptorAt]
  generalize attached stream position (position + 1) = fds at hLength
  rcases fds with - | ⟨fd, - | ⟨next, rest⟩⟩
  · rfl
  · rfl
  · simp at hLength

/-- A pass has taken some bytes and left the rest as it was. -/
structure Shifted (rc next : ReactorConnection) : Prop where
  rest : unparsed next = (unparsed rc).drop (passTake rc)
  offset : next.pendingOffset ≤ next.pending.length
  streamActive : next.streamActive = rc.streamActive
  closing : next.closing = rc.closing

structure Kept (rc next : ReactorConnection) : Prop where
  pending : next.pending = rc.pending
  offset : next.pendingOffset = rc.pendingOffset
  header : next.header = rc.header
  headerReceived : next.headerReceived = rc.headerReceived
  streamActive : next.streamActive = rc.streamActive
  closing : next.closing = rc.closing

inductive Decided (rc : ReactorConnection) : Pass → Prop
  | threw (next : ReactorConnection) (error : Exception) : Decided rc (.threw next error)
  | cancelled (next : ReactorConnection) (requestId : UInt32) : Kept rc next → next.phase = rc.phase →
      decodes rc.header = true → flagged rc.header = false → next.receivedFds = rc.receivedFds →
        next.receivedFd = rc.receivedFd →
      Decided rc (.again next [.cancel requestId])
  | requested (next : ReactorConnection) (started : Bool) : Kept rc next →
      next.phase = (if started then .requestPayload else .requestBudget) → decodes rc.header = true →
      (flagged rc.header = true → rc.receivedFds ≠ []) →
      next.receivedFds = (if flagged rc.header then rc.receivedFds.tail else rc.receivedFds) →
      next.receivedFd = (if flagged rc.header then rc.receivedFds.head? else rc.receivedFd) →
      Decided rc (if started then .again next [] else .stop next [])
  | streamed (next : ReactorConnection) (started : Bool) : Kept rc next →
      next.phase = (if started then .streamRoute else .streamBudget) → decodes rc.header = true →
      flagged rc.header = false → next.receivedFds = rc.receivedFds → next.receivedFd = rc.receivedFd →
      Decided rc (if started then .again next [] else .stop next [])

theorem flag_request {header : HeaderBytes} (h : decodeHeader header = .ok decoded) (hType : decoded.type ≠ .request) :
    decoded.flags &&& carriesFdFlag = 0 := by
  unfold decodeHeader at h
  split at h
  · cases h
  · split at h
    · cases h
    · dsimp only at h
      split at h
      · cases h
      · split at h
        · cases h
        · split at h
          · cases h
          · rename_i hFlag
            split at h
            · cases h
            · split at h
              · cases h
              · cases h
                by_contra hSet
                exact hFlag ⟨hSet, .inl hType⟩

theorem beginRequestPayload_kept (rc : ReactorConnection) :
    Kept rc (beginRequestPayload opts answer.reserved rc).1 ∧
      (beginRequestPayload opts answer.reserved rc).1.phase =
        (if (beginRequestPayload opts answer.reserved rc).2 then .requestPayload else rc.phase) ∧
      (beginRequestPayload opts answer.reserved rc).1.receivedFds = rc.receivedFds ∧
      (beginRequestPayload opts answer.reserved rc).1.receivedFd = rc.receivedFd := by
  rw [beginRequestPayload]
  split <;> exact ⟨⟨rfl, rfl, rfl, rfl, rfl, rfl⟩, rfl, rfl, rfl⟩

theorem beginStreamRoute_kept (rc : ReactorConnection) :
    Kept rc (beginStreamRoute opts answer.reserved rc).1 ∧
      (beginStreamRoute opts answer.reserved rc).1.phase =
        (if (beginStreamRoute opts answer.reserved rc).2 then .streamRoute else rc.phase) ∧
      (beginStreamRoute opts answer.reserved rc).1.receivedFds = rc.receivedFds ∧
      (beginStreamRoute opts answer.reserved rc).1.receivedFd = rc.receivedFd := by
  rw [beginStreamRoute]
  split <;> exact ⟨⟨rfl, rfl, rfl, rfl, rfl, rfl⟩, rfl, rfl, rfl⟩

theorem wholeHeader_decided (rc : ReactorConnection) : Decided rc (wholeHeader opts answer rc) := by
  rw [wholeHeader]
  cases hDecode : decodeHeader rc.header with
  | error error => exact .threw rc error
  | ok decoded =>
    have hFlagged : flagged rc.header = (decoded.flags &&& carriesFdFlag != 0) := by rw [flagged, hDecode]
    have hDecodes : decodes rc.header = true := by rw [decodes, hDecode]
    dsimp only
    cases hAnnounce : announce opts (observedVersion rc.wireVersion decoded.version) (rc.receivedFds != []) decoded with
    | error error => exact .threw _ error
    | ok announced =>
      obtain ⟨-, ⟨rfl, hType⟩ | ⟨rfl, -, -, hDescriptor, -⟩ | ⟨rfl, hType, -⟩⟩ := announce_cases hAnnounce
      · have hUnflagged : flagged rc.header = false := by
          rw [hFlagged, flag_request hDecode (by rw [hType]; exact nofun)]
          rfl
        exact .cancelled _ _ ⟨rfl, rfl, rfl, rfl, rfl, rfl⟩ rfl hDecodes hUnflagged rfl rfl
      · dsimp only
        rw [startRequest]
        obtain ⟨hKept, hPhase, hFds, hFd⟩ := @beginRequestPayload_kept opts answer
          { rc with
            wireVersion := observedVersion rc.wireVersion decoded.version
            receivedFd := if decoded.flags &&& carriesFdFlag ≠ 0 then rc.receivedFds.head? else rc.receivedFd
            receivedFds := if decoded.flags &&& carriesFdFlag ≠ 0 then rc.receivedFds.tail else rc.receivedFds
            requestId := decoded.requestId
            requestFlags := decoded.flags
            arg1 := decoded.arg1
            arg2 := decoded.arg2
            payloadTotal := decoded.arg1.toNat + decoded.arg2.toNat
            payloadReceived := 0
            phase := .requestBudget }
        have hCondition : (flagged rc.header = true) = (decoded.flags &&& carriesFdFlag ≠ 0) := by
          rw [hFlagged, bne_iff_ne]
        refine .requested _ _ ⟨hKept.1, hKept.2, hKept.3, hKept.4, hKept.5, hKept.6⟩ hPhase hDecodes ?_ ?_ ?_
        · intro hSet hNone
          rw [hCondition] at hSet
          rw [hNone] at hDescriptor
          exact absurd (hDescriptor hSet) Bool.false_ne_true
        · simp only [hCondition]
          exact hFds
        · simp only [hCondition]
          exact hFd
      · have hUnflagged : flagged rc.header = false := by
          rw [hFlagged, flag_request hDecode (by rw [hType]; exact nofun)]
          rfl
        dsimp only
        rw [startStream]
        obtain ⟨hKept, hPhase, hFds, hFd⟩ := @beginStreamRoute_kept opts answer
          { rc with
            wireVersion := observedVersion rc.wireVersion decoded.version
            requestId := decoded.requestId
            arg1 := decoded.arg1
            arg2 := 0
            phase := .streamBudget }
        exact .streamed _ _ ⟨hKept.1, hKept.2, hKept.3, hKept.4, hKept.5, hKept.6⟩ hPhase hDecodes hUnflagged hFds hFd

structure Frozen (rc next : ReactorConnection) : Prop where
  header : next.header = rc.header
  headerReceived : next.headerReceived = rc.headerReceived
  receivedFds : next.receivedFds = rc.receivedFds

inductive Passes (rc : ReactorConnection) : Pass → Prop
  | threw (next : ReactorConnection) (error : Exception) : Passes rc (.threw next error)
  | part (next : ReactorConnection) : rc.phase = .header → completes rc = false → Shifted rc next →
      next.phase = .header → next.headerReceived = rc.headerReceived + passTake rc →
      next.headerReceived < headerSize → next.header = (copyHeader rc (passTake rc)).header →
      next.receivedFds = rc.receivedFds → next.receivedFd = rc.receivedFd → Passes rc (.stop next [])
  | whole (whole : ReactorConnection) (pass : Pass) : rc.phase = .header → completes rc = true → Shifted rc whole →
      whole.phase = .header → whole.headerReceived = 0 → whole.header = (copyHeader rc (passTake rc)).header →
      whole.receivedFds = rc.receivedFds → whole.receivedFd = rc.receivedFd → Decided whole pass → Passes rc pass
  | more (next : ReactorConnection) : rc.phase ≠ .header → Shifted rc next → Frozen rc next → next.phase = rc.phase →
      next.receivedFd = rc.receivedFd → Passes rc (.stop next [])
  | dispatched (next : ReactorConnection) (paused : Bool) (requestId : UInt32) (route body : List UInt8) :
      rc.phase = .requestPayload → Shifted rc next → Frozen rc next → next.phase = .header → next.receivedFd = none →
      Passes rc (if paused then .stop next [.request requestId route body rc.receivedFd]
        else .again next [.request requestId route body rc.receivedFd])
  | refused (next : ReactorConnection) (requestId : UInt32) (route : List UInt8) : rc.phase ≠ .header →
      next.closing = true → Passes rc (.stop next [.stream requestId route])
  | lent (next : ReactorConnection) (requestId : UInt32) (route : List UInt8) : rc.phase ≠ .header → Frozen rc next →
      next.phase = rc.phase → next.receivedFd = rc.receivedFd → next.streamActive = true → next.closing = rc.closing →
      next.pendingOffset ≤ next.pending.length → Passes rc (.stop next [.stream requestId route])

theorem released_shifted {rc copied : ReactorConnection} (hOffset : rc.pendingOffset ≤ rc.pending.length)
    (hTake : passTake rc ≤ available rc) (hPending : copied.pending = rc.pending)
    (hMoved : copied.pendingOffset = rc.pendingOffset + passTake rc) (hStream : copied.streamActive = rc.streamActive)
    (hClosing : copied.closing = rc.closing) : Shifted rc (releaseConsumedPending opts copied) := by
  have hInside : copied.pendingOffset ≤ copied.pending.length := by
    rw [hMoved, hPending]
    unfold available at hTake
    omega
  obtain ⟨pending, offset, hReleased, hBound, hRest⟩ := releaseConsumedPending_eq opts _ hInside
  rw [hReleased]
  refine ⟨?_, hBound, hStream, hClosing⟩
  change pending.drop offset = _
  rw [hRest, unparsed, hPending, hMoved, unparsed, List.drop_drop]

theorem released_frozen (copied : ReactorConnection) :
    Frozen copied (releaseConsumedPending opts copied) ∧
      (releaseConsumedPending opts copied).phase = copied.phase ∧
      (releaseConsumedPending opts copied).receivedFd = copied.receivedFd := by
  rw [releaseConsumedPending]
  split <;> exact ⟨⟨rfl, rfl, rfl⟩, rfl, rfl⟩

theorem headerPass_passes {rc : ReactorConnection} (hOffset : rc.pendingOffset ≤ rc.pending.length)
    (hPhase : rc.phase = .header) (hShort : rc.headerReceived < headerSize) :
    Passes rc (headerPass opts answer rc) := by
  have hTake : passTake rc = min (available rc) (headerSize - rc.headerReceived) := by rw [passTake, hPhase]
  have hLess : passTake rc ≤ available rc := by omega
  rw [headerPass, ← hTake]
  split
  · rename_i hPart
    obtain ⟨⟨hHeader, hReceived, hFds⟩, hKept, hFd⟩ := @released_frozen opts (copyHeader rc (passTake rc))
    refine .part _ hPhase ?_ (released_shifted hOffset hLess rfl rfl rfl rfl) (hKept.trans hPhase) hReceived ?_
      hHeader hFds hFd
    · have hNot : rc.headerReceived + passTake rc ≠ headerSize := hPart
      simp [completes, hNot]
    · have hNot : rc.headerReceived + passTake rc ≠ headerSize := hPart
      rw [hReceived]
      change rc.headerReceived + passTake rc < headerSize
      omega
  · rename_i hWhole
    obtain ⟨⟨hHeader, hReceived, hFds⟩, hKept, hFd⟩ :=
      @released_frozen opts { copyHeader rc (passTake rc) with headerReceived := 0 }
    refine .whole (releaseConsumedPending opts { copyHeader rc (passTake rc) with headerReceived := 0 }) _ hPhase ?_
      (released_shifted hOffset hLess rfl rfl rfl rfl) (hKept.trans hPhase) hReceived hHeader hFds
      hFd (wholeHeader_decided _)
    have hAll : rc.headerReceived + passTake rc = headerSize := not_not.mp hWhole
    simp [completes, hPhase, hAll]

structure Copied (rc next : ReactorConnection) : Prop where
  shifted : Shifted rc next
  frozen : Frozen rc next
  phase : next.phase = rc.phase
  receivedFd : next.receivedFd = rc.receivedFd

theorem released_copied {rc copied : ReactorConnection} (hOffset : rc.pendingOffset ≤ rc.pending.length)
    (hTake : passTake rc ≤ available rc) (hPending : copied.pending = rc.pending)
    (hMoved : copied.pendingOffset = rc.pendingOffset + passTake rc) (hStream : copied.streamActive = rc.streamActive)
    (hClosing : copied.closing = rc.closing) (hFrozen : Frozen rc copied) (hPhase : copied.phase = rc.phase)
    (hFd : copied.receivedFd = rc.receivedFd) : Copied rc (releaseConsumedPending opts copied) := by
  obtain ⟨⟨hHeader, hReceived, hFds⟩, hKept, hSame⟩ := @released_frozen opts copied
  exact ⟨released_shifted hOffset hTake hPending hMoved hStream hClosing,
    ⟨hHeader.trans hFrozen.1, hReceived.trans hFrozen.2, hFds.trans hFrozen.3⟩, hKept.trans hPhase, hSame.trans hFd⟩

theorem Copied.passes {rc next : ReactorConnection} (hPhase : rc.phase ≠ .header) (h : Copied rc next) :
    Passes rc (.stop next []) :=
  .more next hPhase h.shifted h.frozen h.phase h.receivedFd

theorem dispatchRequest_passes {rc full : ReactorConnection} (hPhase : rc.phase = .requestPayload)
    (h : Copied rc full) : Passes rc (dispatchRequest answer full) := by
  obtain ⟨⟨hRest, hOffset, hStream, hClosing⟩, ⟨hHeader, hReceived, hFds⟩, -, hFd⟩ := h
  rw [dispatchRequest, hFd]
  dsimp only
  split
  · exact .threw _ _
  · exact .dispatched _ true _ _ _ hPhase ⟨hRest, hOffset, hStream, hClosing⟩ ⟨hHeader, hReceived, hFds⟩ rfl rfl
  · exact .dispatched _ false _ _ _ hPhase ⟨hRest, hOffset, hStream, hClosing⟩ ⟨hHeader, hReceived, hFds⟩ rfl rfl

theorem payloadPass_passes {rc : ReactorConnection} (hOffset : rc.pendingOffset ≤ rc.pending.length)
    (hPhase : rc.phase = .requestPayload) : Passes rc (payloadPass opts answer rc) := by
  have hTake : passTake rc = min (available rc) (rc.payloadTotal - rc.payloadReceived) := by rw [passTake, hPhase]
  have hLess : passTake rc ≤ available rc := by omega
  rw [payloadPass, ← hTake]
  split
  · exact dispatchRequest_passes hPhase (released_copied hOffset hLess rfl rfl rfl rfl ⟨rfl, rfl, rfl⟩ rfl rfl)
  · exact Copied.passes (by rw [hPhase]; simp)
      (released_copied hOffset hLess rfl rfl rfl rfl ⟨rfl, rfl, rfl⟩ rfl rfl)

theorem dispatchStream_passes {rc full : ReactorConnection} (hPhase : rc.phase ≠ .header) (h : Copied rc full) :
    Passes rc (dispatchStream answer full) := by
  rw [dispatchStream]
  split
  · exact .lent _ _ _ hPhase ⟨h.frozen.1, h.frozen.2, h.frozen.3⟩ h.phase h.receivedFd rfl h.shifted.closing
      (Nat.le_refl _)
  · exact .refused _ _ _ hPhase rfl

theorem streamPass_passes {rc : ReactorConnection} (hOffset : rc.pendingOffset ≤ rc.pending.length)
    (hPhase : rc.phase = .streamRoute) : Passes rc (streamPass opts answer rc) := by
  have hTake : passTake rc = min (available rc) (rc.arg1.toNat - rc.routeBuffer.length) := by rw [passTake, hPhase]
  have hLess : passTake rc ≤ available rc := by omega
  have hInside : rc.phase ≠ .header := by rw [hPhase]; exact nofun
  rw [streamPass, ← hTake]
  split
  · exact dispatchStream_passes hInside (released_copied hOffset hLess rfl rfl rfl rfl ⟨rfl, rfl, rfl⟩ rfl rfl)
  · exact Copied.passes hInside (released_copied hOffset hLess rfl rfl rfl rfl ⟨rfl, rfl, rfl⟩ rfl rfl)

theorem parsePass_passes {rc : ReactorConnection} (hOffset : rc.pendingOffset ≤ rc.pending.length)
    (hShort : rc.headerReceived < headerSize) (hReady : Ready rc) : Passes rc (parsePass opts answer rc) := by
  obtain ⟨hRequest, hStream⟩ := hReady
  rw [parsePass]
  cases hPhase : rc.phase with
  | header => exact headerPass_passes hOffset hPhase hShort
  | requestBudget => exact absurd hPhase hRequest
  | requestPayload => exact payloadPass_passes hOffset hPhase
  | streamBudget => exact absurd hPhase hStream
  | streamRoute => exact streamPass_passes hOffset hPhase

def Requested (rc : ReactorConnection) : Prop := rc.phase = .requestBudget ∨ rc.phase = .requestPayload

structure Live (stream : Stream) (s : State) : Prop where
  header : s.rc.header.length = headerSize
  offset : s.rc.pendingOffset ≤ s.rc.pending.length
  short : s.rc.headerReceived < headerSize
  inside : s.rc.phase ≠ .header → s.rc.headerReceived = 0
  ready : s.call ≠ .idle → Ready s.rc
  parsed : s.rc.headerReceived ≤ s.parsed ∧ s.parsed ≤ s.received
  received : s.received ≤ stream.length
  ahead : (if s.rc.streamActive then s.lent else unparsed s.rc) = bytes stream s.parsed s.received
  reactor : s.call ≠ .idle → s.rc.streamActive = false
  copied : s.rc.header.take s.rc.headerReceived = bytes stream (s.parsed - s.rc.headerReceived) s.parsed
  plain : s.rc.headerReceived ≠ 0 → attached stream (s.parsed - s.rc.headerReceived + 1) s.parsed = []
  waiting : s.rc.receivedFds = attached stream (s.parsed - s.rc.headerReceived) s.received
  taken : Requested s.rc → s.current ∈ s.heads ∧ s.rc.receivedFd = descriptorAt stream s.current.start ∧
    flagged s.current.header = (descriptorAt stream s.current.start).isSome
  free : ¬Requested s.rc → s.rc.receivedFd = none

structure Inv (stream : Stream) (s : State) : Prop where
  live : s.call ≠ .closed → Live stream s
  past : Past stream s

theorem Inv.start : Inv stream start where
  live := fun _ =>
    { header := rfl
      offset := Nat.le_refl _
      short := Nat.zero_lt_succ _
      inside := fun _ => rfl
      ready := fun h => absurd rfl h
      parsed := ⟨Nat.le_refl _, Nat.le_refl _⟩
      received := Nat.zero_le _
      ahead := (bytes_nil 0).symm
      reactor := fun h => absurd rfl h
      copied := (bytes_nil 0).symm
      plain := fun h => absurd rfl h
      waiting := (attached_nil 0).symm
      taken := by rintro (h | h) <;> cases h
      free := fun _ => rfl }
  past := ⟨fun _ h => absurd h List.not_mem_nil, fun _ h => absurd h List.not_mem_nil,
    fun _ h => absurd h List.not_mem_nil⟩

theorem Live.unparsed (h : Live stream s) (hCall : s.call ≠ .idle) :
    Parser.unparsed s.rc = bytes stream s.parsed s.received := by
  have hAhead := h.ahead
  rwa [h.reactor hCall, if_neg Bool.false_ne_true] at hAhead

theorem Live.passTake_le (h : Live stream s) (hCall : s.call ≠ .idle) : s.parsed + passTake s.rc ≤ s.received := by
  have hLength : available s.rc = s.received - s.parsed := by
    rw [← unparsed_length, h.unparsed hCall, length_bytes h.received]
  have hTake : passTake s.rc ≤ available s.rc := by
    rw [passTake]
    split <;> exact Nat.min_le_left _ _
  have hParsed := h.parsed
  omega

theorem Live.copyHeader (h : Live stream s) (hCall : s.call ≠ .idle)
    (hFits : s.rc.headerReceived + passTake s.rc ≤ headerSize) :
    (Parser.copyHeader s.rc (passTake s.rc)).header.length = headerSize ∧
      (Parser.copyHeader s.rc (passTake s.rc)).header.take (s.rc.headerReceived + passTake s.rc) =
        bytes stream (s.parsed - s.rc.headerReceived) (s.parsed + passTake s.rc) := by
  have hTake := h.passTake_le hCall
  have hChunk : (Parser.unparsed s.rc).take (passTake s.rc) = bytes stream s.parsed (s.parsed + passTake s.rc) := by
    rw [h.unparsed hCall, take_bytes hTake]
  have hLength : (bytes stream s.parsed (s.parsed + passTake s.rc)).length = passTake s.rc := by
    rw [length_bytes (hTake.trans h.received)]
    omega
  obtain ⟨hWhole, hFront⟩ := header_copied (bytes stream s.parsed (s.parsed + passTake s.rc)) h.header
    (by rwa [hLength])
  rw [hLength] at hWhole hFront
  rw [Parser.copyHeader]
  dsimp only
  rw [hChunk]
  refine ⟨hWhole, hFront.trans ?_⟩
  rw [h.copied, ← bytes_append (Nat.sub_le _ _) (Nat.le_add_right _ _)]

theorem Live.plain_header (h : Live stream s) (hPhase : s.rc.phase = .header)
    (hFramed : framed stream s (.pass answer) = true) :
    attached stream (s.parsed - s.rc.headerReceived + 1) (s.parsed + passTake s.rc) = [] := by
  simp only [framed, hPhase, true_and, beq_iff_eq] at hFramed
  by_cases hZero : s.rc.headerReceived = 0
  · rw [if_pos hZero] at hFramed
    rwa [hZero, Nat.sub_zero]
  · rw [if_neg hZero] at hFramed
    have hParsed := h.parsed
    rw [attached_append (by omega : s.parsed - s.rc.headerReceived + 1 ≤ s.parsed) (Nat.le_add_right _ _),
      h.plain hZero, hFramed]
    rfl

structure Headed (stream : Stream) (s : State) : Prop where
  start : (nextHead s).start + headerSize = s.parsed + passTake s.rc
  header : (nextHead s).header = bytes stream (nextHead s).start ((nextHead s).start + headerSize)
  length : (nextHead s).header.length = headerSize
  copied : (nextHead s).header = (Parser.copyHeader s.rc (passTake s.rc)).header
  waiting : s.rc.receivedFds =
    (descriptorAt stream (nextHead s).start).toList ++ attached stream (s.parsed + passTake s.rc) s.received

theorem Live.headed (h : Live stream s) (hCall : s.call ≠ .idle) (hPhase : s.rc.phase = .header)
    (hCompletes : completes s.rc = true) (hFramed : framed stream s (.pass answer) = true) : Headed stream s := by
  have hHead : nextHead s =
      ⟨s.parsed - s.rc.headerReceived, (Parser.copyHeader s.rc (passTake s.rc)).header⟩ := by
    rw [nextHead, if_pos hCompletes]
  have hAll : s.rc.headerReceived + passTake s.rc = headerSize := by
    simp only [completes, Bool.and_eq_true, beq_iff_eq] at hCompletes
    exact hCompletes.2
  have hParsed := h.parsed
  have hTake := h.passTake_le hCall
  have hEnd : s.parsed - s.rc.headerReceived + headerSize = s.parsed + passTake s.rc := by omega
  obtain ⟨hLength, hCopied⟩ := h.copyHeader hCall (Nat.le_of_eq hAll)
  rw [hAll, List.take_of_length_le (Nat.le_of_eq hLength), ← hEnd] at hCopied
  have hWaiting := h.waiting
  rw [attached_append (by omega : s.parsed - s.rc.headerReceived ≤ s.parsed + passTake s.rc) hTake,
    attached_append (Nat.le_add_right _ 1) (by unfold headerSize at hAll; omega), attached_one,
    h.plain_header hPhase hFramed, List.append_nil] at hWaiting
  refine ⟨?_, ?_, ?_, ?_, ?_⟩ <;> rw [hHead]
  · exact hEnd
  · exact hCopied
  · exact hLength
  · exact hWaiting

theorem truthful_head (hCompletes : completes s.rc = true) (hTruthful : truthful stream s (.pass answer) = true)
    (hDecodes : decodes (nextHead s).header = true)
    (hAccepted : flagged (nextHead s).header = true → s.rc.receivedFds ≠ []) :
    flagged (nextHead s).header = (descriptorAt stream (nextHead s).start).isSome ∧
      mismatched stream (nextHead s) = false := by
  simp only [truthful, hCompletes, Bool.not_true, Bool.false_or, Bool.or_eq_true, Bool.not_eq_true', Bool.and_eq_true,
    beq_iff_eq] at hTruthful
  rcases hTruthful with hMatched | ⟨hFlagged, hNone⟩
  · refine ⟨?_, hMatched⟩
    simpa [mismatched, hDecodes] using hMatched
  · exact absurd hNone (hAccepted hFlagged)

structure Behind (s t : State) : Prop where
  received : t.received = s.received
  parsed : t.parsed = s.parsed + passTake s.rc
  current : t.current = nextHead s
  heads : t.heads = if completes s.rc then s.heads ++ [nextHead s] else s.heads
  ahead : (if t.rc.streamActive then t.lent else Parser.unparsed t.rc) = (Parser.unparsed s.rc).drop (passTake s.rc)
  offset : t.rc.pendingOffset ≤ t.rc.pending.length

theorem Live.part (h : Live stream s) (hCall : s.call ≠ .idle) (hPhase : s.rc.phase = .header) (hBehind : Behind s t)
    (hIdle : t.call = .idle) (hNext : t.rc.phase = .header)
    (hReceived : t.rc.headerReceived = s.rc.headerReceived + passTake s.rc)
    (hShort : t.rc.headerReceived < headerSize)
    (hHeader : t.rc.header = (Parser.copyHeader s.rc (passTake s.rc)).header)
    (hFds : t.rc.receivedFds = s.rc.receivedFds) (hFd : t.rc.receivedFd = s.rc.receivedFd)
    (hFramed : framed stream s (.pass answer) = true) : Live stream t := by
  have hTake := h.passTake_le hCall
  have hParsed := h.parsed
  have hStart : t.parsed - t.rc.headerReceived = s.parsed - s.rc.headerReceived := by
    rw [hBehind.parsed, hReceived]
    omega
  obtain ⟨hLength, hCopied⟩ := h.copyHeader hCall (by omega)
  have hNot : ∀ rc : ReactorConnection, rc.phase = .header → ¬Requested rc := by
    rintro rc hRc (hBudget | hPayload)
    · cases hRc.symm.trans hBudget
    · cases hRc.symm.trans hPayload
  exact
    { header := hHeader ▸ hLength
      offset := hBehind.offset
      short := hShort
      inside := fun hInside => absurd hNext hInside
      ready := fun hBusy => absurd hIdle hBusy
      parsed := by rw [hBehind.parsed, hBehind.received, hReceived]; omega
      received := hBehind.received ▸ h.received
      ahead := by rw [hBehind.ahead, h.unparsed hCall, drop_bytes, hBehind.parsed, hBehind.received]
      reactor := fun hBusy => absurd hIdle hBusy
      copied := by rw [hHeader, hStart, hReceived, hCopied, hBehind.parsed]
      plain := fun _ => by rw [hStart, hBehind.parsed, h.plain_header hPhase hFramed]
      waiting := by rw [hFds, hStart, hBehind.received, h.waiting]
      taken := fun hRequested => absurd hRequested (hNot _ hNext)
      free := fun _ => hFd.trans (h.free (hNot _ hPhase)) }

theorem Live.settled (h : Live stream s) (hCall : s.call ≠ .idle) (hBehind : Behind s t)
    (hReceived : t.rc.headerReceived = 0) (hHeader : t.rc.header.length = headerSize)
    (hBusy : t.call ≠ .idle → Ready t.rc ∧ t.rc.streamActive = false)
    (hFds : t.rc.receivedFds = attached stream (s.parsed + passTake s.rc) s.received)
    (hTaken : Requested t.rc → t.current ∈ t.heads ∧ t.rc.receivedFd = descriptorAt stream t.current.start ∧
      flagged t.current.header = (descriptorAt stream t.current.start).isSome)
    (hFree : ¬Requested t.rc → t.rc.receivedFd = none) : Live stream t where
  header := hHeader
  offset := hBehind.offset
  short := by rw [hReceived]; exact Nat.zero_lt_succ _
  inside := fun _ => hReceived
  ready := fun hIdle => (hBusy hIdle).1
  parsed := by
    have hTake := h.passTake_le hCall
    rw [hBehind.parsed, hBehind.received, hReceived]
    omega
  received := hBehind.received ▸ h.received
  ahead := by rw [hBehind.ahead, h.unparsed hCall, drop_bytes, hBehind.parsed, hBehind.received]
  reactor := fun hIdle => (hBusy hIdle).2
  copied := by rw [hReceived, Nat.sub_zero, bytes_nil, List.take_zero]
  plain := fun hSome => absurd hReceived hSome
  waiting := by rw [hFds, hReceived, Nat.sub_zero, hBehind.parsed, hBehind.received]
  taken := hTaken
  free := hFree

theorem Live.inner (h : Live stream s) (hCall : s.call ≠ .idle) (hPhase : s.rc.phase ≠ .header)
    (hFramed : framed stream s (.pass answer) = true) :
    s.rc.receivedFds = attached stream (s.parsed + passTake s.rc) s.received := by
  have hPlain : attached stream s.parsed (s.parsed + passTake s.rc) = [] := by
    simp only [framed, hPhase, false_and, if_false, beq_iff_eq] at hFramed
    exact hFramed
  rw [h.waiting, h.inside hPhase, Nat.sub_zero, attached_append (Nat.le_add_right _ _) (h.passTake_le hCall), hPlain]
  rfl

theorem not_requested {rc : ReactorConnection} (hRequest : rc.phase ≠ .requestBudget)
    (hPayload : rc.phase ≠ .requestPayload) : ¬Requested rc := by
  rintro (h | h)
  · exact hRequest h
  · exact hPayload h

theorem Kept.shifted {rc whole next : ReactorConnection} (h : Kept whole next) (hShifted : Shifted rc whole) :
    Shifted rc next where
  rest := by
    rw [Parser.unparsed, h.pending, h.offset]
    exact hShifted.rest
  offset := by
    rw [h.pending, h.offset]
    exact hShifted.offset
  streamActive := h.streamActive.trans hShifted.streamActive
  closing := h.closing.trans hShifted.closing

theorem Shifted.behind_again {next : ReactorConnection} (h : Shifted s.rc next) (hStream : s.rc.streamActive = false)
    (exposed : List Exposed) : Behind s { s.advance with rc := next, exposed } where
  received := rfl
  parsed := rfl
  current := rfl
  heads := rfl
  ahead := by
    rw [if_neg (by rw [h.streamActive, hStream]; exact Bool.false_ne_true)]
    exact h.rest
  offset := h.offset

theorem behind_stop {next : ReactorConnection} (hOffset : next.pendingOffset ≤ next.pending.length)
    (hRest : next.streamActive = false → Parser.unparsed next = (Parser.unparsed s.rc).drop (passTake s.rc))
    (call : Call) (exposed : List Exposed) :
    Behind s { s.advance with rc := next, call, lent := (Parser.unparsed s.rc).drop (passTake s.rc), exposed } where
  received := rfl
  parsed := rfl
  current := rfl
  heads := rfl
  ahead := by
    split
    · rfl
    · rename_i hStream
      exact hRest (Bool.not_eq_true _ ▸ hStream)
  offset := hOffset

theorem Past.pass (h : Past stream s) (hOpen : s.call ≠ .closed)
    (hHeads : t.heads = if completes s.rc then s.heads ++ [nextHead s] else s.heads)
    (hGenuine : completes s.rc = true →
      (nextHead s).header = bytes stream (nextHead s).start ((nextHead s).start + headerSize))
    (hExposed : ∀ exposed ∈ t.exposed, exposed ∈ s.exposed ∨ exposed.head ∈ s.heads ∧
      exposed.fd = descriptorAt stream exposed.head.start ∧
        (flagged exposed.head.header = true ↔ exposed.fd.isSome = true))
    (hClosed : t.call = .closed ∨ completes s.rc = false ∨ mismatched stream (nextHead s) = false) : Past stream t := by
  have hCases : ∀ head ∈ t.heads, head ∈ s.heads ∨ completes s.rc = true ∧ head = nextHead s := by
    intro head hHead
    rw [hHeads] at hHead
    split at hHead
    · rename_i hCompletes
      rcases List.mem_append.mp hHead with hOld | hNew
      · exact .inl hOld
      · exact .inr ⟨hCompletes, List.mem_singleton.mp hNew⟩
    · exact .inl hHead
  have hKept : ∀ head ∈ s.heads, head ∈ t.heads := by
    intro head hHead
    rw [hHeads]
    split
    · exact List.mem_append_left _ hHead
    · exact hHead
  refine ⟨fun head hHead => ?_, fun exposed hMem => ?_, fun head hHead hMismatched => ?_⟩
  · rcases hCases head hHead with hOld | ⟨hCompletes, rfl⟩
    · exact h.genuine head hOld
    · exact hGenuine hCompletes
  · rcases hExposed exposed hMem with hOld | ⟨hHead, hOwn⟩
    · exact ⟨hKept _ (h.own exposed hOld).1, (h.own exposed hOld).2⟩
    · exact ⟨hKept _ hHead, hOwn⟩
  · rcases hCases head hHead with hOld | ⟨hCompletes, rfl⟩
    · exact absurd (h.closes head hOld hMismatched) hOpen
    · rcases hClosed with hCall | hNot | hTrue
      · exact hCall
      · exact absurd (hNot.symm.trans hCompletes) Bool.false_ne_true
      · exact absurd (hTrue.symm.trans hMismatched) Bool.false_ne_true

theorem completes_phase {rc : ReactorConnection} (h : completes rc = true) : rc.phase = .header := by
  simp only [completes, Bool.and_eq_true, beq_iff_eq] at h
  exact h.1

theorem nextHead_inside (hPhase : s.rc.phase ≠ .header) : completes s.rc = false ∧ nextHead s = s.current := by
  have hNot : completes s.rc = false := by
    by_contra h
    exact hPhase (completes_phase (Bool.not_eq_false _ ▸ h))
  exact ⟨hNot, by rw [nextHead, if_neg (ne_of_eq_of_ne hNot Bool.false_ne_true)]⟩

theorem idle_of_open {closing : Bool} (h : (if closing then Call.closed else .idle) ≠ .closed) :
    (if closing then Call.closed else .idle) = .idle := by
  cases closing
  · rfl
  · exact absurd rfl h

theorem Live.within {next : ReactorConnection} (h : Live stream s) (hBusy : s.call ≠ .idle)
    (hPhase : s.rc.phase ≠ .header)
    (hFramed : framed stream s (.pass answer) = true) (hBehind : Behind s t) (hRc : t.rc = next)
    (hIdle : t.call = .idle)
    (hFrozen : Frozen s.rc next) (hNext : next.phase = s.rc.phase) (hFd : next.receivedFd = s.rc.receivedFd) :
    Live stream t := by
  subst hRc
  obtain ⟨hNot, hCurrent⟩ := nextHead_inside hPhase
  have hRequested : Requested t.rc ↔ Requested s.rc := by rw [Requested, Requested, hNext]
  refine h.settled hBusy hBehind (hFrozen.headerReceived.trans (h.inside hPhase)) (hFrozen.header ▸ h.header)
    (fun hNotIdle => absurd hIdle hNotIdle) (hFrozen.receivedFds.trans (h.inner hBusy hPhase hFramed)) ?_ ?_
  · intro hTaken
    rw [hBehind.current, hBehind.heads, hCurrent, hNot, if_neg Bool.false_ne_true, hFd]
    exact h.taken (hRequested.mp hTaken)
  · intro hFree
    exact hFd.trans (h.free fun hTaken => hFree (hRequested.mpr hTaken))

theorem Live.accepted {whole next : ReactorConnection} (h : Live stream s) (hBusy : s.call ≠ .idle)
    (hHeaded : Headed stream s) (hCompletes : completes s.rc = true) (hBehind : Behind s t) (hRc : t.rc = next)
    (hWhole : whole.headerReceived = 0) (hHeader : whole.header = (nextHead s).header) (hKept : Kept whole next)
    (hReady : t.call ≠ .idle → Ready next) (hStream : next.streamActive = false)
    (hFds : next.receivedFds = attached stream (s.parsed + passTake s.rc) s.received)
    (hTaken : Requested next → next.receivedFd = descriptorAt stream (nextHead s).start ∧
      flagged (nextHead s).header = (descriptorAt stream (nextHead s).start).isSome)
    (hFree : ¬Requested next → next.receivedFd = none) : Live stream t := by
  subst hRc
  refine h.settled hBusy hBehind (hKept.headerReceived.trans hWhole) ?_ (fun hNotIdle => ⟨hReady hNotIdle, hStream⟩)
    hFds ?_ hFree
  · rw [hKept.header, hHeader]
    exact hHeaded.length
  · intro hRequested
    rw [hBehind.current, hBehind.heads, if_pos hCompletes]
    exact ⟨List.mem_append_right _ (List.mem_singleton.mpr rfl), hTaken hRequested⟩

structure PassFacts (stream : Stream) (s : State) : Prop where
  live : Live stream s
  past : Past stream s
  parsing : s.call = .parsing
  framed : ∃ answer, framed stream s (.pass answer) = true
  truthful : ∃ answer, truthful stream s (.pass answer) = true

section Facts

variable (h : PassFacts stream s)
include h

theorem PassFacts.busy : s.call ≠ .idle := by rw [h.parsing]; exact nofun

theorem PassFacts.opened : s.call ≠ .closed := by rw [h.parsing]; exact nofun

theorem PassFacts.reactor : s.rc.streamActive = false := h.live.reactor h.busy

theorem PassFacts.genuine (hCompletes : completes s.rc = true) : Headed stream s := by
  obtain ⟨answer, hFramed⟩ := h.framed
  exact h.live.headed h.busy (completes_phase hCompletes) hCompletes hFramed

theorem PassFacts.threw (next : ReactorConnection) (error : Exception) : Inv stream (s.land (.threw next error)) :=
  ⟨fun hOpen => absurd rfl hOpen,
    h.past.pass h.opened rfl (fun hCompletes => (h.genuine hCompletes).header) (fun _ hMem => .inl hMem) (.inl rfl)⟩

theorem PassFacts.quiet {pass : Pass} (next : ReactorConnection) (events : List Event)
    (hPass : pass = .again next events ∨ pass = .stop next events) (hNone : exposures (nextHead s) events = [])
    (hTrue : completes s.rc = false ∨ mismatched stream (nextHead s) = false)
    (hLive : (s.land pass).call ≠ .closed → Live stream (s.land pass)) : Inv stream (s.land pass) := by
  refine ⟨hLive, h.past.pass h.opened ?_ (fun hCompletes => (h.genuine hCompletes).header) ?_ (.inr hTrue)⟩
  · rcases hPass with rfl | rfl <;> rfl
  · rcases hPass with rfl | rfl <;>
    · intro exposed hMem
      simp only [State.land, hNone, List.append_nil] at hMem
      exact .inl hMem

theorem PassFacts.accept {whole next : ReactorConnection} (started : Bool) (events : List Event)
    (hReady : started = true → Ready next) (hNone : exposures (nextHead s) events = [])
    (hMatched : mismatched stream (nextHead s) = false) (hCompletes : completes s.rc = true)
    (hShifted : Shifted s.rc whole) (hReceived : whole.headerReceived = 0)
    (hSame : whole.header = (nextHead s).header) (hKept : Kept whole next)
    (hQueue : next.receivedFds = attached stream (s.parsed + passTake s.rc) s.received)
    (hTaken : Requested next → next.receivedFd = descriptorAt stream (nextHead s).start ∧
      flagged (nextHead s).header = (descriptorAt stream (nextHead s).start).isSome)
    (hFree : ¬Requested next → next.receivedFd = none) :
    Inv stream (s.land (if started then .again next events else .stop next events)) := by
  have hNext := hKept.shifted hShifted
  have hStream : next.streamActive = false := hNext.streamActive.trans h.reactor
  cases started with
  | true =>
    exact h.quiet next events (.inl rfl) hNone (.inr hMatched) fun _ =>
      h.live.accepted h.busy (h.genuine hCompletes) hCompletes (hNext.behind_again h.reactor _) rfl
        hReceived hSame hKept (fun _ => hReady rfl) hStream hQueue hTaken hFree
  | false =>
    exact h.quiet next events (.inr rfl) hNone (.inr hMatched) fun hOpen =>
      h.live.accepted h.busy (h.genuine hCompletes) hCompletes (behind_stop hNext.offset (fun _ => hNext.rest) _ _) rfl
        hReceived hSame hKept (fun hBusy => absurd (idle_of_open hOpen) hBusy) hStream hQueue hTaken hFree

theorem PassFacts.decided {whole : ReactorConnection} {pass : Pass} (hCompletes : completes s.rc = true)
    (hShifted : Shifted s.rc whole) (hPhase : whole.phase = .header) (hReceived : whole.headerReceived = 0)
    (hHeader : whole.header = (Parser.copyHeader s.rc (passTake s.rc)).header)
    (hFds : whole.receivedFds = s.rc.receivedFds) (hFd : whole.receivedFd = s.rc.receivedFd)
    (hDecided : Decided whole pass) : Inv stream (s.land pass) := by
  obtain ⟨answer, hTruthful⟩ := h.truthful
  have hHeaded := h.genuine hCompletes
  have hSame : whole.header = (nextHead s).header := hHeader.trans hHeaded.copied.symm
  have hNone : whole.receivedFd = none := by
    rw [hFd]
    refine h.live.free (not_requested ?_ ?_) <;> rw [completes_phase hCompletes] <;> simp
  -- Without the flag nothing is attached to the frame, and the queue stays as it is.
  have hUnflagged : flagged whole.header = false → decodes whole.header = true →
      mismatched stream (nextHead s) = false ∧
        whole.receivedFds = attached stream (s.parsed + passTake s.rc) s.received ∧
        descriptorAt stream (nextHead s).start = none := by
    intro hFlag hDecodes
    rw [hSame] at hFlag hDecodes
    obtain ⟨hTruth, hMatched⟩ := truthful_head hCompletes hTruthful hDecodes
      (fun hFlagged => absurd (hFlag.symm.trans hFlagged) Bool.false_ne_true)
    have hNothing : descriptorAt stream (nextHead s).start = none :=
      Option.isNone_iff_eq_none.mp (by rw [← Option.not_isSome, ← hTruth, hFlag]; rfl)
    refine ⟨hMatched, ?_, hNothing⟩
    rw [hFds, hHeaded.waiting, hNothing]
    rfl
  cases hDecided with
  | threw next error => exact h.threw next error
  | cancelled next requestId hKept hNext hDecodes hFlag hQueue hOwn =>
    obtain ⟨hMatched, hRest, -⟩ := hUnflagged hFlag hDecodes
    have hFrame : next.phase = .header := hNext.trans hPhase
    refine h.accept true [.cancel requestId] (fun _ => ?_) rfl hMatched hCompletes hShifted hReceived hSame hKept
      (hQueue.trans hRest) ?_ (fun _ => hOwn.trans hNone)
    · rw [Ready, hFrame]
      exact ⟨by simp, by simp⟩
    · rintro (hBudget | hPayload)
      · cases hFrame.symm.trans hBudget
      · cases hFrame.symm.trans hPayload
  | requested next started hKept hNext hDecodes hAccepted hQueue hOwn =>
    have hReady : started = true → Ready next := by
      rintro rfl
      simp [Ready, hNext]
    have hRequested : Requested next := by
      cases started
      · exact .inl hNext
      · exact .inr hNext
    have hFrame : mismatched stream (nextHead s) = false ∧
        next.receivedFds = attached stream (s.parsed + passTake s.rc) s.received ∧
        next.receivedFd = descriptorAt stream (nextHead s).start ∧
        flagged (nextHead s).header = (descriptorAt stream (nextHead s).start).isSome := by
      by_cases hFlag : flagged whole.header = true
      · rw [if_pos hFlag] at hQueue hOwn
        have hSome := hAccepted hFlag
        rw [hSame] at hFlag hDecodes
        obtain ⟨hTruth, hMatched⟩ := truthful_head hCompletes hTruthful hDecodes (fun _ => hFds ▸ hSome)
        obtain ⟨fd, hAttached⟩ := Option.isSome_iff_exists.mp (hTruth.symm.trans hFlag)
        rw [hFds, hHeaded.waiting, hAttached] at hQueue hOwn
        exact ⟨hMatched, hQueue, hOwn.trans hAttached.symm, hTruth⟩
      · rw [if_neg hFlag] at hQueue hOwn
        obtain ⟨hMatched, hRest, hNothing⟩ := hUnflagged (Bool.not_eq_true _ ▸ hFlag) hDecodes
        refine ⟨hMatched, hQueue.trans hRest, (hOwn.trans hNone).trans hNothing.symm, ?_⟩
        rw [← hSame, hNothing]
        exact Bool.not_eq_true _ ▸ hFlag
    exact h.accept started [] hReady rfl hFrame.1 hCompletes hShifted hReceived hSame hKept hFrame.2.1
      (fun _ => hFrame.2.2) (fun hNot => absurd hRequested hNot)
  | streamed next started hKept hNext hDecodes hFlag hQueue hOwn =>
    obtain ⟨hMatched, hRest, -⟩ := hUnflagged hFlag hDecodes
    have hReady : started = true → Ready next := by
      rintro rfl
      simp [Ready, hNext]
    have hNot : ¬Requested next := by
      cases started <;> (rintro (hBudget | hPayload) <;> rw [hNext] at * <;> contradiction)
    exact h.accept started [] hReady rfl hMatched hCompletes hShifted hReceived hSame hKept (hQueue.trans hRest)
      (fun hRequested => absurd hRequested hNot) (fun _ => hOwn.trans hNone)

theorem PassFacts.dispatched {pass : Pass} (next : ReactorConnection) (requestId : UInt32) (route body : List UInt8)
    (hPass : pass = .stop next [.request requestId route body s.rc.receivedFd] ∨
      pass = .again next [.request requestId route body s.rc.receivedFd]) (hPhase : s.rc.phase = .requestPayload)
    (hShifted : Shifted s.rc next) (hFrozen : Frozen s.rc next) (hNext : next.phase = .header)
    (hFd : next.receivedFd = none) : Inv stream (s.land pass) := by
  obtain ⟨answer, hFramed⟩ := h.framed
  have hInside : s.rc.phase ≠ .header := by rw [hPhase]; simp
  obtain ⟨hNot, hCurrent⟩ := nextHead_inside hInside
  obtain ⟨hHead, hOwn, hFlag⟩ := h.live.taken (.inr hPhase)
  have hFree : ¬Requested next := not_requested (by rw [hNext]; simp) (by rw [hNext]; simp)
  have hReady : Ready next := by rw [Ready, hNext]; exact ⟨by simp, by simp⟩
  have hStream : next.streamActive = false := hShifted.streamActive.trans h.reactor
  have hSettled : ∀ t : State, Behind s t → t.rc = next → Live stream t := by
    rintro t hBehind rfl
    exact h.live.settled h.busy hBehind (hFrozen.headerReceived.trans (h.live.inside hInside))
      (hFrozen.header ▸ h.live.header) (fun _ => ⟨hReady, hStream⟩)
      (hFrozen.receivedFds.trans (h.live.inner h.busy hInside hFramed)) (fun hRequested => absurd hRequested hFree)
      (fun _ => hFd)
  have hExposed : ∀ exposed ∈ s.exposed ++ exposures (nextHead s) [.request requestId route body s.rc.receivedFd],
      exposed ∈ s.exposed ∨ exposed.head ∈ s.heads ∧ exposed.fd = descriptorAt stream exposed.head.start ∧
        (flagged exposed.head.header = true ↔ exposed.fd.isSome = true) := by
    intro exposed hMem
    rcases List.mem_append.mp hMem with hOld | hNew
    · exact .inl hOld
    · obtain rfl : exposed = ⟨nextHead s, s.rc.receivedFd⟩ := List.mem_singleton.mp hNew
      refine .inr ?_
      rw [hCurrent]
      refine ⟨hHead, hOwn, ?_⟩
      rw [hFlag, hOwn]
  have hGenuine := fun hCompletes => (h.genuine hCompletes).header
  rcases hPass with rfl | rfl
  · exact ⟨fun _ => hSettled _ (behind_stop hShifted.offset (fun _ => hShifted.rest) _ _) rfl,
      h.past.pass h.opened rfl hGenuine hExposed (.inr (.inl hNot))⟩
  · exact ⟨fun _ => hSettled _ (hShifted.behind_again h.reactor _) rfl,
      h.past.pass h.opened rfl hGenuine hExposed (.inr (.inl hNot))⟩

theorem PassFacts.step {pass : Pass} (hPasses : Passes s.rc pass) : Inv stream (s.land pass) := by
  obtain ⟨answer, hFramed⟩ := h.framed
  cases hPasses with
  | threw next error => exact h.threw next error
  | part next hPhase hNot hShifted hNext hReceived hShort hHeader hFds hFd =>
    exact h.quiet next [] (.inr rfl) rfl (.inl hNot)
      fun hOpen => h.live.part h.busy hPhase (behind_stop hShifted.offset (fun _ => hShifted.rest) _ _)
        (idle_of_open hOpen) hNext hReceived hShort hHeader hFds hFd hFramed
  | whole whole _ hPhase hCompletes hShifted hNext hReceived hHeader hFds hFd hDecided =>
    exact h.decided hCompletes hShifted hNext hReceived hHeader hFds hFd hDecided
  | more next hPhase hShifted hFrozen hNext hFd =>
    obtain ⟨hNot, -⟩ := nextHead_inside hPhase
    exact h.quiet next [] (.inr rfl) rfl (.inl hNot)
      fun hOpen => h.live.within h.busy hPhase hFramed (behind_stop hShifted.offset (fun _ => hShifted.rest) _ _) rfl
        (idle_of_open hOpen) hFrozen hNext hFd
  | dispatched next paused requestId route body hPhase hShifted hFrozen hNext hFd =>
    refine h.dispatched next requestId route body ?_ hPhase hShifted hFrozen hNext hFd
    cases paused
    · exact .inr rfl
    · exact .inl rfl
  | refused next requestId route hPhase hClosing =>
    obtain ⟨hNot, -⟩ := nextHead_inside hPhase
    refine h.quiet next _ (.inr rfl) rfl (.inl hNot)
      fun hOpen => absurd ?_ hOpen
    rw [State.land, hClosing]
    rfl
  | lent next requestId route hPhase hFrozen hNext hFd hStream hClosing hOffset =>
    obtain ⟨hNot, -⟩ := nextHead_inside hPhase
    exact h.quiet next _ (.inr rfl) rfl (.inl hNot)
      fun hOpen => h.live.within h.busy hPhase hFramed
        (behind_stop hOffset (fun hIdle => absurd (hIdle.symm.trans hStream) Bool.false_ne_true) _ _) rfl
        (idle_of_open hOpen) hFrozen hNext hFd

end Facts

theorem Live.keep (h : Live stream s) (hKept : Kept s.rc t.rc) (hRequested : Requested t.rc ↔ Requested s.rc)
    (hInside : t.rc.phase ≠ .header → s.rc.phase ≠ .header) (hFds : t.rc.receivedFds = s.rc.receivedFds)
    (hFd : t.rc.receivedFd = s.rc.receivedFd) (hParsed : t.parsed = s.parsed) (hReceived : t.received = s.received)
    (hLent : t.lent = s.lent) (hCurrent : t.current = s.current) (hHeads : t.heads = s.heads)
    (hBusy : t.call ≠ .idle → Ready t.rc ∧ t.rc.streamActive = false) : Live stream t where
  header := hKept.header ▸ h.header
  offset := by rw [hKept.pending, hKept.offset]; exact h.offset
  short := hKept.headerReceived ▸ h.short
  inside := fun hPhase => hKept.headerReceived.trans (h.inside (hInside hPhase))
  ready := fun hIdle => (hBusy hIdle).1
  parsed := by rw [hKept.headerReceived, hParsed, hReceived]; exact h.parsed
  received := hReceived ▸ h.received
  ahead := by
    rw [Parser.unparsed, hKept.pending, hKept.offset, hKept.streamActive, hLent, hParsed, hReceived]
    exact h.ahead
  reactor := fun hIdle => (hBusy hIdle).2
  copied := by rw [hKept.header, hKept.headerReceived, hParsed]; exact h.copied
  plain := by rw [hKept.headerReceived, hParsed]; exact h.plain
  waiting := by rw [hFds, hKept.headerReceived, hParsed, hReceived]; exact h.waiting
  taken := by rw [hRequested, hFd, hCurrent, hHeads]; exact h.taken
  free := by rw [hRequested, hFd]; exact h.free

theorem Past.keep (h : Past stream s) (hHeads : t.heads = s.heads) (hExposed : t.exposed = s.exposed)
    (hCall : t.call = .closed ∨ s.call ≠ .closed) : Past stream t := by
  refine ⟨hHeads ▸ h.genuine, ?_, ?_⟩
  · rw [hExposed, hHeads]
    exact h.own
  · rw [hHeads]
    intro head hHead hMismatched
    rcases hCall with hClosed | hOpen
    · exact hClosed
    · exact absurd (h.closes head hHead hMismatched) hOpen

theorem retryBudget_kept (rc : ReactorConnection) :
    Kept rc (retryBudget opts answer rc).1 ∧
      (Requested (retryBudget opts answer rc).1 ↔ Requested rc) ∧
      ((retryBudget opts answer rc).1.phase ≠ .header → rc.phase ≠ .header) ∧
      (retryBudget opts answer rc).1.receivedFds = rc.receivedFds ∧
      (retryBudget opts answer rc).1.receivedFd = rc.receivedFd ∧
      ((retryBudget opts answer rc).2 = true → Ready (retryBudget opts answer rc).1) := by
  have hRetried := retryBudget_cases opts answer rc
  generalize retryBudget opts answer rc = retried at hRetried ⊢
  cases hRetried with
  | ready hReady => exact ⟨⟨rfl, rfl, rfl, rfl, rfl, rfl⟩, Iff.rfl, id, rfl, rfl, fun _ => hReady⟩
  | refused => exact ⟨⟨rfl, rfl, rfl, rfl, rfl, rfl⟩, Iff.rfl, id, rfl, rfl, nofun⟩
  | request hPhase | stream hPhase =>
    exact ⟨⟨rfl, rfl, rfl, rfl, rfl, rfl⟩, by simp [Requested, hPhase], by simp [hPhase], rfl, rfl,
      fun _ => ⟨nofun, nofun⟩⟩

theorem Inv.enter (hInv : Inv stream s) (hIdle : s.call = .idle) (hStream : s.rc.streamActive = false) :
    Inv stream { s with
      rc := (retryBudget opts answer s.rc).1
      call := if (retryBudget opts answer s.rc).2 then .reading 0 else .idle } := by
  have hOpen : s.call ≠ .closed := by rw [hIdle]; exact nofun
  obtain ⟨hKept, hRequested, hInside, hFds, hFd, hReady⟩ := @retryBudget_kept opts answer s.rc
  refine ⟨fun _ => (hInv.live hOpen).keep hKept hRequested hInside hFds hFd rfl rfl rfl rfl rfl fun hBusy => ?_,
    hInv.past.keep rfl rfl (.inr hOpen)⟩
  refine ⟨hReady ?_, hKept.streamActive.trans hStream⟩
  by_contra hNot
  exact hBusy (if_neg hNot)

theorem Live.append {data : List UInt8} {fd : Option Nat} {call : Call} (h : Live stream s) (hBusy : s.call ≠ .idle)
    (hData : data = bytes stream s.received (s.received + data.length))
    (hEnd : s.received + data.length ≤ stream.length)
    (hFd : fd.toList = attached stream s.received (s.received + data.length)) :
    Live stream { s with rc := appendPending s.rc data fd, received := s.received + data.length, call } := by
  obtain ⟨hUnparsed, hOffset⟩ := appendPending_unparsed data fd h.offset
  have hStream := h.reactor hBusy
  have hParsed := h.parsed
  exact
    { header := h.header
      offset := hOffset
      short := h.short
      inside := h.inside
      ready := fun _ => h.ready hBusy
      parsed := ⟨h.parsed.1, by change s.parsed ≤ s.received + data.length; omega⟩
      received := hEnd
      ahead := by
        change (if s.rc.streamActive then s.lent else Parser.unparsed (appendPending s.rc data fd)) =
          bytes stream s.parsed (s.received + data.length)
        rw [hStream, if_neg Bool.false_ne_true, hUnparsed, h.unparsed hBusy,
          bytes_append h.parsed.2 (Nat.le_add_right _ _), ← hData]
      reactor := fun _ => hStream
      copied := h.copied
      plain := h.plain
      waiting := by
        change s.rc.receivedFds ++ fd.toList =
          attached stream (s.parsed - s.rc.headerReceived) (s.received + data.length)
        rw [hFd, h.waiting, ← attached_append (by omega) (Nat.le_add_right _ _)]
      taken := h.taken
      free := h.free }

theorem Inv.receive {readAhead : Nat} {receive : Receive} (hInv : Inv stream s) (hCall : s.call = .reading readAhead)
    (hDelivered : delivered stream s.received (receiveStep opts stream s readAhead receive).received receive = true) :
    Inv stream (receiveStep opts stream s readAhead receive) := by
  have hBusy : s.call ≠ .idle := by rw [hCall]; exact nofun
  have hOpen : s.call ≠ .closed := by rw [hCall]; exact nofun
  have hLive := hInv.live hOpen
  have hReceives := receiveStep_receives hLive.received hDelivered
  generalize receiveStep opts stream s readAhead receive = next at hReceives ⊢
  cases hReceives with
  | nothing call hNext =>
    exact ⟨fun _ => hLive.keep ⟨rfl, rfl, rfl, rfl, rfl, rfl⟩ Iff.rfl (fun h => h) rfl rfl rfl rfl rfl rfl rfl
      fun _ => ⟨hLive.ready hBusy, hLive.reactor hBusy⟩, hInv.past.keep rfl rfl (.inr hOpen)⟩
  | closed closing => exact ⟨fun hClosed => absurd rfl hClosed, hInv.past.keep rfl rfl (.inl rfl)⟩
  | some data fd hSome hData hEnd hFd hSize =>
    exact ⟨fun _ => hLive.append hBusy hData hEnd hFd, hInv.past.keep rfl rfl (.inr hOpen)⟩

theorem attached_within {first last inner : Nat} (h : attached stream first last = []) (hFirst : first ≤ inner)
    (hLast : inner ≤ last) : attached stream inner last = [] := by
  rw [attached_append hFirst hLast] at h
  exact (List.append_eq_nil_iff.mp h).2

theorem Inv.rearm {taken : Nat} {replayed busy : Bool} (hInv : Inv stream s) (hIdle : s.call = .idle)
    (hLeased : leased opts s.rc = true) (hReceived : (rearmStep stream s taken replayed busy).received ≤ stream.length)
    (hTruthful : truthful stream s (.rearm taken replayed busy) = true) :
    Inv stream (rearmStep stream s taken replayed busy) := by
  have hOpen : s.call ≠ .closed := by rw [hIdle]; simp
  have hLive := hInv.live hOpen
  have hParsed := hLive.parsed
  simp only [truthful, Bool.and_eq_true, beq_iff_eq] at hTruthful
  obtain ⟨hQueue, hPlain⟩ := hTruthful
  -- Under a continuation lease the reactor has parsed all it has received.
  have hBuffered : s.buffered = bytes stream s.parsed s.received := by
    rw [← hLive.ahead, State.buffered]
    split
    · rfl
    · rename_i hStream
      simp only [leased, hStream, Bool.false_or, Bool.and_eq_true, beq_iff_eq] at hLeased
      rw [Parser.unparsed, hLeased.2, List.drop_length]
  have hLength : s.buffered.length = s.received - s.parsed := by rw [hBuffered, length_bytes hLive.received]
  have hRead : s.parsed + taken ≤ (rearmStep stream s taken replayed busy).received := by
    change s.parsed + taken ≤ s.received + (taken + (if replayed then headerSize else 0) - s.buffered.length)
    omega
  have hMore : s.received ≤ (rearmStep stream s taken replayed busy).received := Nat.le_add_right _ _
  have hNothing : attached stream (s.parsed - s.rc.headerReceived)
      (rearmStep stream s taken replayed busy).received = [] := by
    rw [attached_append (by omega : s.parsed - s.rc.headerReceived ≤ s.received) hMore, ← hLive.waiting, hQueue, hPlain]
    rfl
  have hFd : (rearmed s.rc ((s.buffered ++ bytes stream s.received
      (rearmStep stream s taken replayed busy).received).drop taken) busy).receivedFd = none := by
    rw [rearmed]
    dsimp only
    split
    · rename_i hReused
      simp only [Bool.and_eq_true, Bool.not_eq_true'] at hReused
      simp only [leased, hReused.1, Bool.false_or, Bool.and_eq_true, beq_iff_eq] at hLeased
      exact hLive.free (not_requested (by rw [hLeased.1.1.2]; simp) (by rw [hLeased.1.1.2]; simp))
    · rfl
  refine ⟨fun _ => ?_, hInv.past.keep rfl rfl (.inr hOpen)⟩
  exact
    { header := rfl
      offset := Nat.zero_le _
      short := Nat.zero_lt_succ _
      inside := fun _ => rfl
      ready := fun hBusy => absurd hIdle hBusy
      parsed := ⟨Nat.zero_le _, hRead⟩
      received := hReceived
      ahead := by
        change (s.buffered ++ bytes stream s.received (rearmStep stream s taken replayed busy).received).drop taken =
          bytes stream (s.parsed + taken) _
        rw [hBuffered, ← bytes_append hParsed.2 hMore, drop_bytes]
      reactor := fun _ => rfl
      copied := (bytes_nil _).symm
      plain := fun hSome => absurd rfl hSome
      waiting := by
        change (if _ then s.rc.receivedFds else []) = attached stream (s.parsed + taken) _
        rw [hQueue, ite_self, attached_within hNothing (by omega) hRead]
      taken := by rintro (h | h) <;> cases h
      free := fun _ => hFd }

theorem Inv.next (hInv : Inv stream s) (hGuard : (framed stream s action && truthful stream s action) = true)
    (h : ParserCalls.step opts stream s action = some t) : Inv stream t := by
  rw [Bool.and_eq_true] at hGuard
  obtain ⟨hFramed, hTruthful⟩ := hGuard
  cases step_cases h with
  | enter answer hIdle hStream => exact hInv.enter hIdle hStream
  | receive readAhead receive hCall hDelivered => exact hInv.receive hCall hDelivered
  | pass answer hParsing =>
    have hLive := hInv.live (by rw [hParsing]; exact nofun)
    have hBusy : s.call ≠ .idle := by rw [hParsing]; exact nofun
    have hFacts : PassFacts stream s := ⟨hLive, hInv.past, hParsing, ⟨answer, hFramed⟩, ⟨answer, hTruthful⟩⟩
    exact hFacts.step (parsePass_passes hLive.offset hLive.short (hLive.ready hBusy))
  | resume hIdle =>
    have hOpen : s.call ≠ .closed := by rw [hIdle]; exact nofun
    exact ⟨fun _ => (hInv.live hOpen).keep ⟨rfl, rfl, rfl, rfl, rfl, rfl⟩ Iff.rfl (fun hPhase => hPhase) rfl
      rfl rfl rfl rfl rfl rfl fun hBusy => absurd hIdle hBusy, hInv.past.keep rfl rfl (.inr hOpen)⟩
  | rearm taken replayed busy hIdle hLeased _ hReceived =>
    exact hInv.rearm hIdle hLeased hReceived hTruthful
  | close => exact ⟨fun hClosed => absurd rfl hClosed, hInv.past.keep rfl rfl (.inl rfl)⟩

/-- A request sees the descriptor of its own frame, a frame that does not tell the truth ends the
connection, and what waits is attached to bytes that were received and not parsed. -/
theorem descriptor_of_own_frame
    (h : (machine opts stream).Reached
      (fun s action => (framed stream s action && truthful stream s action) = true) s) : Matched stream s := by
  have hInv : Inv stream s := h.invariant (I := Inv stream) (fun s (hInit : s = _) => hInit ▸ .start)
    (fun _ _ _ _ hInv hGuard hStep => hInv.next hGuard hStep)
  exact ⟨hInv.past, fun hOpen => (hInv.live hOpen).waiting⟩

def sent (flags : UInt16) (fd : Option Nat) : Stream :=
  ((encodeHeader .request 0 1 0 flags version).map fun byte => (byte, none)).modifyHead (fun first => (first.1, fd)) ++
    [(97, none)]

def twoRequests (fd : Option Nat) : Stream := sent 0 fd ++ sent carriesFdFlag (some 6)

def twoReceipts (fd : Option Nat) : List Action :=
  [.enter granted, .receive (.bytes 21 fd), .receive (.bytes 21 (some 6)), .receive .wouldBlock, .pass granted,
    .pass granted, .pass granted, .pass granted]

/-- The descriptor arrives with the second of two requests. -/
theorem descriptor_of_own_frame_second :
    ∃ s, (machine smallMessages (twoRequests none)).Reached (fun s action =>
        (framed (twoRequests none) s action && truthful (twoRequests none) s action) = true) s ∧
      s.exposed.map (·.fd) = [none, some 6] ∧ Matched (twoRequests none) s := by
  obtain ⟨s, hReached, hFds⟩ := Machine.exists_reached_of_exec (fun s => s.exposed.map (·.fd) = [none, some 6])
    (fun s action => framed (twoRequests none) s action && truthful (twoRequests none) s action)
    (twoReceipts none) (M := machine smallMessages (twoRequests none)) (s := start) rfl (by decide)
  exact ⟨s, hReached, hFds, descriptor_of_own_frame hReached⟩

/-- A descriptor on a frame without the flag stays in the queue, and the next request gets it. -/
theorem foreign_descriptor_exposed :
    ∃ s, (machine smallMessages (twoRequests (some 5))).Reached (fun s action =>
        framed (twoRequests (some 5)) s action = true) s ∧
      s.exposed.map (·.fd) = [none, some 5] ∧ s.call ≠ .closed ∧
      ¬Matched (twoRequests (some 5)) s := by
  obtain ⟨s, hReached, hFds, hOpen, hAttached⟩ := Machine.exists_reached_of_exec
    (fun s => s.exposed.map (·.fd) = [none, some 5] ∧ s.call ≠ .closed ∧
      s.exposed.map (fun exposed => descriptorAt (twoRequests (some 5)) exposed.head.start) = [some 5, some 6])
    (framed (twoRequests (some 5))) (twoReceipts (some 5)) (M := machine smallMessages (twoRequests (some 5)))
    (s := start) rfl (by decide)
  refine ⟨s, hReached, hFds, hOpen, fun hMatched => ?_⟩
  have hSame : s.exposed.map (·.fd) =
      s.exposed.map (fun exposed => descriptorAt (twoRequests (some 5)) exposed.head.start) :=
    List.map_congr_left fun exposed hMem => (hMatched.own exposed hMem).2.1
  rw [hFds, hAttached] at hSame
  cases hSame

end EasyUds.Reactor.Descriptors

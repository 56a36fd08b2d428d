import EasyUds.Reactor.ParserCalls
import EasyUds.Reactor.ParserDecode

/-! # The parser's place in a sequence of frames

A peer sends fixed requests and cancellations, and perhaps a last frame behind which the parser does not
read on: the start of a stream, or a frame that the parser refuses. A descriptor comes with the first
byte of its request. A pass of the parse loop moves bytes from what lies ahead of the parser to the part
of the current frame that it has, and passes the frame on when it is whole.
-/

namespace EasyUds.Reactor.ParserFrames

open Lib Protocol.Codec Transport.Io Reactor.Parser Reactor.ParserCalls

open Reactor.ParserDecode hiding Frame

inductive Frame
  | fixed (frame : ParserDecode.Frame) (fd : Option Nat)
  | stream (requestId : UInt32) (route : List UInt8)
  | refused (header : HeaderBytes) (rest : List UInt8)
  deriving DecidableEq, Repr

def Refused (opts : Options) (seen : UInt8) (header : HeaderBytes) : Prop :=
  ∀ decoded, decodeHeader header = .ok decoded →
    ∃ error, announce opts (observedVersion seen decoded.version) true decoded = .error error

namespace Frame

def header (wireVersion : UInt8) : Frame → HeaderBytes
  | .fixed (.request requestId route body) fd =>
    encodeHeader .request requestId (UInt32.ofNat route.length) (UInt32.ofNat body.length)
      (if fd.isSome then carriesFdFlag else 0) wireVersion
  | .fixed (.cancel requestId) _ => encodeHeader .cancelRequest requestId 0 0 0 wireVersion
  | .stream requestId route => encodeHeader .streamRequest requestId (UInt32.ofNat route.length) 0 0 wireVersion
  | .refused header _ => header

def payload : Frame → List UInt8
  | .fixed (.request _ route body) _ => route ++ body
  | .fixed (.cancel _) _ => []
  | .stream _ route => route
  | .refused _ rest => rest

def fd : Frame → Option Nat
  | .fixed _ fd => fd
  | _ => none

def events : Frame → List Event
  | .fixed (.request requestId route body) fd => [.request requestId route body fd]
  | .fixed (.cancel requestId) _ => [.cancel requestId]
  | .stream requestId route => [.stream requestId route]
  | .refused _ _ => []

def ends : Frame → Bool
  | .fixed .. => false
  | .stream .. | .refused .. => true

/-- `seen` is the version that the connection speaks before the frame, or zero. -/
def Valid (opts : Options) (wireVersion seen : UInt8) : Frame → Prop
  | .fixed frame fd =>
    frame.Valid opts wireVersion ∧ (fd.isSome = true → ∃ route body, frame = .request 0 route body)
  | .stream _ route =>
    (wireVersion = version ∨ wireVersion = cancellableVersion) ∧ route ≠ [] ∧ route.length ≤ opts.maxMessageSize
  | .refused header _ => header.length = headerSize ∧ Refused opts seen header

end Frame

def attach (fd : Option Nat) : List UInt8 → Stream
  | [] => []
  | first :: rest => (first, fd) :: rest.map fun byte => (byte, none)

def Frame.elements (wireVersion : UInt8) (frame : Frame) : Stream :=
  attach frame.fd (frame.header wireVersion ++ frame.payload)

def observed (wireVersion seen : UInt8) (done : List Frame) : UInt8 := if done.isEmpty then seen else wireVersion

/-- What the peer sends from a place between two frames on. -/
structure Sent (opts : Options) (wireVersion seen : UInt8) where
  frames : List Frame
  known : seen = 0 ∨ seen = wireVersion
  valid : ∀ done frame rest, frames = done ++ frame :: rest →
    frame.Valid opts wireVersion (observed wireVersion seen done) ∧ (frame.ends = true → rest = [])

def Sent.stream {opts : Options} {wireVersion seen : UInt8} (sent : Sent opts wireVersion seen) : Stream :=
  sent.frames.flatMap (Frame.elements wireVersion)

def Sent.events {opts : Options} {wireVersion seen : UInt8} (sent : Sent opts wireVersion seen) : List Event :=
  sent.frames.flatMap Frame.events

variable {requestId : UInt32} {route : List UInt8} {fd : Option Nat}

section Elements

variable {opts : Options} {wireVersion seen : UInt8} {frame : Frame}

theorem attach_bytes (fd : Option Nat) (bytes : List UInt8) : (attach fd bytes).map Prod.fst = bytes := by
  cases bytes with
  | nil => rfl
  | cons first rest =>
    rw [attach, List.map_cons, List.map_map]
    exact congrArg _ (List.map_id' rest)

theorem attach_cut {bytes : List UInt8} {front rest : Stream} (h : attach fd bytes = front ++ rest)
    (hSome : front ≠ []) : front.filterMap Prod.snd = fd.toList ∧ rest.filterMap Prod.snd = [] := by
  have hPlain : ∀ plain : List UInt8, (plain.map fun byte => (byte, none)).filterMap Prod.snd = ([] : List Nat) :=
    fun plain => List.filterMap_eq_nil_iff.mpr (by simp)
  obtain ⟨first, front, rfl⟩ := List.exists_cons_of_ne_nil hSome
  cases bytes with
  | nil => cases h
  | cons byte bytes =>
    rw [attach, List.cons_append] at h
    obtain ⟨rfl, hRest⟩ := List.cons.inj h
    have hNone := hPlain bytes
    rw [hRest, List.filterMap_append, List.append_eq_nil_iff] at hNone
    refine ⟨?_, hNone.2⟩
    cases fd with
    | none => exact hNone.1
    | some fd => exact congrArg (fd :: ·) hNone.1

theorem Frame.Valid.header_length (h : frame.Valid opts wireVersion seen) :
    (frame.header wireVersion).length = headerSize := by
  cases frame with
  | refused header rest => exact h.1
  | fixed frame fd => cases frame <;> exact encodeHeader_length ..
  | stream requestId route => exact encodeHeader_length ..

theorem Frame.elements_bytes (wireVersion : UInt8) (frame : Frame) :
    (frame.elements wireVersion).map Prod.fst = frame.header wireVersion ++ frame.payload := attach_bytes _ _

theorem Frame.Valid.elements_length (h : frame.Valid opts wireVersion seen) :
    (frame.elements wireVersion).length = headerSize + frame.payload.length := by
  rw [← List.length_map Prod.fst, Frame.elements_bytes, List.length_append, h.header_length]

theorem exists_rest {α : Type} {whole others front tail : List α} (h : whole ++ others = front ++ tail)
    (hLength : front.length ≤ whole.length) : ∃ more, whole = front ++ more ∧ tail = more ++ others := by
  obtain ⟨more, rfl⟩ : front <+: whole := List.prefix_of_prefix_length_le ⟨tail, h.symm⟩ ⟨others, rfl⟩ hLength
  rw [List.append_assoc, List.append_cancel_left_eq] at h
  exact ⟨more, rfl, h.symm⟩

theorem Frame.Valid.cut_header (h : frame.Valid opts wireVersion seen) {front more : Stream}
    (hElements : frame.elements wireVersion = front ++ more) (hLength : front.length = headerSize) :
    front.map Prod.fst = frame.header wireVersion ∧ more.map Prod.fst = frame.payload ∧
      front.filterMap Prod.snd = frame.fd.toList ∧ more.filterMap Prod.snd = [] := by
  have hBytes := Frame.elements_bytes wireVersion frame
  rw [hElements, List.map_append] at hBytes
  obtain ⟨hFront, hMore⟩ := List.append_inj hBytes (by rw [List.length_map, hLength, h.header_length])
  have hSome : front ≠ [] := by
    rintro rfl
    cases hLength
  exact ⟨hFront, hMore, attach_cut hElements hSome⟩

end Elements

section Headers

variable {opts : Options} (answer : Answer) {wireVersion seen : UInt8} {whole : ReactorConnection}

theorem observed_append (wireVersion seen : UInt8) (done more : List Frame) :
    observed wireVersion (observed wireVersion seen done) more = observed wireVersion seen (done ++ more) := by
  cases done with
  | nil => rfl
  | cons frame done => exact ite_self _

theorem decode_request {body : List UInt8}
    (hValid : Frame.Valid opts wireVersion seen (.fixed (.request requestId route body) fd)) :
    ∃ decoded, decodeHeader (Frame.header wireVersion (.fixed (.request requestId route body) fd)) = .ok decoded ∧
      decoded.type = .request ∧ decoded.version = wireVersion ∧ decoded.requestId = requestId ∧
      decoded.arg1.toNat = route.length ∧ decoded.arg2.toNat = body.length ∧
      decoded.flags &&& carriesWindowsHandleFlag = 0 ∧ (decoded.flags &&& carriesFdFlag ≠ 0 ↔ fd.isSome = true) := by
  obtain ⟨hFrame, hOneShot⟩ := hValid
  obtain ⟨hRoute, hBody⟩ := hFrame.sizes
  cases fd with
  | none =>
    exact ⟨_, decodeHeader_encodeHeader .request requestId _ _ wireVersion hFrame.1 nofun, rfl, rfl, rfl, hRoute, hBody,
      by dsimp only; decide, by dsimp only; decide⟩
  | some fd =>
    obtain ⟨_, _, hRequest⟩ := hOneShot rfl
    cases hRequest
    exact ⟨_, decodeHeader_carriesFd _ _ wireVersion hFrame.1, rfl, rfl, rfl, hRoute, hBody, by dsimp only; decide,
      by dsimp only [Option.isSome]; decide⟩

theorem wholeHeader_request {body : List UInt8}
    (hValid : Frame.Valid opts wireVersion seen (.fixed (.request requestId route body) fd))
    (hHeader : whole.header = Frame.header wireVersion (.fixed (.request requestId route body) fd))
    (hVersion : observedVersion whole.wireVersion wireVersion = wireVersion)
    (hWaiting : fd.isSome = true → whole.receivedFds ≠ []) :
    ∃ decoded, wholeHeader opts answer whole = startRequest opts answer { whole with wireVersion } decoded ∧
      decoded.requestId = requestId ∧ decoded.arg1.toNat = route.length ∧ decoded.arg2.toNat = body.length ∧
      (decoded.flags &&& carriesFdFlag ≠ 0 ↔ fd.isSome = true) := by
  obtain ⟨decoded, hDecode, hType, hSame, hId, hRoute, hBody, hHandle, hFlag⟩ := decode_request hValid
  obtain ⟨⟨-, hSome, hSize⟩, -⟩ := hValid
  have hLimit := opts.messageSize.2
  have hPositive := List.length_pos_of_ne_nil hSome
  have hLengths : validateRequestLengths decoded.arg1.toNat decoded.arg2.toNat opts.maxMessageSize = .ok () :=
    validateRequestLengths_ok.mpr ⟨by omega, by omega, by omega, by omega⟩
  have hCarried : ¬(decoded.flags &&& carriesFdFlag ≠ 0 ∧ (whole.receivedFds != []) = false) := by
    rintro ⟨hCarries, hNone⟩
    exact hWaiting (hFlag.mp hCarries) (by simpa using hNone)
  refine ⟨decoded, ?_, hId, hRoute, hBody, hFlag⟩
  rw [wholeHeader, hHeader, hDecode]
  dsimp only
  rw [hSame, hVersion, announce, if_neg (not_not_intro hSame.symm), hType]
  dsimp only
  rw [if_neg (not_not_intro hHandle), if_neg hCarried, hLengths]

theorem wholeHeader_cancel (hValid : Frame.Valid opts wireVersion seen (.fixed (.cancel requestId) fd))
    (hHeader : whole.header = Frame.header wireVersion (.fixed (.cancel requestId) fd))
    (hVersion : observedVersion whole.wireVersion wireVersion = wireVersion) :
    wholeHeader opts answer whole = .again { whole with wireVersion } [.cancel requestId] := by
  obtain ⟨⟨hThree, hId⟩, -⟩ := hValid
  rw [wholeHeader, hHeader, Frame.header,
    decodeHeader_encodeHeader _ _ _ _ _ (.inr hThree) (fun _ => ⟨hThree, hId, rfl, rfl⟩)]
  dsimp only
  rw [hVersion, announce, if_neg (not_not_intro rfl)]

theorem wholeHeader_stream (hValid : Frame.Valid opts wireVersion seen (.stream requestId route))
    (hHeader : whole.header = Frame.header wireVersion (.stream requestId route))
    (hVersion : observedVersion whole.wireVersion wireVersion = wireVersion) :
    ∃ decoded, wholeHeader opts answer whole = startStream opts answer { whole with wireVersion } decoded ∧
      decoded.requestId = requestId ∧ decoded.arg1.toNat = route.length := by
  obtain ⟨hKnown, hSome, hSize⟩ := hValid
  have hRoute : (UInt32.ofNat route.length).toNat = route.length := word_toNat_of_le opts hSize
  have hPositive := List.length_pos_of_ne_nil hSome
  have hTests : ¬(UInt32.ofNat route.length = 0 ∨ (0 : UInt32) ≠ 0 ∨
      (UInt32.ofNat route.length).toNat > opts.maxMessageSize) := by
    rintro (hZero | hBody | hLong)
    · rw [hZero] at hRoute
      have : (0 : UInt32).toNat = 0 := rfl
      omega
    · exact hBody rfl
    · omega
  refine ⟨⟨.streamRequest, requestId, UInt32.ofNat route.length, 0, 0, wireVersion⟩, ?_, rfl, hRoute⟩
  rw [wholeHeader, hHeader, Frame.header, decodeHeader_encodeHeader .streamRequest requestId _ _ wireVersion
    hKnown nofun]
  dsimp only
  rw [hVersion, announce, if_neg (not_not_intro rfl)]
  dsimp only
  rw [if_neg (by decide), if_neg hTests]

theorem announce_error {version : UInt8} {decoded : DecodedHeader} {error : Exception} (descriptor : Bool)
    (h : announce opts version true decoded = .error error) :
    ∃ other, announce opts version descriptor decoded = .error other := by
  cases descriptor with
  | true => exact ⟨error, h⟩
  | false =>
    unfold announce at h ⊢
    split at h
    · rename_i hVersion
      exact ⟨_, if_pos hVersion⟩
    · rename_i hVersion
      rw [if_neg hVersion]
      split at h
      · cases h
      · split at h
        · rename_i hHandle
          exact ⟨_, if_pos hHandle⟩
        · rename_i hHandle
          rw [if_neg hHandle]
          split
          · exact ⟨_, rfl⟩
          · rw [if_neg (by simp)] at h
            exact ⟨_, h⟩
      · exact ⟨_, h⟩
      · exact ⟨_, h⟩

theorem wholeHeader_refused (hRefused : Refused opts whole.wireVersion whole.header) :
    ∃ next error, wholeHeader opts answer whole = .threw next error := by
  rw [wholeHeader]
  cases hDecode : decodeHeader whole.header with
  | error error => exact ⟨_, _, rfl⟩
  | ok decoded =>
    obtain ⟨error, hError⟩ := hRefused decoded hDecode
    obtain ⟨other, hOther⟩ := announce_error (whole.receivedFds != []) hError
    dsimp only
    rw [hOther]
    exact ⟨_, _, rfl⟩

end Headers

def Place (wireVersion seen : UInt8) (later : List Frame) (rc : ReactorConnection) : Prop :=
  match rc.phase with
  | .header => rc.wireVersion = seen ∧ rc.receivedFd = none
  | .requestBudget | .requestPayload =>
    rc.wireVersion = wireVersion ∧ ∃ route body rest,
      later = .fixed (.request rc.requestId route body) rc.receivedFd :: rest ∧ rc.arg1.toNat = route.length ∧
        rc.arg2.toNat = body.length
  | .streamBudget | .streamRoute => ∃ route, later = [.stream rc.requestId route] ∧ rc.arg1.toNat = route.length

def missing (rc : ReactorConnection) : Nat :=
  match rc.phase with
  | .header => headerSize - rc.headerReceived
  | .requestPayload => rc.payloadTotal - rc.payloadReceived
  | .streamRoute => rc.arg1.toNat - rc.routeBuffer.length
  | .requestBudget | .streamBudget => 0

/-- The parser has `part` of the first of the `later` frames; `ahead` was received and not parsed. -/
structure Stands (wireVersion seen : UInt8) (later : List Frame) (part ahead : Stream) (rc : ReactorConnection) :
    Prop where
  header : rc.header.length = headerSize
  offset : rc.pendingOffset ≤ rc.pending.length
  buffered : Buffered rc
  bytesHeld : part.map Prod.fst = heldBytes (position rc)
  bytesAhead : ahead.map Prod.fst = unparsed rc
  waiting : rc.receivedFds =
    (if rc.phase = .header then part.filterMap Prod.snd else []) ++ ahead.filterMap Prod.snd
  place : Place wireVersion seen later rc
  closing : rc.closing = false
  streamActive : rc.streamActive = false

/-- The parser has gone on over the `finished` frames and passed them on. -/
structure Goes (wireVersion : UInt8) (later : List Frame) (part ahead : Stream) (events : List Event)
    (finished rest : List Frame) (held left : Stream) : Prop where
  frames : later = finished ++ rest
  bytes : part ++ ahead = finished.flatMap (Frame.elements wireVersion) ++ (held ++ left)
  events : events = finished.flatMap Frame.events
  shorter : left.length ≤ ahead.length ∧ (ahead ≠ [] → left.length < ahead.length)

def PassSpec (wireVersion seen : UInt8) (later : List Frame) (part ahead : Stream) (answer : Answer) : Pass → Prop
  | .again next events => ahead ≠ [] ∧ Ready next ∧ ∃ finished rest held left,
      Goes wireVersion later part ahead events finished rest held left ∧
        Stands wireVersion (observed wireVersion seen finished) rest held left next
  | .stop next events =>
    (∃ finished rest held left, Goes wireVersion later part ahead events finished rest held left ∧
        Stands wireVersion (observed wireVersion seen finished) rest held left next) ∨
      (Goes wireVersion later part ahead events later [] [] [] ∧ (next.streamActive = true ∨ next.closing = true) ∧
        (answer.streamTaken = true → next.closing = false))
  | .threw _ _ => answer = granted → ∃ header rest, later = [.refused header rest]

/-- The `later` frames are what the peer has left to send and the parser to parse, the `bytes`. -/
structure Coming (opts : Options) (wireVersion seen : UInt8) (later : List Frame) (bytes : Stream) : Prop where
  valid : ∀ frame rest, later = frame :: rest →
    frame.Valid opts wireVersion seen ∧ (frame.ends = true → rest = [])
  bytes : later.flatMap (Frame.elements wireVersion) = bytes
  known : seen = 0 ∨ seen = wireVersion

section Passes

variable {opts : Options} {answer : Answer} {wireVersion seen : UInt8} {later : List Frame}
  {part ahead socket : Stream} {rc : ReactorConnection}
variable {taken : Stream} {rest : List Frame}

theorem exists_taken {chunk rest : List UInt8} (h : ahead.map Prod.fst = chunk ++ rest) :
    ∃ taken left, ahead = taken ++ left ∧ taken.map Prod.fst = chunk ∧ left.map Prod.fst = rest ∧
      taken.length = chunk.length := by
  obtain ⟨taken, left, rfl, rfl, rfl⟩ := List.map_eq_append_iff.mp h
  exact ⟨taken, left, rfl, rfl, rfl, (List.length_map _).symm⟩

theorem shorter_of_taken {left : Stream} (hSome : taken ++ left ≠ [] → taken ≠ []) :
    left.length ≤ (taken ++ left).length ∧ (taken ++ left ≠ [] → left.length < (taken ++ left).length) := by
  rw [List.length_append]
  refine ⟨Nat.le_add_left _ _, fun h => ?_⟩
  have := List.length_pos_of_ne_nil (hSome h)
  omega

theorem Stands.part_length (h : Stands wireVersion seen later part ahead rc) :
    part.length = (heldBytes (position rc)).length := by
  rw [← h.bytesHeld, List.length_map]

structure Complete (wireVersion : UInt8) (frame : Frame) (part taken left : Stream)
    (whole : ReactorConnection) : Prop where
  header : whole.header = frame.header wireVersion
  length : whole.header.length = headerSize
  offset : whole.pendingOffset ≤ whole.pending.length
  some : taken ≠ []
  bytesHeld : (part ++ taken).map Prod.fst = whole.header
  bytesLeft : left.map Prod.fst = unparsed whole
  waiting : whole.receivedFds = frame.fd.toList ++ left.filterMap Prod.snd
  phase : whole.phase = .header
  received : whole.headerReceived = 0
  observed : observedVersion whole.wireVersion wireVersion = wireVersion
  receivedFd : whole.receivedFd = none
  closing : whole.closing = false
  streamActive : whole.streamActive = false

variable {left : Stream} {whole : ReactorConnection}

theorem Goes.begun (hSome : taken ++ left ≠ [] → taken ≠ []) :
    Goes wireVersion later part (taken ++ left) [] [] later (part ++ taken) left where
  frames := rfl
  bytes := by rw [List.flatMap_nil, List.nil_append, List.append_assoc]
  events := rfl
  shorter := shorter_of_taken hSome

/-- Between two frames. -/
theorem stands_boundary (hHeader : rc.header.length = headerSize) (hOffset : rc.pendingOffset ≤ rc.pending.length)
    (hPhase : rc.phase = .header) (hReceived : rc.headerReceived = 0) (hLeft : left.map Prod.fst = unparsed rc)
    (hFds : rc.receivedFds = left.filterMap Prod.snd) (hVersion : rc.wireVersion = seen) (hFd : rc.receivedFd = none)
    (hClosing : rc.closing = false) (hStream : rc.streamActive = false) :
    Stands wireVersion seen later [] left rc := by
  refine ⟨hHeader, hOffset, ?_, ?_, hLeft, ?_, ?_, hClosing, hStream⟩
  · simp only [Buffered, hPhase, hReceived]
    exact Nat.zero_lt_succ _
  · simp only [position, hPhase, hReceived, List.take_zero]
    rfl
  · rw [if_pos hPhase]
    exact hFds
  · simp only [Place, hPhase]
    exact ⟨hVersion, hFd⟩

theorem Complete.request {body : List UInt8}
    (h : Complete wireVersion (.fixed (.request requestId route body) fd) part taken left whole)
    (hValid : Frame.Valid opts wireVersion seen (.fixed (.request requestId route body) fd))
    (hLater : later = .fixed (.request requestId route body) fd :: rest) :
    PassSpec wireVersion seen later part (taken ++ left) answer (wholeHeader opts answer whole) := by
  have hWaiting : fd.isSome = true → whole.receivedFds ≠ [] := by
    intro hSome hNone
    obtain ⟨fd, rfl⟩ := Option.isSome_iff_exists.mp hSome
    rw [h.waiting] at hNone
    cases hNone
  obtain ⟨decoded, hPass, rfl, hRoute, hBody, hFlag⟩ := wholeHeader_request answer hValid h.header h.observed hWaiting
  have hPositive : 0 < decoded.arg1.toNat + decoded.arg2.toNat := by
    have := List.length_pos_of_ne_nil hValid.1.2.1
    omega
  have hFd : (if decoded.flags &&& carriesFdFlag ≠ 0 then whole.receivedFds.head? else whole.receivedFd) = fd := by
    cases fd with
    | none => rw [if_neg (by rw [hFlag]; exact Bool.false_ne_true), h.receivedFd]
    | some fd => rw [if_pos (hFlag.mpr rfl), h.waiting]; rfl
  have hFds : (if decoded.flags &&& carriesFdFlag ≠ 0 then whole.receivedFds.tail else whole.receivedFds) =
      left.filterMap Prod.snd := by
    cases fd with
    | none => rw [if_neg (by rw [hFlag]; exact Bool.false_ne_true), h.waiting]; rfl
    | some fd => rw [if_pos (hFlag.mpr rfl), h.waiting]; rfl
  have hGoes := @Goes.begun wireVersion later part taken left fun _ => h.some
  rw [hPass, startRequest, hFd, hFds, beginRequestPayload]
  dsimp only
  split
  · refine .inl ⟨[], later, part ++ taken, left, hGoes, h.length, h.offset, ?_, ?_, h.bytesLeft, rfl, ?_, h.closing,
      h.streamActive⟩
    · exact ⟨h.received, rfl, rfl, hPositive⟩
    · exact h.bytesHeld.trans (List.append_nil _).symm
    · exact ⟨rfl, route, body, rest, hLater, hRoute, hBody⟩
  · refine ⟨List.append_ne_nil_of_left_ne_nil h.some _, ⟨by simp, by simp⟩, [], later, part ++ taken, left, hGoes, h.length,
      h.offset, ?_, ?_, h.bytesLeft, rfl, ?_, h.closing, h.streamActive⟩
    · exact ⟨h.received, rfl, hPositive, (Nat.zero_min _).symm, (Nat.zero_sub _).symm⟩
    · exact h.bytesHeld.trans (List.append_nil _).symm
    · exact ⟨rfl, route, body, rest, hLater, hRoute, hBody⟩

theorem Complete.cancel (h : Complete wireVersion (.fixed (.cancel requestId) fd) part taken left whole)
    (hValid : Frame.Valid opts wireVersion seen (.fixed (.cancel requestId) fd))
    (hLater : later = .fixed (.cancel requestId) fd :: rest)
    (hElements : Frame.elements wireVersion (.fixed (.cancel requestId) fd) = part ++ taken) :
    PassSpec wireVersion seen later part (taken ++ left) answer (wholeHeader opts answer whole) := by
  have hPlain : fd = none := by
    rw [← Option.not_isSome_iff_eq_none]
    intro hSome
    obtain ⟨_, _, hRequest⟩ := hValid.2 hSome
    cases hRequest
  rw [wholeHeader_cancel answer hValid h.header h.observed]
  refine ⟨List.append_ne_nil_of_left_ne_nil h.some _, ⟨by simp [h.phase], by simp [h.phase]⟩,
    [.fixed (.cancel requestId) fd], rest, [], left, ⟨hLater, ?_, rfl, shorter_of_taken fun _ => h.some⟩,
    stands_boundary h.length h.offset h.phase h.received h.bytesLeft ?_ rfl h.receivedFd h.closing h.streamActive⟩
  · rw [List.flatMap_cons, List.flatMap_nil, hElements, List.append_nil, List.nil_append, List.append_assoc]
  · exact h.waiting.trans (by rw [Frame.fd, hPlain]; rfl)

theorem Complete.stream (h : Complete wireVersion (.stream requestId route) part taken left whole)
    (hValid : Frame.Valid opts wireVersion seen (.stream requestId route))
    (hLater : later = [.stream requestId route]) :
    PassSpec wireVersion seen later part (taken ++ left) answer (wholeHeader opts answer whole) := by
  obtain ⟨decoded, hPass, rfl, hRoute⟩ := wholeHeader_stream answer hValid h.header h.observed
  have hPositive : 0 < decoded.arg1.toNat := by
    have := List.length_pos_of_ne_nil hValid.2.1
    omega
  have hGoes := @Goes.begun wireVersion later part taken left fun _ => h.some
  rw [hPass, startStream, beginStreamRoute]
  dsimp only
  split
  · exact .inl ⟨[], later, part ++ taken, left, hGoes, h.length, h.offset, ⟨h.received, hPositive⟩,
      h.bytesHeld.trans (List.append_nil _).symm, h.bytesLeft, h.waiting, ⟨route, hLater, hRoute⟩, h.closing,
      h.streamActive⟩
  · exact ⟨List.append_ne_nil_of_left_ne_nil h.some _, ⟨by simp, by simp⟩, [], later, part ++ taken, left, hGoes, h.length,
      h.offset, ⟨h.received, hPositive⟩, h.bytesHeld.trans (List.append_nil _).symm, h.bytesLeft, h.waiting,
      ⟨route, hLater, hRoute⟩, h.closing, h.streamActive⟩

theorem passSpec_stays {next : ReactorConnection} (hEmpty : left = [])
    (hStands : Stands wireVersion seen later (part ++ taken) left next) :
    PassSpec wireVersion seen later part (taken ++ left) answer (.stop next []) := by
  refine .inl ⟨[], later, part ++ taken, left, .begun ?_, hStands⟩
  rw [hEmpty, List.append_nil]
  exact id

theorem Complete.spec {frame : Frame} {more : Stream} (h : Complete wireVersion frame part taken left whole)
    (hSeen : whole.wireVersion = seen) (hValid : frame.Valid opts wireVersion seen) (hLater : later = frame :: rest)
    (hEnds : frame.ends = true → rest = []) (hElements : frame.elements wireVersion = part ++ taken ++ more)
    (hPayload : more.map Prod.fst = frame.payload) :
    PassSpec wireVersion seen later part (taken ++ left) answer (wholeHeader opts answer whole) := by
  cases frame with
  | fixed frame fd =>
    cases frame with
    | request requestId route body => exact h.request hValid hLater
    | cancel requestId =>
      have hNone : more = [] := List.map_eq_nil_iff.mp hPayload
      rw [hNone, List.append_nil] at hElements
      exact h.cancel hValid hLater hElements
  | stream requestId route =>
    obtain rfl := hEnds rfl
    exact h.stream hValid hLater
  | refused header others =>
    obtain rfl := hEnds rfl
    have hRefused := hValid.2
    rw [← hSeen, show header = _ from h.header.symm] at hRefused
    obtain ⟨next, error, hThrew⟩ := wholeHeader_refused answer hRefused
    rw [hThrew]
    exact fun _ => ⟨header, others, hLater⟩

theorem headerPass_spec (h : Stands wireVersion seen later part ahead rc) (hPhase : rc.phase = .header)
    (hComing : Coming opts wireVersion seen later (part ++ ahead ++ socket)) :
    PassSpec wireVersion seen later part ahead answer (headerPass opts answer rc) := by
  have hShort : rc.headerReceived < headerSize := by
    have hBuffered := h.buffered
    rwa [Buffered, hPhase] at hBuffered
  have hHeldBytes : heldBytes (position rc) = rc.header.take rc.headerReceived := by rw [position, hPhase]; rfl
  have hPart : part.length = rc.headerReceived := by
    rw [h.part_length, hHeldBytes, List.length_take, h.header]
    omega
  have hPlace := h.place
  simp only [Place, hPhase] at hPlace
  obtain ⟨hVersion, hFd⟩ := hPlace
  have hWaiting := h.waiting
  rw [if_pos hPhase] at hWaiting
  obtain ⟨chunk, pending, offset, hChunk, hBound, hCases⟩ := headerPass_eq opts answer h.header h.offset hShort
  obtain ⟨taken, left, rfl, hTaken, hLeft, hLength⟩ := exists_taken (h.bytesAhead.trans hChunk)
  obtain ⟨hLess, hNothing, header, hSize, hFront, hPass⟩ | ⟨hWhole, hPass⟩ := hCases
  · rw [hPass]
    refine passSpec_stays (List.map_eq_nil_iff.mp (hLeft.trans hNothing))
      ⟨hSize, hBound, ?_, ?_, hLeft, ?_, ?_, h.closing, h.streamActive⟩
    · simp only [Buffered, hPhase]
      exact hLess
    · rw [List.map_append, h.bytesHeld, hTaken, hHeldBytes]
      simp only [position, hPhase, heldBytes, hFront]
    · rw [if_pos hPhase, List.filterMap_append, List.append_assoc, ← List.filterMap_append]
      exact hWaiting
    · simp only [Place, hPhase]
      exact ⟨hVersion, hFd⟩
  · have hSome : taken ≠ [] := by
      rintro rfl
      rw [List.length_nil] at hLength
      omega
    have hSize : (part ++ taken).length = headerSize := by
      rw [List.length_append]
      omega
    have hBytes := hComing.bytes
    rw [← List.append_assoc, List.append_assoc (part ++ taken)] at hBytes
    cases later with
    | nil =>
      rw [List.flatMap_nil] at hBytes
      have hNil := congrArg List.length hBytes
      rw [List.length_append, hSize, List.length_nil] at hNil
      unfold headerSize at hNil
      omega
    | cons frame rest =>
      obtain ⟨hFrame, hEnds⟩ := hComing.valid frame rest rfl
      rw [List.flatMap_cons] at hBytes
      obtain ⟨more, hElements, -⟩ := exists_rest hBytes (by rw [hSize, hFrame.elements_length]; omega)
      obtain ⟨hHeader, hPayload, hCarried, hPlain⟩ := hFrame.cut_header hElements hSize
      have hBlock : (part ++ taken).map Prod.fst = rc.header.take rc.headerReceived ++ chunk := by
        rw [List.map_append, h.bytesHeld, hTaken, hHeldBytes]
      have hComplete : Complete wireVersion frame part taken left
          { rc with
            header := rc.header.take rc.headerReceived ++ chunk
            headerReceived := 0
            pending
            pendingOffset := offset } :=
        { header := hBlock.symm.trans hHeader
          length := by
            dsimp only
            rw [← hBlock, List.length_map, hSize]
          offset := hBound
          some := hSome
          bytesHeld := hBlock
          bytesLeft := hLeft
          waiting := by
            dsimp only
            rw [hWaiting, List.filterMap_append, ← List.append_assoc, ← List.filterMap_append, hCarried]
          phase := hPhase
          received := rfl
          observed := by
            dsimp only
            rw [hVersion]
            obtain rfl | rfl := hComing.known
            · rfl
            · exact ite_self _
          receivedFd := hFd
          closing := h.closing
          streamActive := h.streamActive }
      rw [hPass]
      exact hComplete.spec hVersion hFrame rfl hEnds hElements hPayload

/-- Behind its header a frame carries no descriptor. -/
theorem Stands.copied {frame : Frame} {held : List UInt8} {others : Stream}
    (h : Stands wireVersion seen later part (taken ++ left) rc) (hPhase : rc.phase ≠ .header)
    (hHeld : heldBytes (position rc) = rc.header ++ held) (hFrame : frame.Valid opts wireVersion seen)
    (hBytes : frame.elements wireVersion ++ others = part ++ (taken ++ left) ++ socket)
    (hFits : held.length + taken.length ≤ frame.payload.length) :
    rc.receivedFds = left.filterMap Prod.snd ∧
      (held.length + taken.length = frame.payload.length → frame.elements wireVersion = part ++ taken ∧
        held ++ taken.map Prod.fst = frame.payload ∧ left ++ socket = others) := by
  have hPart : part.length = headerSize + held.length := by rw [h.part_length, hHeld, List.length_append, h.header]
  have hSome : part ≠ [] := by
    rintro rfl
    rw [List.length_nil] at hPart
    unfold headerSize at hPart
    omega
  have hElements := hFrame.elements_length
  rw [← List.append_assoc, List.append_assoc (part ++ taken)] at hBytes
  obtain ⟨more, hFront, hMore⟩ := exists_rest hBytes (by rw [hElements, List.length_append]; omega)
  constructor
  · have hCut := (attach_cut ((List.append_assoc ..).symm.trans hFront.symm).symm hSome).2
    rw [List.filterMap_append, List.append_eq_nil_iff] at hCut
    rw [h.waiting, if_neg hPhase, List.nil_append, List.filterMap_append, hCut.1, List.nil_append]
  · intro hSize
    have hNone : more = [] := by
      have hLength := congrArg List.length hFront
      rw [hElements, List.length_append, List.length_append] at hLength
      exact List.length_eq_zero_iff.mp (by omega)
    rw [hNone, List.append_nil] at hFront
    rw [hNone, List.nil_append] at hMore
    have hContent := Frame.elements_bytes wireVersion frame
    rw [hFront, List.map_append, h.bytesHeld, hHeld, List.append_assoc] at hContent
    exact ⟨hFront, (List.append_inj hContent (by rw [h.header, hFrame.header_length])).2, hMore⟩

theorem payloadPass_spec (h : Stands wireVersion seen later part ahead rc) (hPhase : rc.phase = .requestPayload)
    (hComing : Coming opts wireVersion seen later (part ++ ahead ++ socket)) :
    PassSpec wireVersion seen later part ahead answer (payloadPass opts answer rc) := by
  have hBuffered := h.buffered
  simp only [Buffered, hPhase] at hBuffered
  obtain ⟨hReceived, hTotal, hMissing, hRoute, hBody⟩ := hBuffered
  have hHeldBytes : heldBytes (position rc) = rc.header ++ (rc.routeBuffer ++ rc.bodyBuffer) := by
    rw [position, hPhase]
    rfl
  have hPlace := h.place
  simp only [Place, hPhase] at hPlace
  obtain ⟨hVersion, route, body, rest, hLater, hArg1, hArg2⟩ := hPlace
  obtain ⟨chunk, route', body', pending, offset, hChunk, hBound, hJoin, hRouteNext, hBodyNext, hCases⟩ :=
    payloadPass_eq opts answer h.offset hMissing hRoute hBody
  obtain ⟨taken, left, rfl, hTaken, hLeft, hLength⟩ := exists_taken (h.bytesAhead.trans hChunk)
  have hBytes := hComing.bytes
  rw [hLater, List.flatMap_cons] at hBytes
  have hHeld : (rc.routeBuffer ++ rc.bodyBuffer).length = rc.payloadReceived := by
    rw [List.length_append]
    omega
  have hSize : (route ++ body).length = rc.payloadTotal := by
    rw [List.length_append]
    omega
  obtain ⟨hWaiting, hWhole⟩ := h.copied (by simp [hPhase]) hHeldBytes (hComing.valid _ _ hLater).1 hBytes (by
    rw [hHeld, Frame.payload, hSize, hLength]
    obtain ⟨hLess, -, -⟩ | ⟨hFull, -⟩ := hCases <;> omega)
  obtain ⟨hLess, hNothing, hPass⟩ | ⟨hFull, hPass⟩ := hCases
  · rw [hPass]
    refine passSpec_stays (List.map_eq_nil_iff.mp (hLeft.trans hNothing))
      ⟨h.header, hBound, ?_, ?_, hLeft, ?_, ?_, h.closing, h.streamActive⟩
    · simp only [Buffered, hPhase]
      exact ⟨hReceived, hTotal, hLess, hRouteNext, hBodyNext⟩
    · rw [List.map_append, h.bytesHeld, hTaken, hHeldBytes]
      simp only [position, hPhase, heldBytes, hJoin, List.append_assoc]
    · rw [if_neg (by rw [hPhase]; simp), List.nil_append]
      exact hWaiting
    · simp only [Place, hPhase]
      exact ⟨hVersion, route, body, rest, hLater, hArg1, hArg2⟩
  · -- The frame is whole: the buffers hold its route and its body.
    have hSome : taken ≠ [] := by
      rintro rfl
      rw [List.length_nil] at hLength
      omega
    obtain ⟨hFront, hPayload, -⟩ := hWhole (by rw [hHeld, Frame.payload, hSize, hLength, hFull])
    rw [hTaken, ← hJoin] at hPayload
    obtain ⟨hSameRoute, hSameBody⟩ : route' = route ∧ body' = body := List.append_inj hPayload (by omega)
    have hGoes : Goes wireVersion later part (taken ++ left) [.request rc.requestId route' body' rc.receivedFd]
        [.fixed (.request rc.requestId route body) rc.receivedFd] rest [] left := by
      refine ⟨hLater, ?_, ?_, shorter_of_taken fun _ => hSome⟩
      · rw [List.flatMap_cons, List.flatMap_nil, hFront, List.append_nil, List.nil_append, List.append_assoc]
      · rw [hSameRoute, hSameBody]
        rfl
    rw [hPass, dispatchRequest]
    dsimp only
    split
    · rename_i hThrew
      rintro rfl
      cases hThrew
    · exact .inl ⟨_, rest, [], left, hGoes,
        stands_boundary h.header hBound rfl hReceived hLeft hWaiting hVersion rfl h.closing h.streamActive⟩
    · exact ⟨List.append_ne_nil_of_left_ne_nil hSome _, ⟨by simp, by simp⟩, _, rest, [], left, hGoes,
        stands_boundary h.header hBound rfl hReceived hLeft hWaiting hVersion rfl h.closing h.streamActive⟩

theorem streamPass_spec (h : Stands wireVersion seen later part ahead rc) (hPhase : rc.phase = .streamRoute)
    (hComing : Coming opts wireVersion seen later (part ++ ahead ++ socket)) :
    PassSpec wireVersion seen later part ahead answer (streamPass opts answer rc) := by
  have hBuffered := h.buffered
  simp only [Buffered, hPhase] at hBuffered
  obtain ⟨hReceived, hMissing⟩ := hBuffered
  have hHeldBytes : heldBytes (position rc) = rc.header ++ rc.routeBuffer := by
    rw [position, hPhase]
    rfl
  have hPlace := h.place
  simp only [Place, hPhase] at hPlace
  obtain ⟨route, hLater, hArg1⟩ := hPlace
  obtain ⟨chunk, pending, offset, hChunk, hBound, hCases⟩ := streamPass_eq opts answer h.offset hMissing
  obtain ⟨taken, left, rfl, hTaken, hLeft, hLength⟩ := exists_taken (h.bytesAhead.trans hChunk)
  have hBytes := hComing.bytes
  rw [hLater, List.flatMap_cons] at hBytes
  obtain ⟨hWaiting, hWhole⟩ := h.copied (by simp [hPhase]) hHeldBytes (hComing.valid _ _ hLater).1 hBytes (by
    rw [Frame.payload, hLength]
    obtain ⟨hLess, -, -⟩ | ⟨hFull, -⟩ := hCases <;> omega)
  obtain ⟨hLess, hNothing, hPass⟩ | ⟨hFull, hPass⟩ := hCases
  · rw [hPass]
    refine passSpec_stays (List.map_eq_nil_iff.mp (hLeft.trans hNothing))
      ⟨h.header, hBound, ?_, ?_, hLeft, ?_, ?_, h.closing, h.streamActive⟩
    · simp only [Buffered, hPhase, List.length_append]
      exact ⟨hReceived, hLess⟩
    · rw [List.map_append, h.bytesHeld, hTaken, hHeldBytes]
      simp only [position, hPhase, heldBytes, List.append_assoc]
    · rw [if_neg (by rw [hPhase]; simp), List.nil_append]
      exact hWaiting
    · simp only [Place, hPhase]
      exact ⟨route, hLater, hArg1⟩
  · obtain ⟨hFront, hRoute, hEnd⟩ := hWhole (by rw [Frame.payload]; omega)
    obtain ⟨hEmpty, -⟩ := List.append_eq_nil_iff.mp hEnd
    rw [hTaken, Frame.payload] at hRoute
    have hGoes : Goes wireVersion later part (taken ++ left) [.stream rc.requestId (rc.routeBuffer ++ chunk)] later []
        [] [] := by
      refine ⟨(List.append_nil _).symm, ?_, ?_, Nat.zero_le _, fun hSome => List.length_pos_of_ne_nil hSome⟩
      · rw [hLater, List.flatMap_cons, List.flatMap_nil, hFront, hEmpty]
        simp only [List.append_nil]
      · rw [hLater, hRoute]
        rfl
    rw [hPass, dispatchStream]
    dsimp only
    split
    · exact .inr ⟨hGoes, .inl rfl, fun _ => h.closing⟩
    · rename_i hRefused
      exact .inr ⟨hGoes, .inr rfl, fun hTaken => absurd hTaken hRefused⟩

theorem Stands.paused (h : Stands wireVersion seen later part ahead rc) (readPaused : Bool) :
    Stands wireVersion seen later part ahead { rc with readPaused } :=
  ⟨h.header, h.offset, h.buffered, h.bytesHeld, h.bytesAhead, h.waiting, h.place, h.closing, h.streamActive⟩

theorem retryBudget_spec (opts : Options) (answer : Answer) (h : Stands wireVersion seen later part ahead rc) :
    Stands wireVersion seen later part ahead (retryBudget opts answer rc).1 ∧
      ((retryBudget opts answer rc).2 = true → Ready (retryBudget opts answer rc).1) ∧
      (answer.reserved = true → (retryBudget opts answer rc).2 = true) := by
  have hBuffered := h.buffered
  have hHeld := h.bytesHeld
  have hWaiting := h.waiting
  have hPlace := h.place
  have hRetried := retryBudget_cases opts answer rc
  generalize retryBudget opts answer rc = retried at hRetried ⊢
  cases hRetried with
  | ready hReady => exact ⟨h, fun _ => hReady, fun _ => rfl⟩
  | refused hRefused =>
    exact ⟨⟨h.header, h.offset, hBuffered, hHeld, h.bytesAhead, hWaiting, hPlace, h.closing, h.streamActive⟩,
      fun hReady => absurd hReady Bool.false_ne_true, fun hReserved => hRefused.symm.trans hReserved⟩
  | request hPhase =>
    simp only [Buffered, hPhase] at hBuffered
    simp only [position, hPhase, heldBytes] at hHeld
    simp only [Place, hPhase] at hPlace
    rw [if_neg (by rw [hPhase]; simp)] at hWaiting
    obtain ⟨hReceived, hNone, hTotal, hPositive⟩ := hBuffered
    refine ⟨⟨h.header, h.offset, ⟨hReceived, hTotal, hNone ▸ hPositive, ?_, ?_⟩, hHeld, h.bytesAhead, hWaiting, hPlace,
      h.closing, h.streamActive⟩, fun _ => ⟨by simp, by simp⟩, fun _ => rfl⟩
    · simp [hNone]
    · simp [hNone]
  | stream hPhase =>
    simp only [Buffered, hPhase] at hBuffered
    simp only [position, hPhase, heldBytes] at hHeld
    simp only [Place, hPhase] at hPlace
    rw [if_neg (by rw [hPhase]; simp)] at hWaiting
    exact ⟨⟨h.header, h.offset, hBuffered, hHeld, h.bytesAhead, hWaiting, hPlace, h.closing, h.streamActive⟩,
      fun _ => ⟨by simp, by simp⟩, fun _ => rfl⟩

theorem parsePass_spec (h : Stands wireVersion seen later part ahead rc) (hReady : Ready rc)
    (hComing : Coming opts wireVersion seen later (part ++ ahead ++ socket)) :
    PassSpec wireVersion seen later part ahead answer (parsePass opts answer rc) := by
  rw [parsePass]
  cases hPhase : rc.phase with
  | header => exact headerPass_spec h hPhase hComing
  | requestPayload => exact payloadPass_spec h hPhase hComing
  | streamRoute => exact streamPass_spec h hPhase hComing
  | requestBudget => exact absurd hPhase hReady.1
  | streamBudget => exact absurd hPhase hReady.2

theorem Stands.append (h : Stands wireVersion seen later part ahead rc) {more : Stream}
    (hFd : fd.toList = more.filterMap Prod.snd) :
    Stands wireVersion seen later part (ahead ++ more) (appendPending rc (more.map Prod.fst) fd) := by
  obtain ⟨hUnparsed, hOffset⟩ := appendPending_unparsed (more.map Prod.fst) fd h.offset
  refine ⟨h.header, hOffset, h.buffered, h.bytesHeld, ?_, ?_, h.place, h.closing, h.streamActive⟩
  · rw [hUnparsed, List.map_append, h.bytesAhead]
  · change rc.receivedFds ++ fd.toList = (if rc.phase = .header then _ else []) ++ _
    rw [h.waiting, hFd, List.filterMap_append, List.append_assoc]

/-- The parser never has the whole of a frame: it passes the frame on with its last byte. -/
theorem Stands.part_missing {frame : Frame} (h : Stands wireVersion seen (frame :: rest) part ahead rc)
    (hValid : frame.Valid opts wireVersion seen) :
    part.length + missing rc ≤ (frame.elements wireVersion).length ∧
      part.length < (frame.elements wireVersion).length := by
  rw [hValid.elements_length, h.part_length]
  have hBuffered := h.buffered
  have hPlace := h.place
  have hHeader := h.header
  unfold headerSize at hHeader ⊢
  cases hPhase : rc.phase with
  | header =>
    simp only [Buffered, hPhase] at hBuffered
    simp only [missing, position, hPhase, heldBytes, List.length_take]
    unfold headerSize at hBuffered ⊢
    omega
  | requestBudget =>
    simp only [Buffered, hPhase] at hBuffered
    simp only [Place, hPhase, List.cons.injEq] at hPlace
    obtain ⟨-, route, body, others, ⟨rfl, -⟩, hArg1, hArg2⟩ := hPlace
    simp only [missing, position, hPhase, heldBytes, Frame.payload, List.length_append, List.length_nil]
    omega
  | requestPayload =>
    simp only [Buffered, hPhase] at hBuffered
    simp only [Place, hPhase, List.cons.injEq] at hPlace
    obtain ⟨-, route, body, others, ⟨rfl, -⟩, hArg1, hArg2⟩ := hPlace
    simp only [missing, position, hPhase, heldBytes, Frame.payload, List.length_append]
    omega
  | streamBudget =>
    simp only [Buffered, hPhase] at hBuffered
    simp only [Place, hPhase, List.cons.injEq] at hPlace
    obtain ⟨route, ⟨rfl, -⟩, hArg1⟩ := hPlace
    simp only [missing, position, hPhase, heldBytes, Frame.payload, List.length_append, List.length_nil]
    omega
  | streamRoute =>
    simp only [Buffered, hPhase] at hBuffered
    simp only [Place, hPhase, List.cons.injEq] at hPlace
    obtain ⟨route, ⟨rfl, -⟩, hArg1⟩ := hPlace
    simp only [missing, position, hPhase, heldBytes, Frame.payload, List.length_append]
    omega

theorem Stands.complete (h : Stands wireVersion seen later part [] rc)
    (hComing : Coming opts wireVersion seen later (part ++ [] ++ [])) : later = [] := by
  cases later with
  | nil => rfl
  | cons frame rest =>
    exfalso
    have hShort := (h.part_missing (hComing.valid frame rest rfl).1).2
    have hBytes := congrArg List.length hComing.bytes
    rw [List.append_nil, List.append_nil, List.flatMap_cons, List.length_append] at hBytes
    omega

end Passes

end EasyUds.Reactor.ParserFrames

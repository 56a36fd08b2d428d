import EasyUds.Lib.Pool
import EasyUds.Reactor.Continuation
import EasyUds.Reactor.Output
import EasyUds.Reactor.Stream

/-! # The wire version of a connection

Headers are accepted by `consume`, by `continue_connection` and by `IncomingStream::read`, and written by
`write_fixed_response` and `run_stream_exchange`. A reader is a thread that has the descriptor; there may
be any number of them at a time. What the peer sends is any sequence of headers, in any split over the
readers: a header comes with the action, and the bytes between two headers are left out.

The loads and the compare-exchange of `wire_version` are a step each. `checked` are the headers whose
tests have been made, `accepted` those that have passed them, and `written` the headers of the server.
-/

namespace EasyUds.Reactor.WireVersion

open Lib Protocol.Codec Reactor

structure Options where
  parser : Parser.Options
  output : Output.Options
  sessionIdleGrace : Nat
  maxStreamSize : Nat

/-- `consume`, with an ancillary descriptor at hand or not, or `continue_connection`. -/
inductive Place
  | parser (descriptor : Bool)
  | continuation
  deriving DecidableEq, Repr

/-- The next step of a reader. In `exchange` it runs `run_stream_exchange`: the handler, or the part from
`drain` on. -/
inductive Reader
  | idle
  | decoded (place : Place) (header : DecodedHeader)
  | observed (place : Place) (header : DecodedHeader) (version : UInt8)
  | exchanged (place : Place) (header : DecodedHeader)
  | exchange (stream : Stream.IncomingStream) (draining : Bool)
  deriving DecidableEq, Repr

inductive Job
  | request (requestId : UInt32)
  | stream (requestId : UInt32)
  deriving DecidableEq, Repr

structure State where
  wireVersion : UInt8
  closing : Bool
  readers : List Reader
  jobs : List Job
  accepted : List DecodedHeader
  checked : List DecodedHeader
  written : List HeaderBytes
  deriving DecidableEq, Repr

inductive Action
  | header (reader : Nat) (place : Place) (bytes : HeaderBytes)
  | proceed (reader : Nat)
  | respond (requestId : UInt32) (response : Output.Response) (deadline : Option Nat)
  | startExchange (reader : Nat) (requestId : UInt32)
  | streamHeader (reader : Nat) (bytes : HeaderBytes)
  | drain (reader : Nat)
  | writeStream (reader : Nat) (type : WireType) (arg1 : UInt32)
  | leaveExchange (reader : Nat) (failed : Bool)
  deriving DecidableEq, Repr

variable (opts : Options) (s : State)

def setReader (index : Nat) (reader : Reader) : State := { s with readers := s.readers.set index reader }

def startedJobs (header : DecodedHeader) : List Job :=
  match header.type with
  | .request => [.request header.requestId]
  | .streamRequest => [.stream header.requestId]
  | _ => []

/-- The tests of a place on a header, once `wire_version` has been observed. No lease is granted with an
aggregate byte budget. -/
def passes (place : Place) (observed : UInt8) (header : DecodedHeader) : Option Bool :=
  match place with
  | .parser descriptor =>
    match Parser.announce opts.parser observed descriptor header with
    | .ok _ => some true
    | .error _ => some false
  | .continuation =>
    if opts.parser.maxTotalInflightBytes = 0 then
      match Continuation.continueHeader ⟨opts.parser, opts.sessionIdleGrace⟩ observed header with
      | .threw _ => some false
      | _ => some true
    else none

def accept (header : DecodedHeader) : State :=
  { s with
    accepted := s.accepted ++ [header]
    checked := s.checked ++ [header]
    jobs := s.jobs ++ startedJobs header }

def reject (header : DecodedHeader) : State := { s with checked := s.checked ++ [header], closing := true }

def check (index : Nat) (place : Place) (observed : UInt8) (header : DecodedHeader) : Option State :=
  (passes opts place observed header).map fun passed =>
    setReader (if passed then accept s header else reject s header) index .idle

def receiveHeader (index : Nat) (place : Place) (bytes : HeaderBytes) : Option State :=
  match s.readers[index]? with
  | some .idle =>
    match decodeHeader bytes with
    | .error _ => some { s with closing := true }
    | .ok header => some (setReader s index (.decoded place header))
  | _ => none

def proceed (index : Nat) : Option State :=
  match s.readers[index]? with
  | some (.decoded place header) => some (setReader s index (.observed place header s.wireVersion))
  | some (.observed place header observed) =>
    if observed = 0 then
      some (setReader { s with wireVersion := if s.wireVersion = 0 then header.version else s.wireVersion } index
        (.exchanged place header))
    else check opts s index place observed header
  | some (.exchanged place header) => check opts s index place s.wireVersion header
  | _ => none

def respond (requestId : UInt32) (response : Output.Response) (deadline : Option Nat) : Option State :=
  if .request requestId ∈ s.jobs then
    let frame := Output.outgoingFrame s.wireVersion requestId (Output.acceptedResponse opts.output response) deadline
    some { s with written := s.written ++ [frame.header] }
  else none

def incoming (requestId : UInt32) : Stream.IncomingStream where
  chunkType := .streamRequestChunk
  endType := .streamRequestEnd
  maxSize := opts.maxStreamSize
  requestId
  totalSize := 0
  frameRemaining := 0
  ended := false

def startExchange (index : Nat) (requestId : UInt32) : Option State :=
  if s.readers[index]? = some .idle ∧ .stream requestId ∈ s.jobs then
    some (setReader { s with jobs := s.jobs.erase (.stream requestId) } index
      (.exchange (incoming opts requestId) false))
  else none

/-- A read of the next frame header. The handler may catch the exception of a refused header; behind it
the exception ends the exchange. -/
def streamHeader (index : Nat) (bytes : HeaderBytes) : Option State :=
  match s.readers[index]? with
  | some (.exchange stream draining) =>
    if stream.ended then none
    else
      match decodeHeader bytes, stream.acceptHeader bytes with
      | .ok header, .ok next =>
        some (setReader { s with accepted := s.accepted ++ [header], checked := s.checked ++ [header] } index
          (.exchange { next with frameRemaining := 0 } draining))
      | .ok header, .error _ =>
        if draining then some (setReader (reject s header) index .idle)
        else some { s with checked := s.checked ++ [header] }
      | .error _, _ => if draining then some (setReader { s with closing := true } index .idle) else some s
  | _ => none

def drain (index : Nat) : Option State :=
  match s.readers[index]? with
  | some (.exchange stream false) => some (setReader s index (.exchange stream true))
  | _ => none

def writesStream : WireType → Bool
  | .streamResponse | .streamResponseChunk | .streamResponseEnd => true
  | _ => false

def writeStream (index : Nat) (type : WireType) (arg1 : UInt32) : Option State :=
  match s.readers[index]? with
  | some (.exchange stream true) =>
    if stream.ended ∧ writesStream type then
      some { s with written := s.written ++ [encodeHeader type stream.requestId arg1 0 0 s.wireVersion] }
    else none
  | _ => none

def leaveExchange (index : Nat) (failed : Bool) : Option State :=
  match s.readers[index]? with
  | some (.exchange _ _) => some (setReader { s with closing := s.closing || failed } index .idle)
  | _ => none

def step : Action → Option State
  | .header reader place bytes => receiveHeader s reader place bytes
  | .proceed reader => proceed opts s reader
  | .respond requestId response deadline => respond opts s requestId response deadline
  | .startExchange reader requestId => startExchange opts s reader requestId
  | .streamHeader reader bytes => streamHeader s reader bytes
  | .drain reader => drain s reader
  | .writeStream reader type arg1 => writeStream s reader type arg1
  | .leaveExchange reader failed => leaveExchange s reader failed

structure Initial (s : State) : Prop where
  wireVersion : s.wireVersion = 0
  readers : ∀ reader ∈ s.readers, reader = .idle
  jobs : s.jobs = []
  accepted : s.accepted = []
  checked : s.checked = []
  written : s.written = []

def machine : Machine State Action where
  initial := Initial
  step := step opts

/-- The chunk and end headers of a stream have the version of the connection. -/
def streamVersionKept (s : State) : Action → Bool
  | .streamHeader _ bytes =>
    match decodeHeader bytes with
    | .ok header => header.version == s.wireVersion
    | .error _ => true
  | _ => true

variable {header : DecodedHeader} {bytes : HeaderBytes} {index : Nat} {observed : UInt8} {place : Place}
  {requestId : UInt32}

theorem decodeHeader_version (h : decodeHeader bytes = .ok header) : header.version ≠ 0 := by
  unfold decodeHeader at h
  split at h
  · cases h
  · split at h
    · cases h
    · rename_i hKnown
      dsimp only at h
      split at h
      · cases h
      · split at h
        · cases h
        · split at h
          · cases h
          · split at h
            · cases h
            · split at h
              · cases h
              · cases h
                intro hZero
                have hByte : byteAt bytes 4 = 0 := hZero
                rw [hByte] at hKnown
                exact hKnown ⟨by decide, by decide⟩

theorem announce_version {opts : Parser.Options} {descriptor : Bool} {announced : Parser.Announced}
    (h : Parser.announce opts observed descriptor header = .ok announced) :
    header.version = observed := by
  by_contra hNe
  rw [Parser.announce, if_pos (Ne.symm hNe)] at h
  cases h

theorem continueHeader_version {opts : Continuation.Options}
    (h : ∀ error, Continuation.continueHeader opts observed header ≠ .threw error) : header.version = observed := by
  by_contra hNe
  rw [Continuation.continueHeader, if_pos (Ne.symm hNe)] at h
  exact h _ rfl

variable {opts : Options} {s t : State}

theorem passes_version (h : passes opts place observed header = some true) : header.version = observed := by
  unfold passes at h
  split at h
  · split at h
    · rename_i hAnnounce
      exact announce_version hAnnounce
    · cases h
  · split at h
    · split at h
      · cases h
      · rename_i hThrew
        exact continueHeader_version hThrew
    · cases h

def ReaderOk (version : UInt8) : Reader → Prop
  | .idle => True
  | .decoded _ header => header.version ≠ 0
  | .observed _ header observed => header.version ≠ 0 ∧ (observed = 0 ∨ observed = version)
  | .exchanged _ header => header.version ≠ 0 ∧ version ≠ 0
  | .exchange _ _ => version ≠ 0

structure Inv (s : State) : Prop where
  readers : ∀ reader ∈ s.readers, ReaderOk s.wireVersion reader
  unpinned : s.wireVersion = 0 → s.jobs = [] ∧ s.accepted = [] ∧ s.checked = [] ∧ s.written = []
  accepted : ∀ header ∈ s.accepted, header.version = s.wireVersion
  checked : ∀ header ∈ s.checked, header.version ≠ s.wireVersion → s.closing = true
  written : ∀ bytes ∈ s.written, bytes[4]? = some s.wireVersion

section Steps

variable (hInv : Inv s)
include hInv

theorem Inv.setReader {reader : Reader} (h : ReaderOk s.wireVersion reader) : Inv (setReader s index reader) := by
  refine ⟨fun current hMem => ?_, hInv.unpinned, hInv.accepted, hInv.checked, hInv.written⟩
  obtain hOld | rfl := Pool.mem_set_cases hMem
  · exact hInv.readers current hOld
  · exact h

theorem Inv.pin (hHeader : header.version ≠ 0) :
    Inv { s with wireVersion := if s.wireVersion = 0 then header.version else s.wireVersion } := by
  by_cases hZero : s.wireVersion = 0
  · obtain ⟨hJobs, hAccepted, hChecked, hWritten⟩ := hInv.unpinned hZero
    simp only [if_pos hZero]
    refine ⟨fun reader hMem => ?_, fun hNone => absurd hNone hHeader, ?_, ?_, ?_⟩
    · have hOk := hInv.readers reader hMem
      rw [hZero] at hOk
      cases reader with
      | idle => trivial
      | decoded place current => exact hOk
      | observed place current observed => exact ⟨hOk.1, .inl (or_self_iff.mp hOk.2)⟩
      | exchanged place current => exact ⟨hOk.1, hHeader⟩
      | exchange stream draining => exact hHeader
    · rw [hAccepted]
      exact nofun
    · rw [hChecked]
      exact nofun
    · rw [hWritten]
      exact nofun
  · simp only [if_neg hZero]
    exact hInv

theorem Inv.close : Inv { s with closing := true } :=
  ⟨hInv.readers, hInv.unpinned, hInv.accepted, fun _ _ _ => rfl, hInv.written⟩

theorem Inv.accept {jobs : List Job} (hPinned : s.wireVersion ≠ 0) (hVersion : header.version = s.wireVersion) :
    Inv { s with accepted := s.accepted ++ [header], checked := s.checked ++ [header], jobs } := by
  refine ⟨hInv.readers, fun hZero => absurd hZero hPinned, fun current hMem => ?_, fun current hMem hNe => ?_,
    hInv.written⟩
  · obtain hOld | hNew := List.mem_append.mp hMem
    · exact hInv.accepted current hOld
    · rw [List.mem_singleton.mp hNew]
      exact hVersion
  · obtain hOld | hNew := List.mem_append.mp hMem
    · exact hInv.checked current hOld hNe
    · rw [List.mem_singleton.mp hNew] at hNe
      exact absurd hVersion hNe

theorem Inv.reject (hPinned : s.wireVersion ≠ 0) : Inv (reject s header) :=
  ⟨hInv.readers, fun hZero => absurd hZero hPinned, hInv.accepted, fun _ _ _ => rfl, hInv.written⟩

theorem Inv.write (hPinned : s.wireVersion ≠ 0) (hBytes : bytes[4]? = some s.wireVersion) :
    Inv { s with written := s.written ++ [bytes] } := by
  refine ⟨hInv.readers, fun hZero => absurd hZero hPinned, hInv.accepted, hInv.checked, fun current hMem => ?_⟩
  obtain hOld | hNew := List.mem_append.mp hMem
  · exact hInv.written current hOld
  · rw [List.mem_singleton.mp hNew]
    exact hBytes

theorem Inv.check (hPinned : s.wireVersion ≠ 0) (h : check opts s index place s.wireVersion header = some t) :
    Inv t := by
  obtain ⟨passed, hPasses, rfl⟩ := Option.map_eq_some_iff.mp h
  cases passed with
  | true => exact Inv.setReader (hInv.accept hPinned (passes_version hPasses)) trivial
  | false => exact Inv.setReader (hInv.reject hPinned) trivial

theorem Inv.receiveHeader (h : receiveHeader s index place bytes = some t) : Inv t := by
  unfold WireVersion.receiveHeader at h
  split at h
  · split at h <;> cases h
    · exact hInv.close
    · rename_i hDecode
      exact hInv.setReader (decodeHeader_version hDecode)
  · cases h

theorem Inv.proceed (h : proceed opts s index = some t) : Inv t := by
  unfold WireVersion.proceed at h
  split at h
  · rename_i place header hReader
    cases h
    have hHeader : header.version ≠ 0 := hInv.readers _ (List.mem_of_getElem? hReader)
    exact hInv.setReader ⟨hHeader, .inr rfl⟩
  · rename_i place header observed hReader
    obtain ⟨hHeader, hObserved⟩ := hInv.readers _ (List.mem_of_getElem? hReader)
    split at h
    · cases h
      refine (hInv.pin hHeader).setReader ⟨hHeader, ?_⟩
      dsimp only
      split <;> assumption
    · rename_i hSeen
      obtain hZero | rfl := hObserved
      · exact absurd hZero hSeen
      · exact hInv.check hSeen h
  · rename_i place header hReader
    obtain ⟨_, hPinned⟩ := hInv.readers _ (List.mem_of_getElem? hReader)
    exact hInv.check hPinned h
  · cases h

theorem Inv.pinned_of_job {job : Job} (h : job ∈ s.jobs) : s.wireVersion ≠ 0 := by
  intro hZero
  rw [(hInv.unpinned hZero).1] at h
  cases h

theorem Inv.respond {response : Output.Response} {deadline : Option Nat}
    (h : respond opts s requestId response deadline = some t) : Inv t := by
  unfold WireVersion.respond at h
  split at h
  · rename_i hJob
    have hPinned := hInv.pinned_of_job hJob
    cases h
    refine hInv.write hPinned ?_
    have hVersion : Output.responseVersion s.wireVersion = s.wireVersion := if_neg hPinned
    exact congrArg some hVersion
  · cases h

theorem Inv.startExchange (h : startExchange opts s index requestId = some t) : Inv t := by
  unfold WireVersion.startExchange at h
  split at h
  · rename_i hEnabled
    have hPinned := hInv.pinned_of_job hEnabled.2
    cases h
    have hTaken : Inv { s with jobs := s.jobs.erase (.stream requestId) } :=
      ⟨hInv.readers, fun hZero => absurd hZero hPinned, hInv.accepted, hInv.checked, hInv.written⟩
    exact hTaken.setReader hPinned
  · cases h

theorem Inv.streamHeader (hKept : streamVersionKept s (.streamHeader index bytes) = true)
    (h : streamHeader s index bytes = some t) : Inv t := by
  unfold WireVersion.streamHeader at h
  split at h
  · rename_i stream draining hReader
    have hPinned : s.wireVersion ≠ 0 := hInv.readers _ (List.mem_of_getElem? hReader)
    have hVersion : ∀ {header : DecodedHeader}, decodeHeader bytes = .ok header → header.version = s.wireVersion := by
      intro header hDecode
      simpa [streamVersionKept, hDecode] using hKept
    split at h
    · cases h
    · split at h
      · rename_i header next hDecode _
        cases h
        exact Inv.setReader (hInv.accept hPinned (hVersion hDecode)) hPinned
      · rename_i header _ hDecode _
        split at h <;> cases h
        · exact Inv.setReader (hInv.reject hPinned) trivial
        · refine ⟨hInv.readers, fun hZero => absurd hZero hPinned, hInv.accepted, fun current hMem hNe => ?_,
            hInv.written⟩
          obtain hOld | hNew := List.mem_append.mp hMem
          · exact hInv.checked current hOld hNe
          · rw [List.mem_singleton.mp hNew] at hNe
            exact absurd (hVersion hDecode) hNe
      · split at h <;> cases h
        · exact Inv.setReader hInv.close trivial
        · exact hInv
  · cases h

theorem Inv.next {action : Action} (hKept : streamVersionKept s action = true) (h : step opts s action = some t) :
    Inv t := by
  cases action with
  | header reader place bytes => exact hInv.receiveHeader h
  | proceed reader => exact hInv.proceed h
  | respond requestId response deadline => exact hInv.respond h
  | startExchange reader requestId => exact hInv.startExchange h
  | streamHeader reader bytes => exact hInv.streamHeader hKept h
  | drain reader =>
    dsimp only [step, drain] at h
    split at h <;> cases h
    rename_i hReader
    exact hInv.setReader (hInv.readers _ (List.mem_of_getElem? hReader) : s.wireVersion ≠ 0)
  | writeStream reader type arg1 =>
    dsimp only [step, writeStream] at h
    split at h
    · rename_i hReader
      split at h <;> cases h
      exact hInv.write (hInv.readers _ (List.mem_of_getElem? hReader)) rfl
    · cases h
  | leaveExchange reader failed =>
    dsimp only [step, leaveExchange] at h
    split at h <;> cases h
    have hFailed : Inv { s with closing := s.closing || failed } :=
      ⟨hInv.readers, hInv.unpinned, hInv.accepted,
        fun current hMem hNe => Bool.or_eq_true_iff.mpr (.inl (hInv.checked current hMem hNe)), hInv.written⟩
    exact hFailed.setReader trivial

end Steps

theorem Inv.start (hInit : Initial s) : Inv s := by
  obtain ⟨_, hReaders, hJobs, hAccepted, hChecked, hWritten⟩ := hInit
  refine ⟨fun reader hMem => ?_, fun _ => ⟨hJobs, hAccepted, hChecked, hWritten⟩, ?_, ?_, ?_⟩
  · rw [hReaders reader hMem]
    trivial
  · rw [hAccepted]
    exact nofun
  · rw [hChecked]
    exact nofun
  · rw [hWritten]
    exact nofun

/-- All headers that the server accepts and writes have one version, and a header of another version has
closed the connection. -/
structure OneVersion (s : State) (version : UInt8) : Prop where
  accepted : ∀ header ∈ s.accepted, header.version = version
  rejected : ∀ header ∈ s.checked, header.version ≠ version → s.closing = true
  written : ∀ bytes ∈ s.written, bytes[4]? = some version

/-- In every run whose stream frames have the version of the connection, the version never changes. -/
theorem version_kept (opts : Options) (s : State)
    (h : (machine opts).Reached (fun s a => streamVersionKept s a = true) s) : ∃ version, OneVersion s version := by
  have hInv : Inv s := h.invariant (I := Inv) (fun _ => Inv.start) fun _ _ _ _ hInv hKept hStep => hInv.next hKept hStep
  exact ⟨s.wireVersion, hInv.accepted, hInv.checked, hInv.written⟩

def smallOptions : Options where
  parser := Parser.smallMessages
  output := ⟨64, 1024, 0, false⟩
  sessionIdleGrace := 1
  maxStreamSize := 64

def fresh : State where
  wireVersion := 0
  closing := false
  readers := [.idle, .idle]
  jobs := []
  accepted := []
  checked := []
  written := []

theorem fresh_initial : (machine smallOptions).initial fresh :=
  ⟨rfl, by decide, rfl, rfl, rfl, rfl⟩

def oneChunk (chunk : UInt8) : List Action :=
  [.header 0 (.parser false) (encodeHeader .streamRequest 7 1 0 0 version), .proceed 0, .proceed 0, .proceed 0,
    .startExchange 1 7, .streamHeader 1 (encodeHeader .streamRequestChunk 7 1 0 0 chunk)]

theorem version_kept_stream : ∃ s,
    (machine smallOptions).Reached (fun s a => streamVersionKept s a = true) s ∧ s.accepted.length = 2 ∧
      ∃ version, OneVersion s version := by
  obtain ⟨s, hReached, hAccepted⟩ := Machine.exists_reached_of_exec (fun s => s.accepted.length = 2) streamVersionKept
    (oneChunk version) fresh_initial (by decide +kernel)
  exact ⟨s, hReached, hAccepted, version_kept smallOptions s hReached⟩

/-- A version-3 chunk is accepted in a version-2 stream, and the connection stays open. -/
theorem version_changed_in_stream : ∃ s, (machine smallOptions).Reachable s ∧
    s.accepted.map (·.version) = [version, cancellableVersion] ∧ s.closing = false ∧
      ¬ ∃ version, OneVersion s version := by
  obtain ⟨s, hReached, hAccepted, hOpen⟩ := Machine.exists_reachable_of_exec
    (fun s => s.accepted.map (·.version) = [version, cancellableVersion] ∧ s.closing = false)
    (oneChunk cancellableVersion) fresh_initial (by decide +kernel)
  refine ⟨s, hReached, hAccepted, hOpen, ?_⟩
  rintro ⟨pinned, hOne⟩
  have hAll : ∀ current ∈ s.accepted.map (·.version), current = pinned := by
    intro current hMem
    obtain ⟨header, hHeader, rfl⟩ := List.mem_map.mp hMem
    exact hOne.accepted header hHeader
  rw [hAccepted] at hAll
  have hTwo := hAll version (by simp)
  have hThree := hAll cancellableVersion (by simp)
  exact absurd (hTwo.trans hThree.symm) (by decide)

end EasyUds.Reactor.WireVersion

import EasyUds.Protocol.Grammar
import EasyUds.Reactor.FixedRequest
import EasyUds.Reactor.OutputBudget
import EasyUds.Reactor.ParserDecode
import EasyUds.Transport.Streaming

/-! # Responses at the client

`read_response` reads the answer to a one-shot request, `session_reader_loop` reads the answers of a
session one after the other. A frame that they accept is one that `write_fixed_response` writes, with
nothing left over, however the bytes arrive.
-/

namespace EasyUds.Transport.Responses

open Protocol.Codec Protocol.Grammar Transport.Reader Transport.Streaming
open Reactor.Stream (KnownVersion decode_stream)
open Reactor.Output (Response acceptedResponse errorResponse frameBytes outgoingFrame responseVersion)

/-- A turn of `session_reader_loop` up to the lookup of the slot. Only `read_response` looks at the id
of the request here. -/
def readFrame (oneShot : Bool) (maxMessageSize : Nat) (reader : BufferedReader) :
    Except Exception (UInt32 × Response) × BufferedReader :=
  match reader.read headerSize with
  | (.error reason, reader) => (.error reason, reader)
  | (.ok header, reader) =>
    match decodeExpected header .response with
    | .error reason => (.error reason, reader)
    | .ok decoded =>
      if oneShot = true ∧ decoded.requestId ≠ 0 then
        (.error (.error .protocol "unexpected response request_id"), reader)
      else if decoded.arg1 > int32Max then
        (.error (.error .protocol "response status_code is out of range"), reader)
      else if decoded.arg2.toNat > maxMessageSize then
        (.error (.error .tooLarge "response exceeds max_message_size"), reader)
      else
        match reader.read decoded.arg2.toNat with
        | (.error reason, reader) => (.error reason, reader)
        | (.ok body, reader) => (.ok (decoded.requestId, ⟨decoded.arg1.toNat, body⟩), reader)

def readResponse (maxMessageSize : Nat) (reader : BufferedReader) : Except Exception Response :=
  (readFrame true maxMessageSize reader).1.map Prod.snd

inductive LoopEnd
  | stopped
  | threw (reason : Exception)
  deriving DecidableEq, Repr

/-- What `session_reader_loop` delivers, and how it ends. In each turn `stop` is `reader_stop`, and `find` is
what `inflight` has for an id: no slot, or one that is `done` or not. -/
def sessionReaderLoop (maxMessageSize : Nat) (stop : Nat → Bool) (find : Nat → UInt32 → Option Bool) :
    Nat → Nat → BufferedReader → List (UInt32 × Response) × Option LoopEnd
  | 0, _, _ => ([], none)
  | fuel + 1, turn, reader =>
    if stop turn then ([], some .stopped)
    else
      match readFrame false maxMessageSize reader with
      | (.error reason, _) => ([], some (.threw reason))
      | (.ok frame, reader) =>
        match find turn frame.1 with
        | none => ([], some (.threw (.error .protocol "unexpected response request_id")))
        | some true => ([], some (.threw (.error .protocol "duplicate response request_id")))
        | some false =>
          let later := sessionReaderLoop maxMessageSize stop find fuel (turn + 1) reader
          (frame :: later.1, later.2)

structure Writable (response : Response) : Prop where
  status : 0 ≤ response.status ∧ response.status ≤ 2147483647
  body : response.body.length ≤ maxWireField

structure Readable (oneShot : Bool) (maxMessageSize : Nat) (requestId : UInt32) (response : Response) : Prop where
  writable : Writable response
  requestId : oneShot = true → requestId = 0
  body : response.body.length ≤ maxMessageSize

/-- A response with the version of its connection and the id of its request. -/
abbrev Written := UInt8 × UInt32 × Response

/-- What `write_fixed_response` sends on a connection of the given version. -/
def Written.bytes (frame : Written) : List UInt8 := frameBytes (outgoingFrame frame.1 frame.2.1 frame.2.2 none)

variable {oneShot : Bool} {maxMessageSize : Nat} {reader next : BufferedReader} {wireVersion : UInt8}
  {requestId : UInt32} {response : Response} {rest : List UInt8}

theorem responseVersion_known (hVersion : KnownVersion wireVersion) : responseVersion wireVersion = wireVersion := by
  rcases hVersion with rfl | rfl <;> rfl

theorem bytes_known (hVersion : KnownVersion wireVersion) : Written.bytes (wireVersion, requestId, response) =
    encodeHeader .response requestId (UInt32.ofNat response.status.toNat) (UInt32.ofNat response.body.length) 0
      wireVersion ++ response.body := by
  rw [Written.bytes, frameBytes, outgoingFrame, responseVersion_known hVersion]

theorem Writable.wire (h : Writable response) :
    ¬ UInt32.ofNat response.status.toNat > int32Max ∧
      ((UInt32.ofNat response.status.toNat).toNat : Int) = response.status ∧
      (UInt32.ofNat response.body.length).toNat = response.body.length := by
  obtain ⟨⟨hLow, hHigh⟩, hBody⟩ := h
  have hStatus : (UInt32.ofNat response.status.toNat).toNat = response.status.toNat := by
    rw [UInt32.toNat_ofNat']
    omega
  refine ⟨fun hLarge => ?_, ?_, ?_⟩
  · have hNat := UInt32.lt_iff_toNat_lt.mp hLarge
    have hMax : (int32Max).toNat = 2147483647 := rfl
    omega
  · omega
  · rw [UInt32.toNat_ofNat']
    unfold maxWireField at hBody
    omega

/-- The header of a response is accepted, and the body is read unless it is too large. -/
theorem readFrame_written (maxMessageSize : Nat) (hVersion : KnownVersion wireVersion)
    (hWritable : Writable response) (hId : oneShot = true → requestId = 0)
    (hAhead : reader.ahead = Written.bytes (wireVersion, requestId, response) ++ rest) :
    (response.body.length ≤ maxMessageSize →
      ∃ next, readFrame oneShot maxMessageSize reader = (.ok (requestId, response), next) ∧ next.ahead = rest) ∧
    (maxMessageSize < response.body.length →
      (readFrame oneShot maxMessageSize reader).1 = .error (.error .tooLarge "response exceeds max_message_size")) := by
  rw [bytes_known hVersion, List.append_assoc] at hAhead
  obtain ⟨next, hRead, hNext⟩ := reader_front hAhead
  rw [encodeHeader_length] at hRead
  obtain ⟨hRange, hStatus, hBody⟩ := hWritable.wire
  have hOneShot : ¬ (oneShot = true ∧ requestId ≠ 0) := fun h => h.2 (hId h.1)
  have hExpected : decodeExpected (encodeHeader .response requestId (UInt32.ofNat response.status.toNat)
      (UInt32.ofNat response.body.length) 0 wireVersion) .response =
        .ok ⟨.response, requestId, UInt32.ofNat response.status.toNat, UInt32.ofNat response.body.length, 0,
          wireVersion⟩ := by
    simp [decodeExpected, decode_stream hVersion (show WireType.response ≠ .cancelRequest by simp)]
  simp only [readFrame, hRead, hExpected, if_neg hOneShot, if_neg hRange, hBody]
  constructor
  · intro hFits
    obtain ⟨last, hLast, hRest⟩ := reader_front hNext
    refine ⟨last, ?_, hRest⟩
    simp only [if_neg (Nat.not_lt.mpr hFits), hLast, hStatus]
  · intro hLarge
    rw [if_pos hLarge]

theorem decodeExpected_response {header : HeaderBytes} {decoded : DecodedHeader} (hLength : header.length = headerSize)
    (h : decodeExpected header .response = .ok decoded) :
    KnownVersion decoded.version ∧
      header = encodeHeader .response decoded.requestId decoded.arg1 decoded.arg2 0 decoded.version := by
  unfold decodeExpected at h
  rcases decodeHeader_cases header with ⟨message, hError, -⟩ | ⟨hForm, type, hType, hOk⟩
  · rw [hError] at h
    cases h
  · simp only [hOk] at h
    split at h
    · cases h
    · rename_i hResponse
      cases h
      have hSame : type = .response := not_not.mp hResponse
      subst hSame
      have hByte : byteAt header 5 ≠ 1 := fun hOne => absurd ((request_byte hType).mp hOne) (by simp)
      have hFlags : flagsAt header = 0 := not_not.mp fun hSome => hByte (hForm.2.oneShot hSome).1
      refine ⟨hForm.2.version, ?_⟩
      rw [← hFlags]
      exact (encodeHeader_fields hLength hForm.1 hType).symm

theorem read_ok {size : Nat} {bytes : List UInt8} (h : reader.read size = (.ok bytes, next)) :
    bytes.length = size ∧ reader.ahead = bytes ++ next.ahead := by
  have hExact := reader.read_exact size
  rw [h] at hExact
  have hLength := hExact.length rfl
  refine ⟨hLength, ?_⟩
  by_cases hSize : size ≤ reader.ahead.length
  · obtain ⟨hBytes, hNext⟩ := hExact.enough hSize
    cases hBytes
    rw [hNext, List.take_append_drop]
  · obtain ⟨reason, hReason⟩ := hExact.short (Nat.lt_of_not_le hSize)
    cases hReason

theorem readFrame_ok (h : readFrame oneShot maxMessageSize reader = (.ok (requestId, response), next)) :
    Readable oneShot maxMessageSize requestId response ∧ ∃ wireVersion, KnownVersion wireVersion ∧
      reader.ahead = Written.bytes (wireVersion, requestId, response) ++ next.ahead := by
  unfold readFrame at h
  split at h
  · cases h
  rename_i header behind hHeader
  obtain ⟨hLength, hAhead⟩ := read_ok hHeader
  split at h
  · cases h
  rename_i decoded hDecoded
  obtain ⟨hVersion, hBytes⟩ := decodeExpected_response hLength hDecoded
  split at h
  · cases h
  rename_i hOneShot
  split at h
  · cases h
  rename_i hStatus
  split at h
  · cases h
  rename_i hSize
  split at h
  · cases h
  rename_i body last hBody
  obtain ⟨hBodyLength, hRest⟩ := read_ok hBody
  cases h
  have hArg := decoded.arg1.toNat_lt
  have hMax : decoded.arg1.toNat ≤ (int32Max).toNat :=
    Nat.le_of_not_lt fun hLess => hStatus (UInt32.lt_iff_toNat_lt.mpr hLess)
  have hSecond := decoded.arg2.toNat_lt
  refine ⟨⟨⟨⟨Int.natCast_nonneg _, ?_⟩, ?_⟩, ?_, ?_⟩, decoded.version, hVersion, ?_⟩
  · exact Int.ofNat_le.mpr hMax
  · exact Nat.le_pred_of_lt (hBodyLength ▸ hSecond)
  · intro hTrue
    exact not_not.mp fun hId => hOneShot ⟨hTrue, hId⟩
  · exact Nat.le_of_not_lt (hBodyLength ▸ hSize)
  · have hFirst : UInt32.ofNat (Int.toNat (decoded.arg1.toNat : Int)) = decoded.arg1 := UInt32.ofNat_toNat
    have hBodySize : UInt32.ofNat body.length = decoded.arg2 := by rw [hBodyLength, UInt32.ofNat_toNat]
    rw [bytes_known hVersion, hFirst, hBodySize, ← hBytes, List.append_assoc, ← hRest]
    exact hAhead

/-- However the bytes arrive: the client accepts a response exactly when what it receives starts with the
frame that a server writes for it, and takes nothing behind this frame. -/
theorem readFrame_iff (oneShot : Bool) (maxMessageSize : Nat) (reader : BufferedReader) (requestId : UInt32)
    (response : Response) (rest : List UInt8) :
    (∃ next, readFrame oneShot maxMessageSize reader = (.ok (requestId, response), next) ∧ next.ahead = rest) ↔
      Readable oneShot maxMessageSize requestId response ∧ ∃ wireVersion, KnownVersion wireVersion ∧
        reader.ahead = Written.bytes (wireVersion, requestId, response) ++ rest := by
  constructor
  · rintro ⟨next, hRead, rfl⟩
    exact readFrame_ok hRead
  · rintro ⟨hReadable, wireVersion, hVersion, hAhead⟩
    exact (readFrame_written maxMessageSize hVersion hReadable.writable hReadable.requestId hAhead).1 hReadable.body

theorem bytes_length (frame : Written) : headerSize ≤ (Written.bytes frame).length := by
  rw [Written.bytes, frameBytes, List.length_append]
  exact Nat.le_add_right _ _

theorem ahead_shorter {frame : Written} (h : reader.ahead = frame.bytes ++ next.ahead) :
    next.ahead.length < reader.ahead.length := by
  have hHeader := bytes_length frame
  unfold headerSize at hHeader
  rw [h, List.length_append]
  omega

def Acceptable (maxMessageSize : Nat) (frame : Written) : Prop :=
  KnownVersion frame.1 ∧ Readable false maxMessageSize frame.2.1 frame.2.2

theorem readFrame_acceptable {frame : Written} (hFrame : Acceptable maxMessageSize frame)
    (hAhead : reader.ahead = frame.bytes ++ rest) :
    ∃ next, readFrame false maxMessageSize reader = (.ok frame.2, next) ∧ next.ahead = rest :=
  (readFrame_written maxMessageSize hFrame.1 hFrame.2.writable hFrame.2.requestId hAhead).1 hFrame.2.body

section Loop

variable (maxMessageSize : Nat) (stop : Nat → Bool) (find : Nat → UInt32 → Option Bool)

/-- The bytes start with acceptable frames; each one finds a slot that waits for it. -/
structure Passes (turn : Nat) (bytes : List UInt8) (frames : List Written) (tail : List UInt8) : Prop where
  bytes : bytes = frames.flatMap Written.bytes ++ tail
  acceptable : ∀ frame ∈ frames, Acceptable maxMessageSize frame
  turns : ∀ i frame, frames[i]? = some frame → stop (turn + i) = false ∧ find (turn + i) frame.2.1 = some false

/-- Why the turn in front of the `tail` is the last one. -/
inductive Ends (turn : Nat) (tail : List UInt8) : LoopEnd → Prop
  | stopped : stop turn = true → Ends turn tail .stopped
  | refused (reason : Exception) : stop turn = false →
      (∀ (frame : Written) rest, Acceptable maxMessageSize frame → tail ≠ frame.bytes ++ rest) →
      Ends turn tail (.threw reason)
  | unknown (frame : Written) (rest : List UInt8) : stop turn = false → Acceptable maxMessageSize frame →
      tail = frame.bytes ++ rest → find turn frame.2.1 = none →
      Ends turn tail (.threw (.error .protocol "unexpected response request_id"))
  | duplicate (frame : Written) (rest : List UInt8) : stop turn = false → Acceptable maxMessageSize frame →
      tail = frame.bytes ++ rest → find turn frame.2.1 = some true →
      Ends turn tail (.threw (.error .protocol "duplicate response request_id"))

theorem sessionReaderLoop_passed (fuel turn : Nat) (hFuel : reader.ahead.length < fuel) :
    ∃ frames tail ended,
      sessionReaderLoop maxMessageSize stop find fuel turn reader = (frames.map Prod.snd, some ended) ∧
        Passes maxMessageSize stop find turn reader.ahead frames tail ∧
        Ends maxMessageSize stop find (turn + frames.length) tail ended := by
  have hNone : Passes maxMessageSize stop find turn reader.ahead [] reader.ahead := ⟨rfl, by simp, nofun⟩
  induction fuel generalizing reader turn with
  | zero => exact absurd hFuel (Nat.not_lt_zero _)
  | succ fuel ih =>
    rw [sessionReaderLoop]
    split
    · rename_i hStop
      exact ⟨[], reader.ahead, .stopped, rfl, hNone, .stopped hStop⟩
    rename_i hGoesOn
    rw [Bool.not_eq_true] at hGoesOn
    split
    · rename_i reason next hRead
      refine ⟨[], reader.ahead, .threw reason, rfl, hNone, .refused reason hGoesOn ?_⟩
      intro frame rest hFrame hAhead
      obtain ⟨last, hLast, -⟩ := readFrame_acceptable hFrame hAhead
      rw [hRead] at hLast
      cases hLast
    · rename_i frame next hRead
      obtain ⟨hReadable, wireVersion, hVersion, hAhead⟩ := readFrame_ok hRead
      split
      · rename_i hFind
        exact ⟨[], reader.ahead, _, rfl, hNone, .unknown (wireVersion, frame) next.ahead hGoesOn ⟨hVersion, hReadable⟩
          hAhead hFind⟩
      · rename_i hFind
        exact ⟨[], reader.ahead, _, rfl, hNone, .duplicate (wireVersion, frame) next.ahead hGoesOn
          ⟨hVersion, hReadable⟩ hAhead hFind⟩
      · rename_i hFind
        have hShorter := ahead_shorter hAhead
        obtain ⟨frames, tail, ended, hLoop, hPasses, hEnds⟩ := @ih next (turn + 1) (by omega) ⟨rfl, by simp, nofun⟩
        refine ⟨(wireVersion, frame) :: frames, tail, ended, ?_, ⟨?_, ?_, ?_⟩, ?_⟩
        · rw [hLoop]
          rfl
        · rw [hAhead, hPasses.bytes, List.flatMap_cons, List.append_assoc]
        · exact List.forall_mem_cons.mpr ⟨⟨hVersion, hReadable⟩, hPasses.acceptable⟩
        · intro i other hOther
          cases i with
          | zero =>
            cases hOther
            exact ⟨hGoesOn, hFind⟩
          | succ i =>
            rw [← Nat.add_assoc, Nat.add_right_comm]
            exact hPasses.turns i other hOther
        · rw [List.length_cons, ← Nat.add_assoc, Nat.add_right_comm]
          exact hEnds

theorem sessionReaderLoop_sent (fuel turn : Nat) (hFuel : reader.ahead.length < fuel) {sent : List Written}
    (hSent : Passes maxMessageSize stop find turn reader.ahead sent rest) :
    sent.map Prod.snd <+: (sessionReaderLoop maxMessageSize stop find fuel turn reader).1 := by
  induction sent generalizing reader fuel turn with
  | nil => exact List.nil_prefix
  | cons frame sent ih =>
    obtain ⟨fuel, rfl⟩ := Nat.exists_eq_succ_of_ne_zero (Nat.ne_zero_of_lt hFuel)
    obtain ⟨hFrame, hLater⟩ := List.forall_mem_cons.mp hSent.acceptable
    have hAhead := hSent.bytes
    rw [List.flatMap_cons, List.append_assoc] at hAhead
    obtain ⟨next, hRead, hNext⟩ := readFrame_acceptable hFrame hAhead
    have hShorter := ahead_shorter (hAhead.trans (congrArg _ hNext.symm))
    obtain ⟨hStop, hFind⟩ := hSent.turns 0 frame rfl
    rw [Nat.add_zero] at hStop hFind
    simp only [sessionReaderLoop, hStop, Bool.false_eq_true, if_false, hRead, hFind]
    refine List.cons_prefix_cons.mpr ⟨rfl, ih fuel (turn + 1) (by omega) ⟨hNext, hLater, fun i other hOther => ?_⟩⟩
    rw [Nat.add_right_comm, Nat.add_assoc]
    exact hSent.turns (i + 1) other hOther

/-- However the bytes of a session arrive: the loop delivers exactly the responses in front of the first turn
that finds `reader_stop` set, no acceptable frame, or no slot that waits for the frame, and ends there. -/
theorem session_responses (reader : BufferedReader) :
    (∃ frames tail ended, sessionReaderLoop maxMessageSize stop find (reader.ahead.length + 1) 0 reader =
        (frames.map Prod.snd, some ended) ∧ Passes maxMessageSize stop find 0 reader.ahead frames tail ∧
        Ends maxMessageSize stop find frames.length tail ended) ∧
    ∀ (sent : List Written) (rest : List UInt8), Passes maxMessageSize stop find 0 reader.ahead sent rest →
      sent.map Prod.snd <+: (sessionReaderLoop maxMessageSize stop find (reader.ahead.length + 1) 0 reader).1 := by
  constructor
  · obtain ⟨frames, tail, ended, hLoop, hPasses, hEnds⟩ :=
      sessionReaderLoop_passed maxMessageSize stop find (reader.ahead.length + 1) 0 (Nat.lt_succ_self _)
    rw [Nat.zero_add] at hEnds
    exact ⟨frames, tail, ended, hLoop, hPasses, hEnds⟩
  · exact fun _ _ hSent => sessionReaderLoop_sent maxMessageSize stop find _ 0 (Nat.lt_succ_self _) hSent

end Loop

section Exchange

open Reactor.FixedRequest Reactor.ParserDecode
open Reactor.Parser (Options Receive accepted consumeAll plain smallMessages)
open Transport.Io (requestFrame)

variable {server : Server} {opts : Options}

theorem acceptedResponse_status (output : Reactor.Output.Options) (response : Response) :
    0 ≤ (acceptedResponse output response).status := by
  have hError : ∀ message, 0 ≤ (errorResponse output message).status := fun _ => Int.le.intro 500 rfl
  unfold acceptedResponse
  split
  · exact hError _
  · rename_i hStatus
    split
    · exact hError _
    · exact Int.not_lt.mp hStatus

/-- What is answered has passed the tests of `write_fixed_response`. -/
structure Checked (server : Server) (outcome : Reactor.FixedRequest.Outcome) : Prop where
  answered : ∀ invoked response, outcome = .answered invoked response →
    ∃ made, response = acceptedResponse server.output made

theorem checked_write (deadline : Option Nat) (clock : Nat) (invocation : Invocation) :
    Checked server (writeFixedResponse server deadline clock invocation) := by
  unfold writeFixedResponse
  split
  · exact ⟨by simp⟩
  · refine ⟨fun invoked response h => ?_⟩
    cases h
    exact ⟨_, rfl⟩

variable (request : Request) (context : Context) (now elapsed : Nat)

theorem checked_execute (entry : HandlerEntry) :
    Checked server (executeJob server request context now elapsed entry) := by
  unfold executeJob
  split
  · exact checked_write ..
  · split
    · exact checked_write ..
    · exact ⟨by simp⟩

theorem checked_serialized (fate : Fate) (entry : HandlerEntry) :
    Checked server (serveSerialized server request context now elapsed fate entry) := by
  unfold serveSerialized
  split
  · exact ⟨by simp⟩
  · exact ⟨by simp⟩
  · exact checked_write ..
  · split
    · exact checked_write ..
    · exact checked_execute ..

theorem checked_dispatch (fate : Fate) : Checked server (dispatchRequest server request context now elapsed fate) := by
  unfold dispatchRequest
  dsimp only
  split
  · exact checked_serialized ..
  · exact checked_execute ..

theorem checked_serve (fate : Fate) : Checked server (serveFixedRequest server request context now elapsed fate) := by
  unfold serveFixedRequest
  split
  · exact checked_write ..
  · split
    · exact checked_serialized ..
    · exact checked_write ..

variable {wireVersion : UInt8} {route body : List UInt8} {calls : List (List Receive)}

/-- A request that is received entirely is the only one, and its version is now that of the connection. -/
theorem consumeAll_request (hValid : Frame.Valid opts wireVersion (.request 0 route body))
    (hPlain : ∀ receives ∈ calls, ∀ receive ∈ receives, plain receive = true) {outcome : Reactor.Parser.Outcome}
    (hOutcome : consumeAll opts accepted (requestFrame 0 route body wireVersion) calls = outcome)
    (hAll : outcome.socket = []) :
    outcome.events = [.request 0 route body none] ∧ outcome.rc.wireVersion = wireVersion := by
  obtain ⟨data, cursor, hBytes, hRun, hRests⟩ : Decodes opts accepted (requestFrame 0 route body wireVersion) outcome :=
    hOutcome ▸ consumeAll_decodes accepted_open hPlain
  rw [hAll, List.append_nil] at hBytes
  subst hBytes
  have hFrame := run_frame hValid (start_boundary wireVersion)
  rw [Frame.encode, Frame.event] at hFrame
  obtain ⟨rfl, hEvents⟩ := Prod.mk.inj (hRun.symm.trans hFrame)
  refine ⟨hEvents, ?_⟩
  unfold Rests at hRests
  cases hResult : outcome.result with
  | returned =>
    rw [hResult] at hRests
    obtain ⟨-, -, -, hCursor, -, -⟩ | ⟨hStage, -⟩ := hRests
    · have hVersion := congrArg (fun cursor => cursor.mode.version) hCursor
      unfold position at hVersion
      split at hVersion <;> exact hVersion.symm
    · cases hStage
  | threw error | outOfFuel =>
    rw [hResult] at hRests
    cases hRests

/-- However the bytes arrive on both sides: the server gets exactly the request that the client has
sent, and on either path the client gets exactly the response that is written, or refuses it for its
size. A `Status` has 32 bits. -/
theorem request_exchange (opts : Options) (server : Server) (maxMessageSize : Nat) (wireVersion : UInt8)
    (route body : List UInt8) (calls : List (List Receive)) (outcome : Reactor.Parser.Outcome)
    (hVersion : KnownVersion wireVersion)
    (hClient : validateRequestLengths route.length body.length maxMessageSize = .ok ())
    (hServer : route.length + body.length ≤ opts.maxMessageSize)
    (hPlain : ∀ receives ∈ calls, ∀ receive ∈ receives, plain receive = true)
    (hOutcome : consumeAll opts accepted (requestFrame 0 route body wireVersion) calls = outcome)
    (hAll : outcome.socket = []) :
    outcome.events = [.request 0 route body none] ∧
      ∀ context now elapsed fate invoked response,
        dispatchRequest server ⟨0, route, body⟩ context now elapsed fate = .answered invoked response ∨
          serveFixedRequest server ⟨0, route, body⟩ context now elapsed fate = .answered invoked response →
        response.status ≤ 2147483647 →
        ∀ (reader : BufferedReader) rest,
          reader.ahead = Written.bytes (outcome.rc.wireVersion, 0, response) ++ rest →
          readResponse maxMessageSize reader =
            if response.body.length ≤ maxMessageSize then .ok response
            else .error (.error .tooLarge "response exceeds max_message_size") := by
  have hRoute : route ≠ [] := List.length_pos_iff.mp (validateRequestLengths_ok.mp hClient).1
  obtain ⟨hEvents, hConnection⟩ := consumeAll_request ⟨hVersion, hRoute, hServer⟩ hPlain hOutcome hAll
  refine ⟨hEvents, ?_⟩
  intro context now elapsed fate invoked response hAnswered hStatus reader rest hAhead
  obtain ⟨made, hMade⟩ : ∃ made, response = acceptedResponse server.output made := by
    rcases hAnswered with hDispatch | hServe
    · exact (checked_dispatch ..).answered _ _ hDispatch
    · exact (checked_serve ..).answered _ _ hServe
  have hWritable : Writable response := by
    refine ⟨⟨?_, hStatus⟩, ?_⟩
    · rw [hMade]
      exact acceptedResponse_status ..
    · rw [hMade]
      exact Reactor.OutputBudget.acceptedResponse_small ..
  rw [hConnection] at hAhead
  obtain ⟨hFits, hLarge⟩ := @readFrame_written true _ _ _ _ _ maxMessageSize hVersion hWritable (fun _ => rfl) hAhead
  unfold readResponse
  split
  · rename_i hBody
    obtain ⟨next, hRead, -⟩ := hFits hBody
    rw [hRead]
    rfl
  · rename_i hBody
    rw [hLarge (Nat.lt_of_not_le hBody)]
    rfl

def receivedParts (front : Nat) (bytes : List UInt8) : BufferedReader where
  held := []
  socket := [.data (bytes.take front), .interrupted, .data (bytes.drop front)]

/-- The response comes in two parts, the first of which ends within the header. -/
theorem request_exchange_oneRoute :
    readResponse 64 (receivedParts 7 (Written.bytes (3, 0, ⟨200, [1]⟩))) = .ok ⟨200, [1]⟩ := by
  have hExchange := request_exchange smallMessages oneRoute 64 3 [97] [98] [[.bytes 5 none], [.bytes 30 none]] _
    (.inr rfl) rfl (by decide) (by decide) rfl (by decide +kernel)
  exact hExchange.2 ⟨0, none, false, true, false, 0, none⟩ 0 0 .executed true ⟨200, [1]⟩ (.inl (by decide +kernel))
    (by decide) (receivedParts 7 (Written.bytes (3, 0, ⟨200, [1]⟩))) [] (by decide +kernel)

end Exchange

end EasyUds.Transport.Responses

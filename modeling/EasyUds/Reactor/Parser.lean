import EasyUds.Protocol.Codec

/-! # The reactor's parser

`consume` reads what the socket holds, at most a batch, and then dispatches every complete frame
(`reactor/parser.cpp`, on a platform without Windows handles). A received chunk has at least one byte
and at most as many as were asked for and are there; the environment chooses how many.

Whether a byte reservation is granted, and what becomes of a dispatched request, is decided by other
parts of the server: an `Answer` says so for one pass of the parse loop. The times of a frame and the
cancellation flags are left out; the events say which requests and cancellations the parser passes on.
-/

namespace EasyUds.Reactor.Parser

open Protocol.Codec

structure Options where
  maxMessageSize : Nat
  maxTotalInflightBytes : Nat
  messageSize : 1 ≤ maxMessageSize ∧ maxMessageSize ≤ maxWireField

def Options.strictBudget (opts : Options) : Bool := opts.maxTotalInflightBytes != 0

def reactorReadScratchSize : Nat := 64 * 1024
def reactorReadBatchSize : Nat := 256 * 1024

inductive ParsePhase
  | header
  | requestBudget
  | requestPayload
  | streamBudget
  | streamRoute
  deriving DecidableEq, Repr

/-- The parse state of a connection, and what the parser uses of the connection itself. -/
structure ReactorConnection where
  phase : ParsePhase
  header : HeaderBytes
  headerReceived : Nat
  routeBuffer : List UInt8
  bodyBuffer : List UInt8
  payloadReceived : Nat
  payloadTotal : Nat
  requestId : UInt32
  requestFlags : UInt16
  arg1 : UInt32
  arg2 : UInt32
  reservedRequestBytes : Nat
  readPaused : Bool
  pending : List UInt8
  pendingOffset : Nat
  receivedFds : List Nat
  receivedFd : Option Nat
  wireVersion : UInt8
  closing : Bool
  streamActive : Bool
  deriving DecidableEq, Repr

inductive Event
  | request (requestId : UInt32) (route body : List UInt8) (fd : Option Nat)
  | cancel (requestId : UInt32)
  | stream (requestId : UInt32) (route : List UInt8)
  deriving DecidableEq, Repr

inductive Dispatched
  | accepted
  | paused
  | threw (error : Exception)
  deriving DecidableEq, Repr

structure Answer where
  reserved : Bool
  dispatched : Dispatched
  streamTaken : Bool
  deriving DecidableEq, Repr

def granted : Answer where
  reserved := true
  dispatched := .accepted
  streamTaken := true

def accepted : ReactorConnection where
  phase := .header
  header := List.replicate headerSize 0
  headerReceived := 0
  routeBuffer := []
  bodyBuffer := []
  payloadReceived := 0
  payloadTotal := 0
  requestId := 0
  requestFlags := 0
  arg1 := 0
  arg2 := 0
  reservedRequestBytes := 0
  readPaused := false
  pending := []
  pendingOffset := 0
  receivedFds := []
  receivedFd := none
  wireVersion := 0
  closing := false
  streamActive := false

def unparsed (rc : ReactorConnection) : List UInt8 := rc.pending.drop rc.pendingOffset

def available (rc : ReactorConnection) : Nat := rc.pending.length - rc.pendingOffset

/-- The second component is the result: `false` says that reading is paused. -/
def beginRequestPayload (opts : Options) (reserved : Bool) (rc : ReactorConnection) :
    ReactorConnection × Bool :=
  if opts.strictBudget && !reserved then ({ rc with readPaused := true }, false)
  else
    ({ rc with
        reservedRequestBytes := if opts.strictBudget then rc.payloadTotal else rc.reservedRequestBytes
        routeBuffer := []
        bodyBuffer := []
        phase := .requestPayload }, true)

def beginStreamRoute (opts : Options) (reserved : Bool) (rc : ReactorConnection) :
    ReactorConnection × Bool :=
  if opts.strictBudget && !reserved then ({ rc with readPaused := true }, false)
  else
    ({ rc with
        reservedRequestBytes := if opts.strictBudget then rc.arg1.toNat else rc.reservedRequestBytes
        routeBuffer := []
        phase := .streamRoute }, true)

def releaseConsumedPending (opts : Options) (rc : ReactorConnection) : ReactorConnection :=
  if opts.strictBudget && rc.pendingOffset == rc.pending.length then
    { rc with pending := [], pendingOffset := 0 }
  else rc

inductive Pass
  | again (rc : ReactorConnection) (events : List Event)
  | stop (rc : ReactorConnection) (events : List Event)
  | threw (rc : ReactorConnection) (error : Exception)
  deriving DecidableEq, Repr

inductive Announced
  | cancel (requestId : UInt32)
  | request (decoded : DecodedHeader)
  | stream (decoded : DecodedHeader)
  deriving DecidableEq, Repr

def observedVersion (wireVersion decoded : UInt8) : UInt8 := if wireVersion = 0 then decoded else wireVersion

/-- The tests that a decoded header has to pass; `descriptor` says that an ancillary descriptor waits. -/
def announce (opts : Options) (wireVersion : UInt8) (descriptor : Bool) (decoded : DecodedHeader) :
    Except Exception Announced :=
  if wireVersion ≠ decoded.version then .error (.runtimeError "protocol version changed on connection")
  else
    match decoded.type with
    | .cancelRequest => .ok (.cancel decoded.requestId)
    | .request =>
      if decoded.flags &&& carriesWindowsHandleFlag ≠ 0 then
        .error (.runtimeError "Windows handle transfer is unavailable on this platform")
      else if decoded.flags &&& carriesFdFlag ≠ 0 ∧ descriptor = false then
        .error (.runtimeError "fd frame without ancillary descriptor")
      else
        match validateRequestLengths decoded.arg1.toNat decoded.arg2.toNat opts.maxMessageSize with
        | .error error => .error error
        | .ok () => .ok (.request decoded)
    | .streamRequest =>
      if decoded.flags &&& carriesFdFlag ≠ 0 then
        .error (.runtimeError "fd flag is only supported on fixed requests")
      else if decoded.arg1 = 0 ∨ decoded.arg2 ≠ 0 ∨ decoded.arg1.toNat > opts.maxMessageSize then
        .error (.runtimeError "invalid stream request header")
      else .ok (.stream decoded)
    | _ => .error (.runtimeError "unexpected protocol message type")

def copyHeader (rc : ReactorConnection) (take : Nat) : ReactorConnection :=
  { rc with
    header := rc.header.take rc.headerReceived ++ (unparsed rc).take take ++
      rc.header.drop (rc.headerReceived + take)
    pendingOffset := rc.pendingOffset + take
    headerReceived := rc.headerReceived + take }

def startRequest (opts : Options) (answer : Answer) (rc : ReactorConnection) (decoded : DecodedHeader) : Pass :=
  let carried := decoded.flags &&& carriesFdFlag ≠ 0
  let started := beginRequestPayload opts answer.reserved
    { rc with
      receivedFd := if carried then rc.receivedFds.head? else rc.receivedFd
      receivedFds := if carried then rc.receivedFds.tail else rc.receivedFds
      requestId := decoded.requestId
      requestFlags := decoded.flags
      arg1 := decoded.arg1
      arg2 := decoded.arg2
      payloadTotal := decoded.arg1.toNat + decoded.arg2.toNat
      payloadReceived := 0
      phase := .requestBudget }
  if started.2 then .again started.1 [] else .stop started.1 []

def startStream (opts : Options) (answer : Answer) (rc : ReactorConnection) (decoded : DecodedHeader) : Pass :=
  let started := beginStreamRoute opts answer.reserved
    { rc with
      requestId := decoded.requestId
      arg1 := decoded.arg1
      arg2 := 0
      phase := .streamBudget }
  if started.2 then .again started.1 [] else .stop started.1 []

def wholeHeader (opts : Options) (answer : Answer) (rc : ReactorConnection) : Pass :=
  match decodeHeader rc.header with
  | .error error => .threw rc error
  | .ok decoded =>
    let seen := { rc with wireVersion := observedVersion rc.wireVersion decoded.version }
    match announce opts seen.wireVersion (seen.receivedFds != []) decoded with
    | .error error => .threw seen error
    | .ok (.cancel requestId) => .again seen [.cancel requestId]
    | .ok (.request decoded) => startRequest opts answer seen decoded
    | .ok (.stream decoded) => startStream opts answer seen decoded

def headerPass (opts : Options) (answer : Answer) (rc : ReactorConnection) : Pass :=
  let copied := copyHeader rc (min (available rc) (headerSize - rc.headerReceived))
  if copied.headerReceived ≠ headerSize then .stop (releaseConsumedPending opts copied) []
  else wholeHeader opts answer (releaseConsumedPending opts { copied with headerReceived := 0 })

/-- What `dispatch_request` takes out of the parse state, and the reset behind it. -/
def dispatchRequest (answer : Answer) (rc : ReactorConnection) : Pass :=
  let event := Event.request rc.requestId rc.routeBuffer rc.bodyBuffer rc.receivedFd
  let moved := { rc with routeBuffer := [], bodyBuffer := [], receivedFd := none, reservedRequestBytes := 0 }
  let next := { moved with requestFlags := 0, phase := .header }
  match answer.dispatched with
  | .threw error => .threw moved error
  | .paused => .stop { next with readPaused := true } [event]
  | .accepted => .again next [event]

def payloadPass (opts : Options) (answer : Answer) (rc : ReactorConnection) : Pass :=
  let take := min (available rc) (rc.payloadTotal - rc.payloadReceived)
  let routePart := min take (rc.arg1.toNat - rc.routeBuffer.length)
  let chunk := (unparsed rc).take take
  let copied := releaseConsumedPending opts
    { rc with
      routeBuffer := rc.routeBuffer ++ chunk.take routePart
      bodyBuffer := rc.bodyBuffer ++ chunk.drop routePart
      pendingOffset := rc.pendingOffset + take
      payloadReceived := rc.payloadReceived + take }
  if copied.payloadReceived = copied.payloadTotal then dispatchRequest answer copied else .stop copied []

/-- A refused stream closes the connection; otherwise a stream worker takes over the unread bytes. -/
def dispatchStream (answer : Answer) (rc : ReactorConnection) : Pass :=
  let event := Event.stream rc.requestId rc.routeBuffer
  if answer.streamTaken then
    .stop { rc with
      routeBuffer := []
      reservedRequestBytes := 0
      streamActive := true
      pending := []
      pendingOffset := 0 } [event]
  else .stop { rc with closing := true } [event]

def streamPass (opts : Options) (answer : Answer) (rc : ReactorConnection) : Pass :=
  let take := min (available rc) (rc.arg1.toNat - rc.routeBuffer.length)
  let copied := releaseConsumedPending opts
    { rc with
      routeBuffer := rc.routeBuffer ++ (unparsed rc).take take
      pendingOffset := rc.pendingOffset + take }
  if copied.routeBuffer.length = copied.arg1.toNat then dispatchStream answer copied else .stop copied []

def parsePass (opts : Options) (answer : Answer) (rc : ReactorConnection) : Pass :=
  match rc.phase with
  | .header => headerPass opts answer rc
  | .requestPayload => payloadPass opts answer rc
  | _ => streamPass opts answer rc

inductive Result
  | returned
  | threw (error : Exception)
  | outOfFuel
  deriving DecidableEq, Repr

structure Parsed where
  rc : ReactorConnection
  events : List Event
  result : Result
  deriving DecidableEq, Repr

def parse (opts : Options) : Nat → List Answer → ReactorConnection → Parsed
  | 0, _, rc => ⟨rc, [], .outOfFuel⟩
  | fuel + 1, answers, rc =>
    match parsePass opts (answers.headD granted) rc with
    | .again next events =>
      let later := parse opts fuel answers.tail next
      { later with events := events ++ later.events }
    | .stop last events => ⟨last, events, .returned⟩
    | .threw last error => ⟨last, [], .threw error⟩

inductive Receive
  | bytes (count : Nat) (fd : Option Nat)
  | interrupted
  | wouldBlock
  | closed
  | failed
  | invalid (error : Exception)
  deriving DecidableEq, Repr

def plain : Receive → Bool
  | .bytes _ none | .interrupted | .wouldBlock => true
  | _ => false

/-- What the next receive asks for. With a strict budget it never passes the current block. -/
def requestSize (opts : Options) (rc : ReactorConnection) (readAhead : Nat) : Nat :=
  let size := min reactorReadScratchSize (reactorReadBatchSize - readAhead)
  if opts.strictBudget then
    match rc.phase with
    | .header => min size (headerSize - rc.headerReceived - available rc)
    | .requestPayload => min size (rc.payloadTotal - rc.payloadReceived - available rc)
    | .streamRoute => min size (rc.arg1.toNat - rc.routeBuffer.length - available rc)
    | _ => size
  else size

def appendPending (rc : ReactorConnection) (data : List UInt8) (fd : Option Nat) : ReactorConnection :=
  let clear := rc.pendingOffset != 0 && rc.pendingOffset == rc.pending.length
  { rc with
    pending := (if clear then [] else rc.pending) ++ data
    pendingOffset := if clear then 0 else rc.pendingOffset
    receivedFds := rc.receivedFds ++ fd.toList }

inductive Read
  | more (rc : ReactorConnection) (socket : List UInt8) (readAhead : Nat)
  | parse (rc : ReactorConnection) (socket : List UInt8)
  | stop (rc : ReactorConnection) (socket : List UInt8)
  | threw (rc : ReactorConnection) (socket : List UInt8) (error : Exception)
  deriving DecidableEq, Repr

def readPass (opts : Options) (rc : ReactorConnection) (socket : List UInt8) (readAhead : Nat)
    (receive : Receive) : Read :=
  if reactorReadBatchSize ≤ readAhead ∨ requestSize opts rc readAhead = 0 then .parse rc socket
  else
    match receive with
    | .bytes count fd =>
      let data := socket.take (min (max 1 count) (requestSize opts rc readAhead))
      if data = [] then .parse rc socket
      else
        let next := appendPending rc data fd
        if opts.strictBudget then .parse next (socket.drop data.length)
        else .more next (socket.drop data.length) (readAhead + data.length)
    | .interrupted => .more rc socket readAhead
    | .wouldBlock => .parse rc socket
    | .closed | .failed => .stop { rc with closing := true } socket
    | .invalid error => .threw rc socket error

def readLoop (opts : Options) (rc : ReactorConnection) (socket : List UInt8) (readAhead : Nat) :
    List Receive → Read
  | [] => .parse rc socket
  | receive :: rest =>
    match readPass opts rc socket readAhead receive with
    | .more next left ahead => readLoop opts next left ahead rest
    | other => other

structure Outcome where
  rc : ReactorConnection
  socket : List UInt8
  events : List Event
  result : Result
  deriving DecidableEq, Repr

/-- A frame that waits for its budget asks again before anything is read. -/
def retryBudget (opts : Options) (answer : Answer) (rc : ReactorConnection) : ReactorConnection × Bool :=
  match rc.phase with
  | .requestBudget => beginRequestPayload opts answer.reserved rc
  | .streamBudget => beginStreamRoute opts answer.reserved rc
  | _ => (rc, true)

/-- The first answer is for the frame that waits for its budget, if there is one. -/
def consume (opts : Options) (answers : List Answer) (rc : ReactorConnection) (socket : List UInt8)
    (receives : List Receive) : Outcome :=
  let ready := retryBudget opts (answers.headD granted) rc
  if ready.2 then
    match readLoop opts ready.1 socket 0 receives with
    | .parse next left =>
      let parsed := parse opts (available next + 1) answers.tail next
      ⟨parsed.rc, left, parsed.events, parsed.result⟩
    | .more next left _ | .stop next left => ⟨next, left, [], .returned⟩
    | .threw next left error => ⟨next, left, [], .threw error⟩
  else ⟨ready.1, socket, [], .returned⟩

/-- Calls of `consume` one after the other, as long as the reactor keeps the connection. -/
def consumeAll (opts : Options) (rc : ReactorConnection) (socket : List UInt8) :
    List (List Receive) → Outcome
  | [] => ⟨rc, socket, [], .returned⟩
  | receives :: rest =>
    let first := consume opts [] rc socket receives
    if first.result = .returned ∧ first.rc.closing = false ∧ first.rc.streamActive = false then
      let later := consumeAll opts first.rc first.socket rest
      { later with events := first.events ++ later.events }
    else first

section

variable (opts : Options) (rc : ReactorConnection) (socket : List UInt8) (readAhead : Nat)

inductive Reads : Receive → Read → Prop
  | nothing (receive : Receive) : Reads receive (.parse rc socket)
  | interrupted : Reads .interrupted (.more rc socket readAhead)
  | stopped (receive : Receive) : plain receive = false → Reads receive (.stop { rc with closing := true } socket)
  | invalid (error : Exception) : Reads (.invalid error) (.threw rc socket error)
  | some (count : Nat) (fd : Option Nat) (data rest : List UInt8) : data ≠ [] → socket = data ++ rest →
      readAhead < reactorReadBatchSize → data.length ≤ requestSize opts rc readAhead → Reads (.bytes count fd)
        (if opts.strictBudget then .parse (appendPending rc data fd) rest
          else .more (appendPending rc data fd) rest (readAhead + data.length))

theorem readPass_reads (receive : Receive) :
    Reads opts rc socket readAhead receive (readPass opts rc socket readAhead receive) := by
  unfold readPass
  split
  · exact .nothing receive
  · rename_i hLimit
    cases receive with
    | bytes count fd =>
      dsimp only
      obtain ⟨data, hData⟩ : ∃ data, data = socket.take (min (max 1 count) (requestSize opts rc readAhead)) := ⟨_, rfl⟩
      rw [← hData]
      split
      · exact .nothing _
      · rename_i hSome
        have hSocket : socket = data ++ socket.drop data.length :=
          (List.prefix_iff_eq_append.mp (hData ▸ List.take_prefix _ _)).symm
        refine .some count fd data _ hSome hSocket (by omega) ?_
        rw [hData, List.length_take]
        omega
    | interrupted => exact .interrupted
    | wouldBlock => exact .nothing _
    | closed | failed => exact .stopped _ rfl
    | invalid error => exact .invalid error

theorem readPass_wouldBlock : readPass opts rc socket readAhead .wouldBlock = .parse rc socket := by
  unfold readPass
  split <;> rfl

end

theorem appendPending_unparsed {rc : ReactorConnection} (data : List UInt8) (fd : Option Nat)
    (hOffset : rc.pendingOffset ≤ rc.pending.length) :
    unparsed (appendPending rc data fd) = unparsed rc ++ data ∧
      (appendPending rc data fd).pendingOffset ≤ (appendPending rc data fd).pending.length := by
  simp only [appendPending, unparsed]
  split
  · rename_i hClear
    simp only [Bool.and_eq_true, beq_iff_eq] at hClear
    rw [hClear.2, List.drop_length]
    exact ⟨rfl, Nat.zero_le _⟩
  · refine ⟨List.drop_append_of_le_length hOffset, ?_⟩
    rw [List.length_append]
    omega

def smallMessages : Options where
  maxMessageSize := 64
  maxTotalInflightBytes := 0
  messageSize := by decide

end EasyUds.Reactor.Parser

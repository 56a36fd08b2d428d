import EasyUds.Lib.Machine
import EasyUds.Reactor.Parser

/-! # The continuation lease

The reactor's `consume` and the workers of one connection. A worker that completes the last running
request may take the file descriptor over (`try_acquire_continuation_lease`), reads the next request
itself (`continue_connection`) and gives the descriptor back (`rearm_connection`). With an aggregate
byte budget no lease is granted.

A section under `connections_mutex`, an atomic access, a receive call and a pass of the parse loop are
a step each. The peer has sent the whole stream; `socket` is what nobody has received. The peer passes
no descriptors, receiving never fails and no request times out, but the idle grace of a lease may end.
Whether a handler is serialized, whether the bytes of a request are reserved, whether a dispatch pauses
the reading, when the paused reading goes on, and how much a stream exchange takes and gives back, is
decided by other parts of the server and comes with the action.

`decoded` is a history: the frames in the order in which the reactor or a worker had them complete.
-/

namespace EasyUds.Reactor.Continuation

open Lib Protocol.Codec Reactor.Parser

structure Options extends Parser.Options where
  sessionIdleGrace : Nat

inductive LeaseTest
  | running
  | sessionCapable
  | closing
  | activeRegular
  | pendingSerialized
  deriving DecidableEq, Repr

def leaseTests : List LeaseTest := [.running, .sessionCapable, .closing, .activeRegular, .pendingSerialized]

inductive Afterwards
  | serve
  | leave
  deriving DecidableEq, Repr

/-- The next step of a worker. From `loop` to `rearmLocked` it holds the lease, unless it comes from
an error. -/
inductive Worker
  | waiting
  | serving (continued : Bool)
  | completing
  | completed (previous : Nat)
  | testing (tests : List LeaseTest)
  | locking
  | loop
  | awaiting
  | header (bytes : List UInt8)
  | route (header : HeaderBytes) (decoded : DecodedHeader) (bytes : List UInt8)
  | body (header : HeaderBytes) (decoded : DecodedHeader) (route bytes : List UInt8)
  | accounting (requestId : UInt32)
  | rearm (afterwards : Afterwards) (buffered : List UInt8)
  | rearmRunning (afterwards : Afterwards) (buffered : List UInt8)
  | rearmLocked (afterwards : Afterwards) (buffered : List UInt8)
  deriving DecidableEq, Repr

inductive ReactorStep
  | waiting
  | reading (readAhead : Nat)
  | parsing
  | leaving
  deriving DecidableEq, Repr

structure State where
  running : Bool
  socket : List UInt8
  rc : ReactorConnection
  reactorBusy : Bool
  resumed : Nat
  workerOwned : Bool
  sessionCapable : Bool
  activeRegular : Nat
  pendingSerialized : Nat
  pendingJobs : Nat
  reactor : ReactorStep
  workers : List Worker
  decoded : List Event
  deriving DecidableEq, Repr

inductive Handling
  | regular
  | serialized
  | refused
  deriving DecidableEq, Repr

inductive Action
  | event (readable reserved : Bool)
  | resumed (reserved : Bool)
  | receive (receive : Receive)
  | pass (handling : Handling) (paused reserved : Bool)
  | leave
  | resume
  | serializedDone
  | exchanged (buffered : List UInt8) (count : Nat)
  | worker (index : Nat) (count : Nat) (serialized graceOver : Bool)
  | stop
  deriving DecidableEq, Repr

def enterConsume (opts : Options) (s : State) (reserved : Bool) : State :=
  let ready := retryBudget opts.toOptions { granted with reserved } s.rc
  { s with
    reactorBusy := true
    rc := ready.1
    reactor := if ready.2 then .reading 0 else .leaving }

def reactorEvent (opts : Options) (s : State) (readable reserved : Bool) : Option State :=
  if s.reactor ≠ .waiting ∨ s.rc.closing ∨ s.rc.streamActive ∨ s.workerOwned then none
  else if readable ∧ s.rc.readPaused = false then some (enterConsume opts s reserved)
  else some { s with reactorBusy := true, reactor := .leaving }

def processResumed (opts : Options) (s : State) (reserved : Bool) : Option State :=
  if s.reactor ≠ .waiting ∨ s.resumed = 0 then none
  else
    let popped := { s with resumed := s.resumed - 1 }
    if s.rc.readPaused ∨ s.reactorBusy ∨ s.rc.closing ∨ s.rc.streamActive ∨ s.workerOwned then some popped
    else some (enterConsume opts popped reserved)

def reactorReceive (opts : Options) (s : State) (receive : Receive) : Option State :=
  match s.reactor with
  | .reading readAhead =>
    match readPass opts.toOptions s.rc s.socket readAhead receive with
    | .more rc socket ahead => some { s with rc, socket, reactor := .reading ahead }
    | .parse rc socket => some { s with rc, socket, reactor := .parsing }
    | .stop rc socket => some { s with rc, socket, reactor := .waiting }
    | .threw rc socket _ => some { s with rc := { rc with closing := true }, socket, reactor := .waiting }
  | _ => none

def dispatch (s : State) (handling : Handling) : Event → State
  | .request requestId _ _ _ =>
    match handling with
    | .regular =>
      { s with
        sessionCapable := s.sessionCapable || requestId != 0
        activeRegular := s.activeRegular + 1
        pendingJobs := s.pendingJobs + 1 }
    | .serialized => { s with pendingSerialized := s.pendingSerialized + 1 }
    | .refused => s
  | _ => s

def handOver (s : State) (handling : Handling) (events : List Event) : State :=
  events.foldl (fun s event => dispatch s handling event) { s with decoded := s.decoded ++ events }

def passAnswer (paused reserved : Bool) : Answer :=
  { granted with reserved, dispatched := if paused then .paused else .accepted }

def reactorPass (opts : Options) (s : State) (handling : Handling) (paused reserved : Bool) : Option State :=
  match s.reactor with
  | .parsing =>
    match parsePass opts.toOptions (passAnswer paused reserved) s.rc with
    | .again rc events => some (handOver { s with rc } handling events)
    | .stop rc events => some (handOver { s with rc, reactor := .leaving } handling events)
    | .threw rc _ => some { s with rc := { rc with closing := true }, reactor := .waiting }
  | _ => none

def reactorLeave (s : State) : Option State :=
  match s.reactor with
  | .leaving =>
    if s.rc.closing then some { s with reactor := .waiting }
    else some { s with reactorBusy := false, reactor := .waiting }
  | _ => none

def setWorker (s : State) (index : Nat) (worker : Worker) : State :=
  { s with workers := s.workers.set index worker }

def leaseTest (s : State) : LeaseTest → Bool
  | .running => s.running
  | .sessionCapable => s.sessionCapable
  | .closing => !s.rc.closing
  | .activeRegular => s.activeRegular == 0
  | .pendingSerialized => s.pendingSerialized == 0

def leaseGranted (s : State) : Bool :=
  !s.reactorBusy && s.rc.phase == .header && !s.rc.readPaused && s.rc.pendingOffset == s.rc.pending.length &&
    !s.rc.streamActive && !s.workerOwned && !s.rc.closing && s.activeRegular == 0 && s.pendingSerialized == 0

inductive ContinueHeader
  | threw (error : Exception)
  | cancel (requestId : UInt32)
  | replay
  | request
  deriving DecidableEq, Repr

/-- The tests of `continue_connection` on a decoded header. -/
def continueHeader (opts : Options) (wireVersion : UInt8) (decoded : DecodedHeader) : ContinueHeader :=
  if wireVersion ≠ decoded.version then .threw (.runtimeError "protocol version changed on connection")
  else if decoded.type = .cancelRequest then .cancel decoded.requestId
  else if decoded.flags &&& carriesFdFlag ≠ 0 then
    .threw (.runtimeError "fd flag is not supported on persistent-session requests")
  else if decoded.flags &&& carriesWindowsHandleFlag ≠ 0 then
    .threw (.runtimeError "Windows handle transfer is only supported on one-shot requests")
  else if decoded.type = .streamRequest then .replay
  else if decoded.type ≠ .request then .threw (.runtimeError "unexpected frame on persistent connection")
  else
    match validateRequestLengths decoded.arg1.toNat decoded.arg2.toNat opts.maxMessageSize with
    | .error error => .threw error
    | .ok () => .request

def failContinue (s : State) (index : Nat) : State :=
  setWorker { s with rc := { s.rc with closing := true } } index (.rearm .leave [])

def continueDecoded (opts : Options) (s : State) (index : Nat) (header : HeaderBytes) : State :=
  match decodeHeader header with
  | .error _ => failContinue s index
  | .ok decoded =>
    let seen := { s with rc := { s.rc with wireVersion := observedVersion s.rc.wireVersion decoded.version } }
    match continueHeader opts seen.rc.wireVersion decoded with
    | .threw _ => failContinue seen index
    | .cancel requestId =>
      setWorker { seen with decoded := seen.decoded ++ [.cancel requestId] } index .loop
    | .replay => setWorker seen index (.rearm .leave header)
    | .request => setWorker seen index (.route header decoded [])

def requestRead (s : State) (index : Nat) (decoded : DecodedHeader) (route body : List UInt8) : State :=
  setWorker { s with decoded := s.decoded ++ [.request decoded.requestId route body none] } index
    (.accounting decoded.requestId)

def receiveExact (s : State) (missing count : Nat) : Option (State × List UInt8) :=
  let data := s.socket.take (min (max 1 count) missing)
  if data = [] then none else some ({ s with socket := s.socket.drop data.length }, data)

def rearmed (rc : ReactorConnection) (buffered : List UInt8) : ReactorConnection :=
  { rc with
    phase := .header
    header := List.replicate headerSize 0
    headerReceived := 0
    routeBuffer := []
    bodyBuffer := []
    payloadReceived := 0
    payloadTotal := 0
    requestId := 0
    arg1 := 0
    arg2 := 0
    reservedRequestBytes := 0
    readPaused := false
    pending := buffered
    pendingOffset := 0
    streamActive := false }

def afterRearm : Afterwards → Worker
  | .serve => .serving true
  | .leave => .waiting

def workerStep (opts : Options) (s : State) (index count : Nat) (serialized graceOver : Bool) :
    Worker → Option State
  | .waiting =>
    if s.pendingJobs = 0 then none
    else some (setWorker { s with pendingJobs := s.pendingJobs - 1 } index (.serving false))
  | .serving continued =>
    if continued ∧ serialized then
      some (setWorker { s with pendingSerialized := s.pendingSerialized + 1 } index .completing)
    else some (setWorker s index .completing)
  | .completing =>
    some (setWorker { s with activeRegular := s.activeRegular - 1 } index (.completed s.activeRegular))
  | .completed previous =>
    if previous ≠ 1 ∨ s.rc.closing ∨ opts.strictBudget then some (setWorker s index .waiting)
    else some (setWorker s index (.testing leaseTests))
  | .testing (test :: rest) =>
    if leaseTest s test then some (setWorker s index (.testing rest)) else some (setWorker s index .waiting)
  | .testing [] => some (setWorker s index .locking)
  | .locking =>
    if leaseGranted s then some (setWorker { s with workerOwned := true } index .loop)
    else some (setWorker s index .waiting)
  | .loop =>
    if s.running = false ∨ s.rc.closing then some (setWorker s index (.rearm .leave []))
    else if opts.sessionIdleGrace = 0 then some (setWorker s index (.rearm .leave []))
    else some (setWorker s index .awaiting)
  | .awaiting =>
    if graceOver then some (setWorker s index (.rearm .leave []))
    else if s.socket = [] then none
    else some (setWorker s index (.header []))
  | .header bytes => do
    let (next, data) ← receiveExact s (headerSize - bytes.length) count
    if bytes.length + data.length = headerSize then some (continueDecoded opts next index (bytes ++ data))
    else some (setWorker next index (.header (bytes ++ data)))
  | .route header decoded bytes => do
    let (next, data) ← receiveExact s (decoded.arg1.toNat - bytes.length) count
    if bytes.length + data.length = decoded.arg1.toNat then
      if decoded.arg2 = 0 then some (requestRead next index decoded (bytes ++ data) [])
      else some (setWorker next index (.body header decoded (bytes ++ data) []))
    else some (setWorker next index (.route header decoded (bytes ++ data)))
  | .body header decoded route bytes => do
    let (next, data) ← receiveExact s (decoded.arg2.toNat - bytes.length) count
    if bytes.length + data.length = decoded.arg2.toNat then
      some (requestRead next index decoded route (bytes ++ data))
    else some (setWorker next index (.body header decoded route (bytes ++ data)))
  | .accounting requestId =>
    some (setWorker { s with
      activeRegular := s.activeRegular + 1
      sessionCapable := s.sessionCapable || requestId != 0 } index (.rearm .serve []))
  | .rearm afterwards buffered =>
    if s.rc.closing then some (setWorker s index (afterRearm afterwards))
    else some (setWorker s index (.rearmRunning afterwards buffered))
  | .rearmRunning afterwards buffered =>
    if s.running then some (setWorker s index (.rearmLocked afterwards buffered))
    else some (setWorker s index (afterRearm afterwards))
  | .rearmLocked afterwards buffered =>
    some (setWorker { s with rc := rearmed s.rc buffered, workerOwned := false } index (afterRearm afterwards))

def step (opts : Options) (s : State) : Action → Option State
  | .event readable reserved => reactorEvent opts s readable reserved
  | .resumed reserved => processResumed opts s reserved
  | .receive receive => if plain receive then reactorReceive opts s receive else none
  | .pass handling paused reserved => reactorPass opts s handling paused reserved
  | .leave => reactorLeave s
  | .resume =>
    if s.rc.readPaused ∧ s.rc.closing = false then
      some { s with rc := { s.rc with readPaused := false }, resumed := s.resumed + 1 }
    else none
  | .serializedDone =>
    if s.pendingSerialized = 0 then none else some { s with pendingSerialized := s.pendingSerialized - 1 }
  | .exchanged buffered count =>
    if s.rc.streamActive ∧ s.rc.closing = false ∧ s.running then
      some { s with rc := rearmed s.rc buffered, socket := s.socket.drop count }
    else none
  | .worker index count serialized graceOver =>
    match s.workers[index]? with
    | none => none
    | some worker => workerStep opts s index count serialized graceOver worker
  | .stop => some { s with running := false }

def connected (stream : List UInt8) (workers : Nat) : State where
  running := true
  socket := stream
  rc := accepted
  reactorBusy := false
  resumed := 0
  workerOwned := false
  sessionCapable := false
  activeRegular := 0
  pendingSerialized := 0
  pendingJobs := 0
  reactor := .waiting
  workers := List.replicate workers .waiting
  decoded := []

def machine (opts : Options) (stream : List UInt8) : Machine State Action where
  initial s := ∃ workers, s = connected stream workers
  step := step opts

end EasyUds.Reactor.Continuation

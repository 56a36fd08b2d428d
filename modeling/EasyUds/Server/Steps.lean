import EasyUds.Server.Core

/-! # The steps of the running server

Every function says what one operation does to the state and which operations the thread performs
next. The first thread is the reactor; workers, serialized workers and callers of `stop` are the others.
-/

namespace EasyUds.Server.Steps

open Lib Server.Core

variable (opts : Options) (s : State)

abbrev Result := State × List Op

def belowResumeWatermark (c : Nat) : Bool :=
  (opts.maxTotalInflightBytes == 0 || s.totalInflightRequestBytes ≤ opts.maxTotalInflightBytes / 2) &&
    (s.connections c).inflightRequests ≤ opts.maxInflightRequestsPerConnection / 2 &&
    (s.connections c).inflightRequestBytes ≤ opts.maxInflightRequestBytesPerConnection / 2

def abovePauseWatermark (c : Nat) : Bool :=
  (opts.maxTotalInflightBytes != 0 && opts.maxTotalInflightBytes ≤ s.totalInflightRequestBytes) ||
    opts.maxInflightRequestsPerConnection ≤ (s.connections c).inflightRequests ||
    opts.maxInflightRequestBytesPerConnection ≤ (s.connections c).inflightRequestBytes

/-- `queue_if_ready`: a connection that the scan finds paused and low enough to be read again. -/
def ready (c : Nat) : Bool :=
  (s.connections c).readPaused && !(s.connections c).closing && belowResumeWatermark opts s c

/-- The connections that a release of `released` lets the reactor read again. -/
def resumable (released : Nat) : List Nat :=
  (if opts.maxTotalInflightBytes = 0 then s.table.filter (· == released) else s.table).filter (ready opts s)

def resumePausedConnections (released : Nat) : Result :=
  let refresh := resumable opts s released
  ({ s with
      connections := fun k =>
        if k ∈ refresh then { s.connections k with readPaused := false } else s.connections k
      resumedConnections := s.resumedConnections ++ refresh.map fun k => (k, (s.connections k).object) },
    refresh.map fun k => .refreshConnectionEvents k .resume)

/-- The first compare-and-exchange of `try_reserve_connection_request_bytes`. -/
def reserveConnection (c r : Nat) (n : UInt64) : Result :=
  let limit := opts.maxInflightRequestBytesPerConnection
  if n ≤ limit - min (s.connections c).inflightRequestBytes limit then
    (s.update c fun k => { k with inflightRequestBytes := k.inflightRequestBytes + n }, [.reserveTotal c r n])
  else (s, [.pauseConnectionReads c r false])

def reserveTotal (c r : Nat) (n : UInt64) : Result :=
  let limit := opts.maxTotalInflightBytes
  if s.totalInflightRequestBytes ≤ limit ∧ n ≤ limit - s.totalInflightRequestBytes then
    ({ s with totalInflightRequestBytes := s.totalInflightRequestBytes + n }, [.payloadReserved c r n])
  else (s, [.unreserveConnection c r n])

/-- What `consume` does after it has paused the connection: it returns, from `dispatch_request` or from
the reservation. -/
def afterPause (c r : Nat) (finish : Bool) : List Op :=
  if finish then [.finishRequest c r true] else [.consumed c r]

def pauseConnectionReadsIfNeeded (c r : Nat) : Result :=
  (s, if abovePauseWatermark opts s c then [.pauseRecheck c r] else [.finishRequest c r false])

def pauseRecheck (c r : Nat) : Result :=
  (s,
    if c ∈ s.table ∧ (s.connections c).object = r ∧ abovePauseWatermark opts s c then
      [.pauseConnectionReads c r true]
    else [.finishRequest c r false])

/-- `pause_connection_reads` finds the connection in the table and not yet paused. -/
def pauses (c r : Nat) : Prop :=
  c ∈ s.table ∧ (s.connections c).object = r ∧ (s.connections c).readPaused = false

instance (c r : Nat) : Decidable (pauses s c r) := inferInstanceAs (Decidable (_ ∧ _ ∧ _))

def pauseConnectionReads (c r : Nat) (finish : Bool) : Result :=
  if pauses s c r then
    (s.update c fun k => { k with readPaused := true }, [.refreshConnectionEvents c (.pause r finish)])
  else (s, afterPause c r finish)

def interest (k : Connection) : Events := ⟨!k.readPaused, k.queuedOutputBytes != 0⟩

def afterWrite (c : Nat) : WriteSite → List Op
  | .guarded => []
  | .consume r => [.pauseConnectionReadsIfNeeded c r]
  | .continuation n => [.completeRegularRequest c n true]

/-- The handlers around a response write. That of `continue_connection` rearms and returns, without
`complete_regular_request`. -/
def afterThrow (c : Nat) : WriteSite → List Op
  | .guarded => []
  | .consume r => [.consumed c r]
  | .continuation _ => [.rearmConnection c .failed]

def afterFlush (c r : Nat) (readAllowed : Bool) : List Op :=
  if readAllowed then [.consume c r] else [.reactorDone c r]

def refreshable (c : Nat) : Prop :=
  c ∈ s.table ∧ (s.connections c).closing = false ∧ (s.connections c).streamActive = false ∧
    (s.connections c).workerOwned = false

instance (c : Nat) : Decidable (refreshable s c) := inferInstanceAs (Decidable (_ ∧ _ ∧ _ ∧ _))

/-- `refresh_connection_events` with its result; `modified` is the answer of the poller. -/
def refresh (c : Nat) (modified : Bool) : State × Bool :=
  if refreshable s c then
    if (s.connections c).registeredEvents = interest (s.connections c) then (s, true)
    else if modified then
      (s.update c fun k => { k with registeredEvents := interest k, watched := some (interest k) }, true)
    else (s.setClosing c, false)
  else (s, false)

def afterRefresh (c : Nat) (refreshed : Bool) : RefreshSite → Result
  | .resume => (s, [])
  | .pause r finish =>
    (if refreshed then s else s.setClosing c, afterPause c r finish)
  | .write site => (s, if refreshed then afterWrite c site else [.threw c site])
  | .flush r readAllowed =>
    (s,
      if refreshed ∨ (s.connections c).closing then afterFlush c r readAllowed
      else [.closeConnection c true])

def refreshConnectionEvents (c : Nat) (site : RefreshSite) : Choice → Option Result
  | .proceed => some (afterRefresh (refresh s c true).1 c (refresh s c true).2 site)
  | .refused => some (afterRefresh (refresh s c false).1 c (refresh s c false).2 site)
  | _ => none

/-- The section of `write_fixed_response` under `output_mutex`, and the deadline check in front of it;
the busy answers have no deadline. -/
def writeFixedResponse (c : Nat) (site : WriteSite) : Choice → Option Result
  | .refused => if site = .guarded then some (s, [.threw c site]) else none
  | .sent => if (s.connections c).queuedOutputBytes = 0 then some (s, afterWrite c site) else none
  | .sendFailed =>
    if (s.connections c).queuedOutputBytes = 0 then
      some (s.setClosing c, [.threw c site])
    else none
  | .queued n =>
    if n ≠ 0 ∧ n ≤ opts.maxOutputBytesPerConnection ∧
        (s.connections c).queuedOutputBytes ≤ opts.maxOutputBytesPerConnection - n then
      some (s.update c fun k => { k with queuedOutputBytes := k.queuedOutputBytes + n },
        [.refreshConnectionEvents c (.write site)])
    else none
  | .overflow => some (s, [.setClosing c, .closeConnection c false, .threw c site])
  | _ => none

def flushConnectionOutput (c r : Nat) (readAllowed : Bool) : Choice → Option Result
  | .flushed n =>
    if n ≤ (s.connections c).queuedOutputBytes then
      some (s.update c fun k => { k with queuedOutputBytes := k.queuedOutputBytes - n },
        if (s.connections c).queuedOutputBytes = n then [.refreshConnectionEvents c (.flush r readAllowed)]
        else afterFlush c r readAllowed)
    else none
  | .refused =>
    if (s.connections c).queuedOutputBytes = 0 then none
    else some (s.setClosing c, [.closeConnection c true])
  | _ => none

def close (c : Nat) : State :=
  if c ∈ s.table then
    { s with
      table :=
        if (s.connections c).activeRegular ≠ 0 ∨ (s.connections c).pendingSerialized ≠ 0 then s.table
        else s.table.filter (· ≠ c) }.update
      c fun k => { k with reservedRequestBytes := 0, closing := true, watched := none, queuedOutputBytes := 0 }
  else s

/-- The bytes that `close_connection` takes from the parser and releases after its section. -/
def parserBytes (c : Nat) : UInt64 := if c ∈ s.table then (s.connections c).reservedRequestBytes else 0

/-- `reactor`: the call comes from the reactor's loop, which goes on to the next event. -/
def closeConnection (c : Nat) (reactor : Bool) : Result :=
  (close s c,
    (if parserBytes s c ≠ 0 then [.releaseConnectionRequestBytes c (parserBytes s c)] else []) ++
      if reactor then [.runReactor] else [])

/-- `dispatch_request` up to the admission of the request; `serialized` is the route of a serialized
handler. -/
def dispatchRequest (c r : Nat) (serialized : Option Nat) (session : Bool) : Result :=
  let n := (s.connections c).payloadTotal
  match serialized with
  | some route =>
    (s.update c fun k => { k with reservedRequestBytes := 0 }, [.enqueueSerializedJob c n route (.dispatch r)])
  | none =>
    (s.update c fun k =>
        { k with reservedRequestBytes := 0, sessionCapable := k.sessionCapable || session },
      [.enqueueWorkerJob c r n false])

def dispatchStream (c r : Nat) : Result :=
  let connection := s.connections c
  if connection.activeRegular ≠ 0 ∨ connection.pendingSerialized ≠ 0 ∨
      opts.maxConcurrentStreams ≤ s.activeStreams then
    (s.setClosing c, [.consumed c r])
  else
    ({ s with activeStreams := s.activeStreams + 1 }.update c fun k => { k with reservedRequestBytes := 0 },
      [.streamLease c r connection.arg1])

def streamLease (c r : Nat) (n : UInt64) : Result :=
  (s.update c fun k => { k with watched := none, streamActive := true }, [.enqueueWorkerJob c r n true])

/-- What is given back when a request with reserved bytes is refused. -/
def giveBack (c : Nat) (n : UInt64) : List Op :=
  if opts.strictBudget then [.releaseConnectionRequestBytes c n] else []

/-- `account_connection_request`, or `account_connection_request_count` when the bytes are reserved. -/
def accountConnectionRequest (c : Nat) (n : UInt64) : State :=
  if opts.strictBudget then
    s.update c fun k => { k with inflightRequests := k.inflightRequests + 1 }
  else
    { s with totalInflightRequestBytes := s.totalInflightRequestBytes + n }.update c fun k =>
      { k with
        inflightRequests := k.inflightRequests + 1
        inflightRequestBytes := k.inflightRequestBytes + n }

def enqueueWorkerJob (c r : Nat) (n : UInt64) (isStream : Bool) (choice : Choice) : Result :=
  if s.workersStopping then
    (s, giveBack opts c n ++ .setClosing c :: if isStream then [.consumed c r] else [.finishRequest c r false])
  -- the exception of `push_back` ends `consume`
  else if choice = .allocationFailed then
    (s, giveBack opts c n ++ if isStream then [.setClosing c, .consumed c r] else [.threw c (.consume r)])
  else
    let queued :=
      { s with pendingJobs := s.pendingJobs ++ [⟨c, n, isStream, isStream && opts.strictBudget⟩] }
    if isStream then (queued, [.consumed c r])
    else
      (accountConnectionRequest opts
          (queued.update c fun k => { k with activeRegular := k.activeRegular + 1 }) c n,
        [.pauseConnectionReadsIfNeeded c r])

def processResumed : Option Result :=
  match s.resumedConnections with
  | [] => none
  | (c, r) :: rest =>
    let popped := { s with resumedConnections := rest }
    let connection := s.connections c
    if c ∉ s.table ∨ connection.object ≠ r ∨ connection.readPaused ∨ connection.reactorBusy ∨
        connection.closing ∨ connection.streamActive ∨ connection.workerOwned then
      some (popped, [.runReactor])
    else some (popped.update c fun k => { k with reactorBusy := true }, [.consume c r])

def handleEvent (c : Nat) (readable writable failed : Bool) : Option Result :=
  let connection := s.connections c
  if c ∉ s.table then none
  else if connection.closing then some (s, [.closeConnection c true])
  else if connection.streamActive ∨ connection.workerOwned then some (s, [.runReactor])
  else
    some (s.update c fun k => { k with reactorBusy := true },
      if failed then [.closeConnection c true]
      else if writable then
        [.flushConnectionOutput c connection.object (readable && !connection.readPaused)]
      else afterFlush c connection.object (readable && !connection.readPaused))

def acceptConnection (c : Nat) (added : Bool) : Option Result :=
  if opts.maxConnections ≤ s.table.length ∨ c ∈ s.table ∨ s.connections c ≠ {} then none
  else
    some
      ({ s with
          objects := s.objects + 1
          table := if added then s.table ++ [c] else s.table }.update c fun k =>
            { k with object := s.objects, watched := if added then some ⟨true, false⟩ else none },
        [.runReactor])

def runReactor : Choice → Option Result
  | .resumed => processResumed s
  | .expire c =>
    if c ∈ s.table ∧ (s.connections c).streamActive = false ∧ (s.connections c).workerOwned = false then
      some (s, [.closeConnection c true])
    else none
  | .event c readable writable failed => handleEvent s c readable writable failed
  | .accept c added => acceptConnection opts s c added
  | .leave => if s.running then none else some (s, [])
  | _ => none

def consume (c r : Nat) : Result :=
  (s, if (s.connections c).phase = .requestBudget ∨ (s.connections c).phase = .streamBudget then [.beginPayload c r]
    else [.parse c r])

def budget (k : Connection) : UInt64 := if k.phase = .streamBudget then k.arg1 else k.payloadTotal

def admittedPhase : ParsePhase → ParsePhase
  | .requestBudget => .requestPayload
  | .streamBudget => .streamRoute
  | phase => phase

/-- `begin_request_payload` and `begin_stream_route`. -/
def beginPayload (c r : Nat) : Result :=
  let n := budget (s.connections c)
  if opts.strictBudget then (s, if n = 0 then [.payloadReserved c r n] else [.reserveConnection c r n])
  else (s.update c fun k => { k with phase := admittedPhase k.phase }, [.parse c r])

def payloadReserved (c r : Nat) (n : UInt64) : Result :=
  (s.update c fun k => { k with reservedRequestBytes := n, phase := admittedPhase k.phase }, [.parse c r])

def parse (c r : Nat) : Input → Option Result
  | .exhausted => some (s.update c fun k => { k with pendingInput := false }, [.consumed c r])
  | .endOfStream => some (s.setClosing c, [.consumed c r])
  | .malformed => some (s, [.threw c (.consume r)])
  | .cancel more =>
    if (s.connections c).phase = .header then
      some (s.update c fun k => { k with pendingInput := more }, [.parse c r])
    else none
  | .request n more =>
    if (s.connections c).phase = .header ∧ n ≠ 0 ∧ n ≤ opts.maxMessageSize then
      some (s.update c fun k => { k with phase := .requestBudget, payloadTotal := n, pendingInput := more },
        [.beginPayload c r])
    else none
  | .stream n more =>
    if (s.connections c).phase = .header ∧ n ≠ 0 ∧ n ≤ opts.maxMessageSize then
      some (s.update c fun k => { k with phase := .streamBudget, arg1 := n, pendingInput := more },
        [.beginPayload c r])
    else none
  | .payload serialized session more =>
    match (s.connections c).phase with
    | .requestPayload =>
      some (s.update c fun k => { k with pendingInput := more }, [.dispatchRequest c r serialized session])
    | .streamRoute => some (s.update c fun k => { k with pendingInput := more }, [.dispatchStream c r])
    | _ => none

def parseInput (c r : Nat) : Choice → Option Result
  | .input input => parse opts s c r input
  | _ => none

def finishRequest (c r : Nat) (paused : Bool) : Result :=
  (s.update c fun k => { k with phase := .header }, if paused then [.consumed c r] else [.parse c r])

def consumed (c r : Nat) : Result :=
  (s, if (s.connections c).closing then [.closeConnection c true] else [.reactorDone c r])

def reactorDone (c r : Nat) : Result :=
  (if c ∈ s.table ∧ (s.connections c).object = r then s.update c fun k => { k with reactorBusy := false } else s,
    [.runReactor])

def startJob (job : PendingJob) : List Op :=
  if job.isStream then
    [.runStreamExchange job.connection job.requestBytes job.releaseStreamRequestBytes, .workerLoop]
  else [.execute job.connection, .completeRegularRequest job.connection job.requestBytes true, .workerLoop]

def workerLoop : Choice → Option Result
  | .proceed =>
    match s.pendingJobs with
    | [] => none
    | job :: rest => some ({ s with pendingJobs := rest }, startJob job)
  | .leave => if s.workersStopping ∧ s.pendingJobs = [] then some (s, []) else none
  | _ => none

/-- A job runs its handler and writes the response, or answers that the deadline has passed. After a
stop it is dropped. -/
def execute (c : Nat) : Choice → Option Result
  | .refused => some (s, [.writeFixedResponse c .guarded])
  | .proceed => some (s, if s.running then [.writeFixedResponse c .guarded] else [])
  | _ => none

def completeRegularRequest (c : Nat) (n : UInt64) (releaseAccounting : Bool) : Result :=
  (s.update c fun k => { k with activeRegular := k.activeRegular - 1 },
    (if releaseAccounting then [.releaseConnectionRequest c n] else []) ++
      [.completed c (s.connections c).activeRegular])

def completed (c : Nat) (previous : UInt64) : Result :=
  (s, if previous ≠ 1 ∨ (s.connections c).closing then [] else [.tryAcquireContinuationLease c])

/-- The atomic loads of `try_acquire_continuation_lease` in front of its section. -/
def tryAcquireContinuationLease (c : Nat) : Result :=
  let connection := s.connections c
  (s,
    if opts.strictBudget ∨ s.running = false ∨ connection.sessionCapable = false ∨ connection.closing ∨
        connection.activeRegular ≠ 0 ∨ connection.pendingSerialized ≠ 0 then []
    else [.acquireLease c])

def leasable (c : Nat) : Prop :=
  let k := s.connections c
  c ∈ s.table ∧ k.reactorBusy = false ∧ k.phase = .header ∧ k.readPaused = false ∧ k.pendingInput = false ∧
    k.streamActive = false ∧ k.workerOwned = false ∧ k.closing = false ∧ k.activeRegular = 0 ∧
    k.pendingSerialized = 0

instance (c : Nat) : Decidable (leasable s c) :=
  inferInstanceAs (Decidable (_ ∧ _ ∧ _ ∧ _ ∧ _ ∧ _ ∧ _ ∧ _ ∧ _ ∧ _))

def acquireLease (c : Nat) : Choice → Option Result
  | .proceed =>
    if leasable s c then
      some (s.update c fun k => { k with watched := none, workerOwned := true }, [.continueConnection c])
    else some (s, [])
  | .refused =>
    if leasable s c then some (s.setClosing c, []) else some (s, [])
  | _ => none

/-- One round of `continue_connection`: the idle grace ends, a header of a stream goes back to the
reactor, reading fails, a cancellation is noted, or a whole request has been read. -/
def continueConnection (c : Nat) (choice : Choice) : Option Result :=
  if s.running = false ∨ (s.connections c).closing then some (s, [.rearmConnection c .continuation])
  else
    match choice with
    | .handOver => some (s, [.rearmConnection c .continuation])
    | .refused => some (s.setClosing c, [.rearmConnection c .continuation])
    | .cancel => some (s, [.continueConnection c])
    | .request n session => if n ≠ 0 ∧ n ≤ opts.maxMessageSize then some (s, [.addActive c n session]) else none
    | _ => none

def addActive (c : Nat) (n : UInt64) (session : Bool) : Result :=
  (s.update c fun k => { k with activeRegular := k.activeRegular + 1 }, [.addRequests c n session])

def addRequests (c : Nat) (n : UInt64) (session : Bool) : Result :=
  (s.update c fun k => { k with inflightRequests := k.inflightRequests + 1 }, [.addBytes c n session])

def addBytes (c : Nat) (n : UInt64) (session : Bool) : Result :=
  (s.update c fun k => { k with inflightRequestBytes := k.inflightRequestBytes + n }, [.addTotal c n session])

def addTotal (c : Nat) (n : UInt64) (session : Bool) : Result :=
  ({ s with totalInflightRequestBytes := s.totalInflightRequestBytes + n }.update c fun k =>
      { k with sessionCapable := k.sessionCapable || session },
    [.rearmConnection c .continuation, .serveFixedRequest c n])

def rearmConnection (c : Nat) (site : RearmSite) : Result :=
  (s, if (s.connections c).closing then [.closeConnection c false] else [.rearmRunning c site])

def rearmRunning (c : Nat) (site : RearmSite) : Result :=
  (s,
    if s.running then
      [.rearmLocked c ((s.connections c).workerOwned && !(s.connections c).streamActive) site]
    else [])

/-- The section of `rearm_connection`: the descriptor is watched for reading again, with a new
`ReactorConnection` unless the old one may be reused. `added` is the answer of the poller. -/
def rearm (c : Nat) (mayReuse more added : Bool) : State :=
  let reuse := mayReuse && c ∈ s.table && !(s.connections c).reactorBusy
  { s with
    objects := if reuse then s.objects else s.objects + 1
    table := if c ∈ s.table then s.table else s.table ++ [c] }.update c fun k =>
      { k with
        object := if reuse then k.object else s.objects
        registeredEvents := ⟨true, false⟩
        phase := .header
        pendingInput := more
        payloadTotal := 0
        arg1 := 0
        reservedRequestBytes := 0
        reactorBusy := false
        readPaused := false
        streamActive := false
        workerOwned := false
        closing := k.closing || !added
        watched := if added then some ⟨true, false⟩ else k.watched }

def rearmLocked (c : Nat) (mayReuse : Bool) : Choice → Option Result
  | .rearmed more => some (rearm s c mayReuse more true, [])
  | .refused => some (rearm s c mayReuse false false, [.closeConnection c false])
  | _ => none

/-- `serve_fixed_request`: the handler or the 404 answers at once, or the request goes to the
serialized executor. -/
def serveFixedRequest (c : Nat) (n : UInt64) : Choice → Option Result
  | .proceed => some (s, [.writeFixedResponse c .guarded, .completeRegularRequest c n true])
  | .serialized route => some (s, [.enqueueSerializedJob c n route .continuation])
  | _ => none

def runStreamExchange (c : Nat) (n : UInt64) (release : Bool) : Choice → Option Result
  | .proceed => some ({ s with activeStreams := s.activeStreams - 1 }, finish)
  | .refused =>
    some ({ s with activeStreams := s.activeStreams - 1 }.setClosing c, finish)
  | _ => none
where
  finish : List Op :=
    .rearmConnection c .stream :: if release then [.releaseConnectionRequestBytes c n] else []

def finishSuperseded (job : SerializedJob) : List Op :=
  [.writeFixedResponse job.connection .guarded, .subSerialized job.connection job.requestBytes]

def afterBusy (c : Nat) (n : UInt64) : AdmissionSite → List Op
  | .dispatch r => giveBack opts c n ++ [.writeFixedResponse c (.consume r)]
  | .continuation => [.writeFixedResponse c (.continuation n)]

def afterStopping (c : Nat) (n : UInt64) : AdmissionSite → List Op
  | .dispatch r => giveBack opts c n ++ [.setClosing c, .finishRequest c r false]
  | .continuation => [.setClosing c, .completeRegularRequest c n true]

def afterAllocationFailed (c : Nat) (n : UInt64) : AdmissionSite → List Op
  | .dispatch r => giveBack opts c n ++ [.threw c (.consume r)]
  | .continuation => [.setClosing c, .completeRegularRequest c n true]

def afterAdmitted (c : Nat) (n : UInt64) : AdmissionSite → List Op
  | .dispatch r => [.pauseConnectionReadsIfNeeded c r]
  | .continuation => [.completeRegularRequest c n false]

def admitJob (c : Nat) (n : UInt64) (route : Nat) (site : AdmissionSite) (latestWins : Bool) : Result :=
  let replaced (job : SerializedJob) : Bool := latestWins && job.route == route
  let queued : State :=
    { s with pendingSerialized := s.pendingSerialized.filter (fun job => !replaced job) ++ [⟨c, n, route⟩] }
  let counted := queued.update c fun k => { k with pendingSerialized := k.pendingSerialized + 1 }
  (match site with
    | .dispatch _ => accountConnectionRequest opts counted c n
    | .continuation => counted,
    (s.pendingSerialized.filter replaced).flatMap finishSuperseded ++ afterAdmitted c n site)

def enqueueSerializedJob (c : Nat) (n : UInt64) (route : Nat) (site : AdmissionSite) :
    Choice → Option Result
  | .allocationFailed => some (s, afterAllocationFailed opts c n site)
  | .refused =>
    if s.serializedStopping ∨ s.running = false then some (s, afterStopping opts c n site) else none
  | .busy => if s.serializedStopping ∨ s.running = false then none else some (s, afterBusy opts c n site)
  | .admitted latestWins =>
    if s.serializedStopping ∨ s.running = false then none
    else some (admitJob opts s c n route site latestWins)
  | _ => none

def serializedWorkerLoop : Choice → Option Result
  | .take index =>
    s.pendingSerialized[index]?.map fun job =>
      ({ s with pendingSerialized := s.pendingSerialized.eraseIdx index },
        [.execute job.connection, .subSerialized job.connection job.requestBytes, .serializedWorkerLoop])
  | .leave => if s.serializedStopping then some (s, []) else none
  | _ => none

def exec : Op → Choice → Option Result
  | .releaseConnectionRequest c n, _ =>
    some (s.update c fun k => { k with inflightRequestBytes := k.inflightRequestBytes - n }, [.subRequests c n])
  | .releaseConnectionRequestBytes c n, _ =>
    some
      (if n = 0 then (s, [])
      else
        (s.update c fun k => { k with inflightRequestBytes := k.inflightRequestBytes - n }, [.subTotal c n]))
  | .subRequests c n, _ =>
    some (s.update c fun k => { k with inflightRequests := k.inflightRequests - 1 }, [.subTotal c n])
  | .subTotal c n, _ =>
    some ({ s with totalInflightRequestBytes := s.totalInflightRequestBytes - n }, [.resumePausedConnections c])
  | .resumePausedConnections c, _ => some (resumePausedConnections opts s c)
  | .reserveConnection c r n, _ => some (reserveConnection opts s c r n)
  | .reserveTotal c r n, _ => some (reserveTotal opts s c r n)
  | .unreserveConnection c r n, _ =>
    some
      (s.update c fun k => { k with inflightRequestBytes := k.inflightRequestBytes - n },
        [.pauseConnectionReads c r false])
  | .pauseConnectionReadsIfNeeded c r, _ => some (pauseConnectionReadsIfNeeded opts s c r)
  | .pauseRecheck c r, _ => some (pauseRecheck opts s c r)
  | .pauseConnectionReads c r finish, _ => some (pauseConnectionReads s c r finish)
  | .refreshConnectionEvents c site, choice => refreshConnectionEvents s c site choice
  | .writeFixedResponse c site, choice => writeFixedResponse opts s c site choice
  | .threw c site, _ => some (s.setClosing c, afterThrow c site)
  | .flushConnectionOutput c r readAllowed, choice => flushConnectionOutput s c r readAllowed choice
  | .closeConnection c reactor, _ => some (closeConnection s c reactor)
  | .setClosing c, _ => some (s.setClosing c, [])
  | .dispatchRequest c r serialized session, _ => some (dispatchRequest s c r serialized session)
  | .dispatchStream c r, _ => some (dispatchStream opts s c r)
  | .streamLease c r n, _ => some (streamLease s c r n)
  | .enqueueWorkerJob c r n isStream, choice => some (enqueueWorkerJob opts s c r n isStream choice)
  | .runReactor, choice => runReactor opts s choice
  | .consume c r, _ => some (consume s c r)
  | .beginPayload c r, _ => some (beginPayload opts s c r)
  | .payloadReserved c r n, _ => some (payloadReserved s c r n)
  | .parse c r, choice => parseInput opts s c r choice
  | .finishRequest c r paused, _ => some (finishRequest s c r paused)
  | .consumed c r, _ => some (consumed s c r)
  | .reactorDone c r, _ => some (reactorDone s c r)
  | .workerLoop, choice => workerLoop s choice
  | .execute c, choice => execute s c choice
  | .completeRegularRequest c n release, _ => some (completeRegularRequest s c n release)
  | .completed c previous, _ => some (completed s c previous)
  | .tryAcquireContinuationLease c, _ => some (tryAcquireContinuationLease opts s c)
  | .acquireLease c, choice => acquireLease s c choice
  | .continueConnection c, choice => continueConnection opts s c choice
  | .addActive c n session, _ => some (addActive s c n session)
  | .addRequests c n session, _ => some (addRequests s c n session)
  | .addBytes c n session, _ => some (addBytes s c n session)
  | .addTotal c n session, _ => some (addTotal s c n session)
  | .rearmConnection c site, _ => some (rearmConnection s c site)
  | .rearmRunning c site, _ => some (rearmRunning s c site)
  | .rearmLocked c mayReuse _, choice => rearmLocked s c mayReuse choice
  | .serveFixedRequest c n, choice => serveFixedRequest s c n choice
  | .runStreamExchange c n release, choice => runStreamExchange s c n release choice
  | .enqueueSerializedJob c n route site, choice => enqueueSerializedJob opts s c n route site choice
  | .serializedWorkerLoop, choice => serializedWorkerLoop s choice
  | .subSerialized c n, _ =>
    some
      (s.update c fun k => { k with pendingSerialized := k.pendingSerialized - 1 },
        [.releaseConnectionRequest c n])
  | .stopRunning, _ => some ({ s with running := false }, [.stopWorkers])
  | .stopWorkers, _ => some ({ s with workersStopping := true }, [.stopSerialized])
  | .stopSerialized, _ => some ({ s with serializedStopping := true }, [])

def idle : Op → Bool
  | .workerLoop | .serializedWorkerLoop | .stopRunning => true
  | _ => false

def Initial (system : Threads State Op) : Prop :=
  system.shared = {} ∧ ∃ others : List Op, (∀ op ∈ others, idle op) ∧
    system.programs = [.runReactor] :: others.map fun op => [op]

def machine : Machine (Threads State Op) (Nat × Choice) := Threads.machine (exec opts) Initial

abbrev Turn := Threads.Turn (exec opts)

def roomy : Options where
  maxConnections := 8
  maxMessageSize := 64
  maxTotalInflightBytes := 0
  maxInflightRequestsPerConnection := 64
  maxInflightRequestBytesPerConnection := 1024
  maxOutputBytesPerConnection := 1024
  maxConcurrentStreams := 1
  connections_pos := by decide
  message_pos := by decide
  message_fits := by decide
  requests_pos := by decide
  bytes_fit := by decide
  output_fits := by decide
  total_fits := by decide
  streams_fit := by decide

/-- `roomy` with an aggregate budget for one message of the largest size. -/
def frugal : Options := { roomy with maxTotalInflightBytes := 64, total_fits := by decide }

def oneWorker : Threads State Op := ⟨{}, [[.runReactor], [.workerLoop]]⟩

theorem oneWorker_initial : Initial oneWorker := ⟨rfl, [.workerLoop], by decide, rfl⟩

def performs (thread : Nat) (choices : List Choice) : List (Nat × Choice) := choices.map fun choice => (thread, choice)

def readRequest (c : Nat) (n : UInt64) (serialized : Option Nat) : List (Nat × Choice) :=
  performs 0 [.event c true false false, .proceed, .input (.request n false), .proceed,
    .input (.payload serialized true false), .proceed]

def leaveConsume : List (Nat × Choice) := performs 0 [.proceed, .proceed, .input .exhausted, .proceed, .proceed]

end EasyUds.Server.Steps

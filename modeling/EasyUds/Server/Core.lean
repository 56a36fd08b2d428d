import Mathlib.Data.UInt
import EasyUds.Lib.Threads

/-! # The state of the running server

The counters, flags and queues through which the reactor, the workers, the serialized executor and
`stop` act on each other's connections, and the operations of these threads. An operation is one
access to an atomic, one section under a mutex, or the entry into a function.

A connection is known by a number; one that was never accepted has the record of a new one. The table has
one `ReactorConnection` for it; both are one record here, and `object` tells two `ReactorConnection`s of one
connection apart.
`output_queue` is empty exactly when `queuedOutputBytes` is zero, so only the latter is kept. What the
peer sends, how long things take and how a system call ends comes with the choice of a step, and so does
the scheduling policy of a serialized route.
-/

namespace EasyUds.Server.Core

/-- The options that `validate_server_options` has accepted. -/
structure Options where
  maxConnections : Nat
  maxMessageSize : UInt64
  maxTotalInflightBytes : UInt64
  maxInflightRequestsPerConnection : UInt64
  maxInflightRequestBytesPerConnection : UInt64
  maxOutputBytesPerConnection : UInt64
  maxConcurrentStreams : UInt64
  connections_pos : 0 < maxConnections
  message_pos : 0 < maxMessageSize
  message_fits : maxMessageSize ≤ 0xffffffff
  requests_pos : 0 < maxInflightRequestsPerConnection
  bytes_fit : maxMessageSize ≤ maxInflightRequestBytesPerConnection
  output_fits : maxMessageSize + 20 ≤ maxOutputBytesPerConnection
  total_fits : maxTotalInflightBytes = 0 ∨ maxMessageSize ≤ maxTotalInflightBytes
  -- there are at least as many workers as stream slots, and at least as many connections as workers
  streams_fit : maxConcurrentStreams.toNat ≤ maxConnections

/-- `strict_budget`: an aggregate budget is configured, so the parser reserves the bytes of a request. -/
def Options.strictBudget (opts : Options) : Bool := opts.maxTotalInflightBytes != 0

structure Events where
  readable : Bool
  writable : Bool
  deriving DecidableEq, Repr

inductive ParsePhase
  | header
  | requestBudget
  | requestPayload
  | streamBudget
  | streamRoute
  deriving DecidableEq, Repr

structure Connection where
  object : Nat := 0
  registeredEvents : Events := ⟨true, false⟩
  phase : ParsePhase := .header
  pendingInput : Bool := false
  payloadTotal : UInt64 := 0
  arg1 : UInt64 := 0
  reservedRequestBytes : UInt64 := 0
  reactorBusy : Bool := false
  readPaused : Bool := false
  streamActive : Bool := false
  workerOwned : Bool := false
  closing : Bool := false
  sessionCapable : Bool := false
  activeRegular : UInt64 := 0
  pendingSerialized : UInt64 := 0
  inflightRequests : UInt64 := 0
  inflightRequestBytes : UInt64 := 0
  queuedOutputBytes : UInt64 := 0
  watched : Option Events := none
  deriving DecidableEq, Repr

structure PendingJob where
  connection : Nat
  requestBytes : UInt64
  isStream : Bool
  releaseStreamRequestBytes : Bool
  deriving DecidableEq, Repr

structure SerializedJob where
  connection : Nat
  requestBytes : UInt64
  route : Nat
  deriving DecidableEq, Repr

structure State where
  running : Bool := true
  workersStopping : Bool := false
  serializedStopping : Bool := false
  objects : Nat := 0
  table : List Nat := []
  connections : Nat → Connection := fun _ => {}
  totalInflightRequestBytes : UInt64 := 0
  activeStreams : UInt64 := 0
  pendingJobs : List PendingJob := []
  pendingSerialized : List SerializedJob := []
  resumedConnections : List (Nat × Nat) := []

/-- Where a response is written, that is, which handler catches the exception of the write. -/
inductive WriteSite
  /-- the `try` block around the write itself -/
  | guarded
  /-- the answer of `dispatch_request` to a busy domain, inside `consume` -/
  | consume (object : Nat)
  /-- the answer of `serve_fixed_request` to a busy domain, inside `continue_connection` -/
  | continuation (requestBytes : UInt64)
  deriving DecidableEq, Repr

/-- The caller of `refresh_connection_events`. -/
inductive RefreshSite
  | resume
  | pause (object : Nat) (finish : Bool)
  | write (site : WriteSite)
  | flush (object : Nat) (readAllowed : Bool)
  deriving DecidableEq, Repr

/-- The caller of `enqueue_serialized_job`. -/
inductive AdmissionSite
  | dispatch (object : Nat)
  | continuation
  deriving DecidableEq, Repr

/-- The caller of `rearm_connection`; `failed` is the exception handler of `continue_connection` after
the descriptor has been given back. -/
inductive RearmSite
  | continuation
  | stream
  | failed
  deriving DecidableEq, Repr

inductive Op
  -- flow_control.cpp
  | releaseConnectionRequest (connection : Nat) (requestBytes : UInt64)
  | releaseConnectionRequestBytes (connection : Nat) (requestBytes : UInt64)
  | subRequests (connection : Nat) (requestBytes : UInt64)
  | subTotal (connection : Nat) (requestBytes : UInt64)
  | resumePausedConnections (released : Nat)
  | reserveConnection (connection object : Nat) (requestBytes : UInt64)
  | reserveTotal (connection object : Nat) (requestBytes : UInt64)
  | unreserveConnection (connection object : Nat) (requestBytes : UInt64)
  | pauseConnectionReadsIfNeeded (connection object : Nat)
  | pauseRecheck (connection object : Nat)
  | pauseConnectionReads (connection object : Nat) (finish : Bool)
  -- output.cpp
  | refreshConnectionEvents (connection : Nat) (site : RefreshSite)
  | writeFixedResponse (connection : Nat) (site : WriteSite)
  | threw (connection : Nat) (site : WriteSite)
  | flushConnectionOutput (connection object : Nat) (readAllowed : Bool)
  -- dispatch.cpp
  | closeConnection (connection : Nat) (reactor : Bool)
  | setClosing (connection : Nat)
  | dispatchRequest (connection object : Nat) (serialized : Option Nat) (session : Bool)
  | dispatchStream (connection object : Nat)
  | streamLease (connection object : Nat) (requestBytes : UInt64)
  | enqueueWorkerJob (connection object : Nat) (requestBytes : UInt64) (isStream : Bool)
  -- event_loop.cpp and parser.cpp
  | runReactor
  | consume (connection object : Nat)
  | beginPayload (connection object : Nat)
  | payloadReserved (connection object : Nat) (requestBytes : UInt64)
  | parse (connection object : Nat)
  | finishRequest (connection object : Nat) (paused : Bool)
  | consumed (connection object : Nat)
  | reactorDone (connection object : Nat)
  -- workers.cpp and stream.cpp
  | workerLoop
  | execute (connection : Nat)
  | completeRegularRequest (connection : Nat) (requestBytes : UInt64) (releaseAccounting : Bool)
  | completed (connection : Nat) (previous : UInt64)
  | tryAcquireContinuationLease (connection : Nat)
  | acquireLease (connection : Nat)
  | continueConnection (connection : Nat)
  | addActive (connection : Nat) (requestBytes : UInt64) (session : Bool)
  | addRequests (connection : Nat) (requestBytes : UInt64) (session : Bool)
  | addBytes (connection : Nat) (requestBytes : UInt64) (session : Bool)
  | addTotal (connection : Nat) (requestBytes : UInt64) (session : Bool)
  | rearmConnection (connection : Nat) (site : RearmSite)
  | rearmRunning (connection : Nat) (site : RearmSite)
  | rearmLocked (connection : Nat) (mayReuse : Bool) (site : RearmSite)
  | serveFixedRequest (connection : Nat) (requestBytes : UInt64)
  | runStreamExchange (connection : Nat) (requestBytes : UInt64) (release : Bool)
  | enqueueSerializedJob (connection : Nat) (requestBytes : UInt64) (route : Nat) (site : AdmissionSite)
  | serializedWorkerLoop
  | subSerialized (connection : Nat) (requestBytes : UInt64)
  -- server.cpp
  | stopRunning
  | stopWorkers
  | stopSerialized
  deriving DecidableEq, Repr

/-- What the parser finds next in the received bytes; `more` says whether bytes are left behind it. -/
inductive Input
  | exhausted
  | endOfStream
  | malformed
  | cancel (more : Bool)
  | request (payloadTotal : UInt64) (more : Bool)
  | stream (arg1 : UInt64) (more : Bool)
  | payload (serialized : Option Nat) (session more : Bool)
  deriving DecidableEq, Repr

inductive Choice
  | proceed
  /-- the system call, the admission or the deadline goes against the thread -/
  | refused
  /-- the loop ends -/
  | leave
  | event (connection : Nat) (readable writable failed : Bool)
  | resumed
  | expire (connection : Nat)
  | accept (connection : Nat) (added : Bool)
  | input (input : Input)
  | sent
  | sendFailed
  | queued (remaining : UInt64)
  | overflow
  | flushed (count : UInt64)
  | take (index : Nat)
  | request (requestBytes : UInt64) (session : Bool)
  | handOver
  | cancel
  | serialized (route : Nat)
  | busy
  | allocationFailed
  | admitted (latestWins : Bool)
  | rearmed (more : Bool)
  deriving DecidableEq, Repr

namespace State

variable (s : State) (c k : Nat) (f : Connection → Connection)

def update : State :=
  { s with connections := fun k => if k = c then f (s.connections k) else s.connections k }

def setClosing : State := s.update c fun k => { k with closing := true }

@[simp] theorem update_self : (s.update c f).connections c = f (s.connections c) := if_pos rfl

theorem update_apply :
    (s.update c f).connections k = if k = c then f (s.connections k) else s.connections k := rfl

variable {c k} in
theorem update_other (h : k ≠ c) : (s.update c f).connections k = s.connections k := if_neg h

@[simp] theorem update_table : (s.update c f).table = s.table := rfl

@[simp] theorem update_pendingJobs : (s.update c f).pendingJobs = s.pendingJobs := rfl

@[simp] theorem update_pendingSerialized : (s.update c f).pendingSerialized = s.pendingSerialized := rfl

@[simp] theorem update_total : (s.update c f).totalInflightRequestBytes = s.totalInflightRequestBytes := rfl

end State

end EasyUds.Server.Core

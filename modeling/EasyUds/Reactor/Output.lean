import EasyUds.Lib.Framing
import EasyUds.Lib.Machine
import EasyUds.Transport.Io

/-! # Fixed responses

`write_fixed_response`, `flush_connection_output` and `close_connection` for any number of threads
and connections. `output_mutex` and `connections_mutex` are explicit: a thread holds them over
several steps. `total_queued_output_bytes` is changed by each atomic operation as a step of its own.
A clock reading, the result of a send call and the result of a poller call come with the action.

The rest of the server is the environment of these functions: it may set the flags and counters that
they only read (`server`, `readiness`), and shut a socket down (`shutdownFd`). No connection here runs
a stream. `wake_reactor` is left to the module on wakeups, and the parser's reservation that
`close_connection` releases to the one on flow control.

`wire`, `accepted`, `tickets` and the ticket of a frame are a history: the bytes that the socket took,
each tagged with the number of its write; the writes that put a byte on the socket or in the queue;
and the number of times that a writer took `output_mutex`.
-/

namespace EasyUds.Reactor.Output

open Lib Lib.Framing Protocol.Codec

def maxFlushBytes : Nat := 256 * 1024

structure Options where
  maxMessageSize : Nat
  maxOutputBytesPerConnection : UInt64
  maxTotalOutputBytes : UInt64
  includeHandlerErrorMessages : Bool
  deriving DecidableEq, Repr

structure Response where
  status : Int
  body : List UInt8
  deriving DecidableEq, Repr

structure OutgoingFrame where
  header : List UInt8
  body : List UInt8
  offset : Nat
  deadline : Option Nat
  ticket : Nat
  deriving DecidableEq, Repr

/-- What the functions read and the rest of the server changes. -/
structure ServerView where
  readPaused : Bool
  workerOwned : Bool
  streamActive : Bool
  activeRegular : Nat
  pendingSerialized : Nat
  deriving DecidableEq, Repr

structure Events where
  readable : Bool
  writable : Bool
  deriving DecidableEq, Repr

structure Conn where
  wireVersion : UInt8
  inTable : Bool
  closing : Bool
  shutdown : Bool
  view : ServerView
  registeredEvents : Events
  outputMutex : Option Nat
  outputQueue : List OutgoingFrame
  queuedOutputBytes : UInt64
  wire : List (Nat × UInt8)
  accepted : List (Write UInt8)
  tickets : Nat
  deriving DecidableEq, Repr

/-- The next step of a thread. The frame of a `close` step is the one that an overflow has dropped. -/
inductive Pc
  | writeCheck (requestId : UInt32) (response : Response) (deadline : Option Nat)
  | writeLock (frame : OutgoingFrame)
  | writeSend (frame : OutgoingFrame) (pending : UInt64)
  | writeReserve (frame : OutgoingFrame) (pending : UInt64)
  | writePush (frame : OutgoingFrame) (pending : UInt64)
  | writeOverflow (frame : OutgoingFrame)
  | writeRefresh
  | flushLock
  | flushTest (flushed : Nat)
  | flushSend (flushed : Nat)
  | flushSubConnection (flushed count : Nat)
  | flushSubTotal (flushed count : Nat)
  | flushRefresh
  | closeEnter (dropped : Option OutgoingFrame)
  | closeShutdown (dropped : Option OutgoingFrame)
  | closeOutput (dropped : Option OutgoingFrame)
  | closeTotal (queued : UInt64) (dropped : Option OutgoingFrame)
  | closeLeave (dropped : Option OutgoingFrame)
  | returned (result : Except Exception Bool)
  deriving DecidableEq, Repr

structure Thread where
  conn : Nat
  pc : Pc
  deriving DecidableEq, Repr

structure State where
  readinessFd : Int
  conns : List Conn
  threads : List Thread
  totalQueuedOutputBytes : UInt64
  connectionsMutex : Option Nat
  deriving DecidableEq, Repr

inductive Event
  | proceed
  | clock (now : Nat)
  | sent (count : Nat)
  | wouldBlock
  | failed
  | control (succeeds : Bool)
  deriving DecidableEq, Repr

inductive Action
  | respond (conn : Nat) (requestId : UInt32) (response : Response) (deadline : Option Nat)
  | flush (conn : Nat)
  | close (conn : Nat)
  | thread (index : Nat) (event : Event)
  | server (conn : Nat) (view : ServerView)
  | readiness (fd : Int)
  | shutdownFd (conn : Nat)
  deriving DecidableEq, Repr

def textBytes (text : String) : List UInt8 := text.toUTF8.toList

def boundedErrorBody (message : List UInt8) (maxMessageSize : Nat) : List UInt8 :=
  if message.length ≤ maxMessageSize then message else []

def errorResponse (opts : Options) (message : String) : Response where
  status := 500
  body := boundedErrorBody (textBytes (if opts.includeHandlerErrorMessages then message
    else "Internal Server Error")) opts.maxMessageSize

/-- The response that is written: an invalid one is replaced through `write_error_response`. -/
def acceptedResponse (opts : Options) (response : Response) : Response :=
  if response.status < 0 then errorResponse opts "response status_code must not be negative"
  else if opts.maxMessageSize < response.body.length ∨ maxWireField < response.body.length then
    errorResponse opts "response exceeds max_message_size"
  else response

def responseVersion (wireVersion : UInt8) : UInt8 := if wireVersion = 0 then version else wireVersion

def outgoingFrame (wireVersion : UInt8) (requestId : UInt32) (response : Response) (deadline : Option Nat) :
    OutgoingFrame where
  header := encodeHeader .response requestId (UInt32.ofNat response.status.toNat)
    (UInt32.ofNat response.body.length) 0 (responseVersion wireVersion)
  body := response.body
  offset := 0
  deadline
  ticket := 0

def frameBytes (frame : OutgoingFrame) : List UInt8 := frame.header ++ frame.body

def frameSize (frame : OutgoingFrame) : Nat := frame.header.length + frame.body.length

def remainingSize (frame : OutgoingFrame) : UInt64 := UInt64.ofNat (frameSize frame - frame.offset)

def remainingParts (frame : OutgoingFrame) : List (List UInt8) :=
  if frame.offset < frame.header.length then
    if frame.body.isEmpty then [frame.header.drop frame.offset]
    else [frame.header.drop frame.offset, frame.body]
  else [frame.body.drop (frame.offset - frame.header.length)]

def remainingBytes (frame : OutgoingFrame) : List UInt8 := (remainingParts frame).flatten

def expired (deadline : Option Nat) (now : Nat) : Bool :=
  match deadline with
  | none => false
  | some limit => limit ≤ now

def reserveGlobalOutput (opts : Options) (total bytes : UInt64) : Option UInt64 :=
  if opts.maxTotalOutputBytes = 0 then some (total + bytes)
  else if total ≤ opts.maxTotalOutputBytes ∧ bytes ≤ opts.maxTotalOutputBytes - total then
    some (total + bytes)
  else none

def reserveOutput (opts : Options) (total pending remaining : UInt64) : Option UInt64 :=
  if remaining ≤ opts.maxOutputBytesPerConnection ∧ pending ≤ opts.maxOutputBytesPerConnection - remaining then
    reserveGlobalOutput opts total remaining
  else none

def takeBytes (conn : Conn) (frame : OutgoingFrame) (count : Nat) : Conn :=
  { conn with wire := conn.wire ++ tag frame.ticket ((remainingBytes frame).take count) }

def acceptFrame (conn : Conn) (frame : OutgoingFrame) : Conn :=
  { conn with accepted := conn.accepted ++ [⟨frame.ticket, frameBytes frame⟩] }

def releaseOutput (conn : Conn) : Conn := { conn with outputMutex := none }

def wantedEvents (conn : Conn) : Events where
  readable := !conn.view.readPaused
  writable := conn.queuedOutputBytes != 0

def refreshConnectionEvents (readinessFd : Int) (conn : Conn) (succeeds : Bool) : Conn × Bool :=
  if !conn.inTable || readinessFd < 0 || conn.closing || conn.view.streamActive || conn.view.workerOwned then
    (conn, false)
  else if conn.registeredEvents = wantedEvents conn then (conn, true)
  else if succeeds then ({ conn with registeredEvents := wantedEvents conn }, true)
  else ({ conn with closing := true, shutdown := true }, false)

def afterRefresh (enabled : Bool) : Pc :=
  if enabled then .returned (.ok true)
  else .returned (.error (.runtimeError "failed to enable connection output"))

def afterClose : Option OutgoingFrame → Pc
  | none => .returned (.ok true)
  | some _ => .returned (.error (.runtimeError "connection output queue limit exceeded"))

/-- The step of a thread on its connection: the new connection, the new total, the new owner of
`connections_mutex` and the next place. -/
structure Outcome where
  conn : Conn
  total : UInt64
  connectionsMutex : Option Nat
  pc : Pc

variable (opts : Options) (s : State) (index : Nat) (conn : Conn) (event : Event)

def stay (conn : Conn) (pc : Pc) : Option Outcome :=
  some ⟨conn, s.totalQueuedOutputBytes, s.connectionsMutex, pc⟩

def writeCheckStep (requestId : UInt32) (response : Response) (deadline : Option Nat) : Option Outcome :=
  match event with
  | .clock now =>
    if expired deadline now then stay s conn (.returned (.error (.error .timeout "send timed out")))
    else stay s conn (.writeLock (outgoingFrame conn.wireVersion requestId (acceptedResponse opts response)
      deadline))
  | _ => none

def writeLockStep (frame : OutgoingFrame) : Option Outcome :=
  if conn.outputMutex.isSome then none
  else
    let numbered := { frame with ticket := conn.tickets + 1 }
    stay s { conn with outputMutex := some index, tickets := conn.tickets + 1 }
      (if conn.outputQueue.isEmpty then .writeSend numbered conn.queuedOutputBytes
        else .writeReserve numbered conn.queuedOutputBytes)

def writeSendStep (frame : OutgoingFrame) (pending : UInt64) : Option Outcome :=
  match event with
  | .sent count =>
    if conn.shutdown ∨ (remainingBytes frame).length < count then none
    else if count = 0 then stay s conn (.writeReserve frame pending)
    else if count = frameSize frame then
      stay s (releaseOutput (acceptFrame (takeBytes conn frame count) frame)) (.returned (.ok true))
    else stay s (acceptFrame (takeBytes conn frame count) frame)
      (.writeReserve { frame with offset := count } pending)
  | .wouldBlock => if conn.shutdown then none else stay s conn (.writeReserve frame pending)
  | .failed =>
    stay s (releaseOutput { conn with closing := true }) (.returned (.error (.error .system "send failed")))
  | _ => none

def writeReserveStep (frame : OutgoingFrame) (pending : UInt64) : Option Outcome :=
  match reserveOutput opts s.totalQueuedOutputBytes pending (remainingSize frame) with
  | some total => some ⟨conn, total, s.connectionsMutex, .writePush frame pending⟩
  | none => stay s (releaseOutput conn) (.writeOverflow frame)

def writePushStep (frame : OutgoingFrame) (pending : UInt64) : Option Outcome :=
  let accepted := if frame.offset = 0 then acceptFrame conn frame else conn
  stay s (releaseOutput { accepted with
    outputQueue := conn.outputQueue ++ [frame]
    queuedOutputBytes := pending + remainingSize frame }) .writeRefresh

def writeRefreshStep : Option Outcome :=
  match event with
  | .control succeeds =>
    if s.connectionsMutex.isSome then none
    else
      let refreshed := refreshConnectionEvents s.readinessFd conn succeeds
      stay s refreshed.1 (afterRefresh refreshed.2)
  | _ => none

def flushTestStep (flushed : Nat) : Option Outcome :=
  match event with
  | .clock now =>
    match conn.outputQueue with
    | [] => stay s (releaseOutput conn) .flushRefresh
    | front :: _ =>
      if maxFlushBytes ≤ flushed then stay s (releaseOutput conn) (.returned (.ok true))
      else if expired front.deadline now then
        stay s (releaseOutput { conn with closing := true }) (.returned (.ok false))
      else stay s conn (.flushSend flushed)
  | _ => none

def flushSendStep (flushed : Nat) : Option Outcome :=
  match conn.outputQueue with
  | [] => none
  | front :: rest =>
    match event with
    | .sent count =>
      if conn.shutdown ∨ (remainingBytes front).length < count then none
      else if count = 0 then stay s (releaseOutput { conn with closing := true }) (.returned (.ok false))
      else stay s { takeBytes conn front count with
        outputQueue := { front with offset := front.offset + count } :: rest }
        (.flushSubConnection (flushed + count) count)
    | .wouldBlock => if conn.shutdown then none else stay s (releaseOutput conn) (.returned (.ok true))
    | .failed => stay s (releaseOutput { conn with closing := true }) (.returned (.ok false))
    | _ => none

def popComplete : List OutgoingFrame → List OutgoingFrame
  | [] => []
  | front :: rest => if front.offset = frameSize front then rest else front :: rest

def flushRefreshStep : Option Outcome :=
  match event with
  | .control succeeds =>
    if s.connectionsMutex.isSome then none
    else
      let refreshed := refreshConnectionEvents s.readinessFd conn succeeds
      stay s refreshed.1 (.returned (.ok (refreshed.2 || refreshed.1.closing)))
  | _ => none

def closeEnterStep (dropped : Option OutgoingFrame) : Option Outcome :=
  if s.connectionsMutex.isSome then none
  else if conn.inTable then
    some ⟨{ conn with closing := true }, s.totalQueuedOutputBytes, some index, .closeShutdown dropped⟩
  else stay s conn (afterClose dropped)

def closeOutputStep (dropped : Option OutgoingFrame) : Option Outcome :=
  if conn.outputMutex.isSome then none
  else stay s { conn with
    outputMutex := some index
    outputQueue := []
    queuedOutputBytes := 0 } (.closeTotal conn.queuedOutputBytes dropped)

def closeLeaveStep (dropped : Option OutgoingFrame) : Option Outcome :=
  let inTable := conn.view.activeRegular != 0 || conn.view.pendingSerialized != 0
  some ⟨{ conn with inTable }, s.totalQueuedOutputBytes, none, afterClose dropped⟩

def threadStep (pc : Pc) : Option Outcome :=
  match pc with
  | .writeCheck requestId response deadline => writeCheckStep opts s conn event requestId response deadline
  | .writeLock frame => writeLockStep s index conn frame
  | .writeSend frame pending => writeSendStep s conn event frame pending
  | .writeReserve frame pending => writeReserveStep opts s conn frame pending
  | .writePush frame pending => writePushStep s conn frame pending
  | .writeOverflow frame => stay s { conn with closing := true } (.closeEnter (some frame))
  | .writeRefresh => writeRefreshStep s conn event
  | .flushLock =>
    if conn.outputMutex.isSome then none else stay s { conn with outputMutex := some index } (.flushTest 0)
  | .flushTest flushed => flushTestStep s conn event flushed
  | .flushSend flushed => flushSendStep s conn event flushed
  | .flushSubConnection flushed count =>
    stay s { conn with queuedOutputBytes := conn.queuedOutputBytes - UInt64.ofNat count }
      (.flushSubTotal flushed count)
  | .flushSubTotal flushed count =>
    some ⟨{ conn with outputQueue := popComplete conn.outputQueue },
      s.totalQueuedOutputBytes - UInt64.ofNat count, s.connectionsMutex, .flushTest flushed⟩
  | .flushRefresh => flushRefreshStep s conn event
  | .closeEnter dropped => closeEnterStep s index conn dropped
  | .closeShutdown dropped => stay s { conn with shutdown := true } (.closeOutput dropped)
  | .closeOutput dropped => closeOutputStep s index conn dropped
  | .closeTotal queued dropped =>
    some ⟨releaseOutput conn, s.totalQueuedOutputBytes - queued, s.connectionsMutex, .closeLeave dropped⟩
  | .closeLeave dropped => closeLeaveStep s conn dropped
  | .returned _ => none

def apply (thread : Thread) (outcome : Outcome) : State :=
  { s with
    conns := s.conns.set thread.conn outcome.conn
    threads := s.threads.set index { thread with pc := outcome.pc }
    totalQueuedOutputBytes := outcome.total
    connectionsMutex := outcome.connectionsMutex }

def spawn (connIndex : Nat) (pc : Pc) : Option State :=
  if connIndex < s.conns.length then some { s with threads := s.threads ++ [⟨connIndex, pc⟩] } else none

def step : Action → Option State
  | .respond connIndex requestId response deadline => spawn s connIndex (.writeCheck requestId response deadline)
  | .flush connIndex => spawn s connIndex .flushLock
  | .close connIndex => spawn s connIndex (.closeEnter none)
  | .thread index event =>
    match s.threads[index]? with
    | none => none
    | some thread =>
      match s.conns[thread.conn]? with
      | none => none
      | some conn => (threadStep opts s index conn event thread.pc).map (apply s index thread)
  | .server connIndex view =>
    some { s with conns := s.conns.modify connIndex fun conn => { conn with view } }
  | .readiness fd => some { s with readinessFd := fd }
  | .shutdownFd connIndex =>
    some { s with conns := s.conns.modify connIndex fun conn => { conn with shutdown := true } }

structure Initial (s : State) : Prop where
  conns : ∀ conn ∈ s.conns, conn.outputMutex = none ∧ conn.outputQueue = [] ∧ conn.queuedOutputBytes = 0 ∧
    conn.wire = [] ∧ conn.accepted = [] ∧ conn.tickets = 0 ∧ conn.inTable = true ∧ conn.shutdown = false
  threads : s.threads = []
  total : s.totalQueuedOutputBytes = 0
  connectionsMutex : s.connectionsMutex = none

def machine : Machine State Action where
  initial := Initial
  step := step opts

end EasyUds.Reactor.Output

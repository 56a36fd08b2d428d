import EasyUds.Lib.Framing
import EasyUds.Lib.Machine
import EasyUds.Transport.Io

/-! # A shared session

`Session::request_impl` for any number of calling threads, and `session_reader_loop`, over one
socket. A critical section under a shard mutex or a slot mutex is one step, except that a call
registers in two: `broken` is not protected by the mutex, so it is read in the step that takes it.
`send_mutex` is held over many steps, one for each send call. A call's slot is part of the call, as it
lives on the caller's stack; `inflight` maps a request id to the index of the call that holds it.

`wire` and `started` are a history: the bytes that the socket has accepted, each tagged with the
number of the locked write it came from, and the writes that have put a byte on the socket.
After `shutdown` the socket accepts no byte. The node cache of `InflightShard` and the destructor
(which no call may overlap) are left out.
-/

namespace EasyUds.Session.Model

open Lib Lib.Framing Protocol.Codec Transport.Io

structure Options where
  maxMessageSize : Nat
  protocolVersion : UInt8
  stats : Bool
  deriving DecidableEq, Repr

structure Response where
  status : UInt32
  body : List UInt8
  deriving DecidableEq, Repr

structure Slot where
  done : Bool
  response : Option Response
  error : Option Exception
  deriving DecidableEq, Repr

structure CounterShard where
  requestsStarted : UInt64
  requestsCompleted : UInt64
  requestsTimedOut : UInt64
  requestsFailed : UInt64
  deriving DecidableEq, Repr

structure Shard where
  inflight : List (UInt32 × Nat)
  owner : Option Nat
  counters : CounterShard
  deriving DecidableEq, Repr

inductive Outcome
  | response (value : Response)
  | threw (reason : Exception)
  deriving DecidableEq, Repr

/-- The next step of a call. The lists are the bytes that its current write has yet to send. -/
inductive CallPc
  | checkBroken
  | allocate
  | register (requestId : UInt32)
  | insert (requestId : UInt32)
  | lockSend
  | sending (parts : List (List UInt8))
  | sendFailedStore (parts : List (List UInt8)) (reason : Exception)
  | sendFailedErase (parts : List (List UInt8)) (reason : Exception)
  | sendFailedShutdown (parts : List (List UInt8)) (reason : Exception)
  | waiting
  | lockCancel
  | sendingCancel (rest : List UInt8)
  | cancelFailedStore (rest : List UInt8)
  | cancelFailedShutdown (rest : List UInt8)
  | waitingCancelled
  | finish
  | timedOutStore
  | timedOutShutdown
  | returned (outcome : Outcome)
  deriving DecidableEq, Repr

structure Call where
  route : List UInt8
  body : List UInt8
  cancellable : Bool
  requestId : UInt32
  slot : Slot
  timedOut : Bool
  cancelled : Bool
  pc : CallPc
  deriving DecidableEq, Repr

inductive ReaderPc
  | reading
  | deliver (requestId : UInt32) (response : Response)
  | failedStore (reason : Exception)
  | visiting (shard : Nat) (reason : Exception)
  | finished
  deriving DecidableEq, Repr

structure State where
  wire : List (Nat × UInt8)
  started : List (Write UInt8)
  tickets : Nat
  shutdown : Bool
  broken : Bool
  sendMutex : Option Nat
  nextId : UInt32
  shards : List Shard
  calls : List Call
  reader : ReaderPc
  deriving DecidableEq, Repr

/-- What the environment answers at a step: the result of a send call, the end of a wait, or what the
reader sees. -/
inductive Event
  | proceed
  | sent (count : Nat)
  | retry
  | failed (reason : Exception)
  | done
  | cancel
  | deadline
  | frame (requestId : UInt32) (response : Response)
  deriving DecidableEq, Repr

inductive Action
  | request (route body : List UInt8) (cancellable : Bool)
  | call (index : Nat) (event : Event)
  | reader (event : Event)
  deriving DecidableEq, Repr

def closedError : Exception := .error .closed "session connection is no longer usable"
def timeoutError : Exception := .error .timeout "request timed out"
def cancelledError : Exception := .error .cancelled "request cancelled"

def emptySlot : Slot where
  done := false
  response := none
  error := none

def shardFor (s : State) (requestId : UInt32) : Nat := requestId.toNat % s.shards.length

def setCall (s : State) (index : Nat) (call : Call) : State :=
  { s with calls := s.calls.set index call }

def updateShard (s : State) (shard : Nat) (f : Shard → Shard) : State :=
  { s with shards := s.shards.modify shard f }

def count (opts : Options) (f : CounterShard → CounterShard) (shard : Shard) : Shard :=
  if opts.stats then { shard with counters := f shard.counters } else shard

def insert (requestId : UInt32) (index : Nat) (shard : Shard) : Shard :=
  { shard with inflight := (requestId, index) :: shard.inflight }

def erase (requestId : UInt32) (shard : Shard) : Shard :=
  { shard with inflight := shard.inflight.filter fun entry => entry.1 != requestId }

def accept (s : State) (frame bytes : List UInt8) : State :=
  { s with
    wire := s.wire ++ tag s.tickets bytes
    started := startWrite s.started s.tickets frame }

def callFrame (opts : Options) (call : Call) : List UInt8 :=
  requestFrame call.requestId call.route call.body opts.protocolVersion

def lockSendMutex (s : State) (index : Nat) : Option State :=
  if s.sendMutex.isSome then none else some { s with sendMutex := some index, tickets := s.tickets + 1 }

/-- One turn of `write_iovecs_exact` or `write_exact`: `next` is the place after the accepted bytes,
`failed` that of the handler. -/
def sendStep (s : State) (index : Nat) (call : Call) (frame unsent : List UInt8) (event : Event)
    (next : Nat → CallPc) (failed : Exception → CallPc) : Option State :=
  match event with
  | .sent count =>
    if s.shutdown ∨ count = 0 ∨ unsent.length < count then none
    else
      let accepted := accept s frame (unsent.take count)
      let released := if unsent.length = count then { accepted with sendMutex := none } else accepted
      some (setCall released index { call with pc := next count })
  | .retry => some s
  | .failed reason => some (setCall { s with sendMutex := none } index { call with pc := failed reason })
  | _ => none

def inflightAt (s : State) (requestId : UInt32) : List (UInt32 × Nat) :=
  (s.shards[shardFor s requestId]?.map Shard.inflight).getD []

def shardLocked (s : State) (shard : Nat) : Bool := (s.shards[shard]?.bind Shard.owner).isSome

/-- The shard is locked and `broken` is read; the exception releases the mutex. -/
def registerStep (s : State) (index : Nat) (call : Call) (requestId : UInt32) : Option State :=
  if shardLocked s (shardFor s requestId) then none
  else if s.broken then some (setCall s index { call with pc := .returned (.threw closedError) })
  else
    some (setCall (updateShard s (shardFor s requestId) fun shard => { shard with owner := some index }) index
      { call with pc := .insert requestId })

/-- The rest of the section: an id that is in flight is given up, any other is taken. -/
def insertStep (opts : Options) (s : State) (index : Nat) (call : Call) (requestId : UInt32) : State :=
  if (inflightAt s requestId).any (·.1 == requestId) then
    setCall (updateShard s (shardFor s requestId) fun shard => { shard with owner := none }) index
      { call with pc := .allocate }
  else
    setCall (updateShard s (shardFor s requestId) fun shard =>
      { count opts (fun counters => { counters with requestsStarted := counters.requestsStarted + 1 })
          (insert requestId index shard) with owner := none }) index { call with requestId, pc := .lockSend }

def countFinished (call : Call) (counters : CounterShard) : CounterShard :=
  if call.timedOut then { counters with requestsTimedOut := counters.requestsTimedOut + 1 }
  else if call.slot.error.isSome then { counters with requestsFailed := counters.requestsFailed + 1 }
  else { counters with requestsCompleted := counters.requestsCompleted + 1 }

def finishPc (call : Call) : CallPc :=
  if call.timedOut then .timedOutStore
  else if call.cancelled then .returned (.threw cancelledError)
  else match call.slot.error with
    | some reason => .returned (.threw reason)
    | none => .returned (.response (call.slot.response.getD ⟨0, []⟩))

/-- The section in which a call counts its outcome and takes its slot out of the shard. -/
def eraseStep (opts : Options) (s : State) (index : Nat) (call : Call) (f : CounterShard → CounterShard)
    (pc : CallPc) : Option State :=
  if shardLocked s (shardFor s call.requestId) then none
  else
    some (setCall (updateShard s (shardFor s call.requestId) fun shard =>
      erase call.requestId (count opts f shard)) index { call with pc })

def callStep (opts : Options) (s : State) (index : Nat) (call : Call) (event : Event) : Option State :=
  match call.pc with
  | .checkBroken =>
    some (setCall s index
      { call with pc := if s.broken then .returned (.threw closedError) else .allocate })
  | .allocate =>
    some (setCall { s with nextId := s.nextId + 1 } index
      { call with pc := if s.nextId = 0 then .allocate else .register s.nextId })
  | .register requestId => registerStep s index call requestId
  | .insert requestId => some (insertStep opts s index call requestId)
  | .lockSend =>
    (lockSendMutex s index).map fun locked => setCall locked index { call with
      pc := .sending (requestParts call.requestId call.route call.body opts.protocolVersion) }
  | .sending parts =>
    sendStep s index call (callFrame opts call) parts.flatten event
      (fun count => if skipEmpty (advance parts count) = [] then .waiting
        else .sending (skipEmpty (advance parts count)))
      (.sendFailedStore parts ·)
  | .sendFailedStore parts reason =>
    some (setCall { s with broken := true } index { call with pc := .sendFailedErase parts reason })
  | .sendFailedErase parts reason =>
    eraseStep opts s index call (fun counters => { counters with requestsFailed := counters.requestsFailed + 1 })
      (.sendFailedShutdown parts reason)
  | .sendFailedShutdown _ reason =>
    some (setCall { s with shutdown := true } index { call with pc := .returned (.threw reason) })
  | .waiting =>
    match event with
    | .done => if call.slot.done then some (setCall s index { call with pc := .finish }) else none
    | .cancel =>
      if call.cancellable ∧ ¬ call.slot.done then
        some (setCall s index { call with
          cancelled := true
          pc := if cancellableVersion ≤ opts.protocolVersion then .lockCancel else .finish })
      else none
    | .deadline =>
      if call.slot.done then none
      else some (setCall s index { call with timedOut := true, pc := .finish })
    | _ => none
  | .lockCancel =>
    (lockSendMutex s index).map fun locked => setCall locked index { call with
      pc := .sendingCancel (cancelFrame call.requestId opts.protocolVersion) }
  | .sendingCancel rest =>
    sendStep s index call (cancelFrame call.requestId opts.protocolVersion) rest event
      (fun count => if rest.drop count = [] then .waitingCancelled else .sendingCancel (rest.drop count))
      (fun _ => .cancelFailedStore rest)
  | .cancelFailedStore rest =>
    some (setCall { s with broken := true } index { call with pc := .cancelFailedShutdown rest })
  | .cancelFailedShutdown _ =>
    some (setCall { s with shutdown := true } index { call with pc := .waitingCancelled })
  | .waitingCancelled =>
    match event with
    | .done => if call.slot.done then some (setCall s index { call with pc := .finish }) else none
    | .deadline =>
      if call.slot.done then none
      else some (setCall s index { call with timedOut := true, pc := .finish })
    | _ => none
  | .finish => eraseStep opts s index call (countFinished call) (finishPc call)
  | .timedOutStore => some (setCall { s with broken := true } index { call with pc := .timedOutShutdown })
  | .timedOutShutdown =>
    some (setCall { s with shutdown := true } index { call with pc := .returned (.threw timeoutError) })
  | .returned _ => none

def completeSlot (s : State) (index : Nat) (f : Slot → Slot) : State :=
  { s with calls := s.calls.modify index fun call => { call with slot := f call.slot } }

/-- The handler's visit of one shard: every slot that is not done gets the error. -/
def failShard (s : State) (shard : Nat) (reason : Exception) : State :=
  ((s.shards[shard]?.map Shard.inflight).getD []).foldl (fun s entry => completeSlot s entry.2 fun slot =>
    if slot.done then slot else { slot with error := some reason, done := true }) s

def deliverStep (s : State) (requestId : UInt32) (response : Response) : State :=
  match (inflightAt s requestId).find? (·.1 == requestId) with
  | none => { s with reader := .failedStore (.error .protocol "unexpected response request_id") }
  | some entry =>
    if (s.calls[entry.2]?.map fun call => call.slot.done).getD true then
      { s with reader := .failedStore (.error .protocol "duplicate response request_id") }
    else
      completeSlot { s with reader := .reading } entry.2 fun slot =>
        { slot with response := some response, done := true }

def readerStep (opts : Options) (s : State) (event : Event) : Option State :=
  match s.reader with
  | .reading =>
    match event with
    | .frame requestId response =>
      if response.status.toNat > 2 ^ 31 - 1 then
        some { s with reader := .failedStore (.error .protocol "response status_code is out of range") }
      else if response.body.length > opts.maxMessageSize then
        some { s with reader := .failedStore (.error .tooLarge "response exceeds max_message_size") }
      else some { s with reader := .deliver requestId response }
    | .failed reason => some { s with reader := .failedStore reason }
    | _ => none
  | .deliver requestId response =>
    if shardLocked s (shardFor s requestId) then none else some (deliverStep s requestId response)
  | .failedStore reason => some { s with broken := true, reader := .visiting 0 reason }
  | .visiting shard reason =>
    if shardLocked s shard then none
    else if shard < s.shards.length then
      some (failShard { s with reader := .visiting (shard + 1) reason } shard reason)
    else some { s with reader := .finished }
  | .finished => none

def step (opts : Options) (s : State) : Action → Option State
  | .request route body cancellable =>
    if cancellable ∧ opts.protocolVersion < cancellableVersion then none
    else if validateRequestLengths route.length body.length opts.maxMessageSize = .ok () then
      some { s with calls := s.calls ++ [{
        route, body, cancellable, requestId := 0, slot := emptySlot, timedOut := false,
        cancelled := false, pc := .checkBroken }] }
    else none
  | .call index event =>
    match s.calls[index]? with
    | none => none
    | some call => callStep opts s index call event
  | .reader event => readerStep opts s event

structure Initial (s : State) : Prop where
  wire : s.wire = []
  started : s.started = []
  tickets : s.tickets = 0
  shutdown : s.shutdown = false
  broken : s.broken = false
  sendMutex : s.sendMutex = none
  calls : s.calls = []
  shards : ∀ shard ∈ s.shards, shard.inflight = [] ∧ shard.owner = none
  shardCount : 1 ≤ s.shards.length
  reader : s.reader = .reading

def machine (opts : Options) : Machine State Action where
  initial := Initial
  step := step opts

end EasyUds.Session.Model

import EasyUds.Reactor.Output
import EasyUds.Reactor.Serialized

/-! # Serving a fixed request

What becomes of a complete fixed request. The reactor path is `dispatch_request` with `worker_loop` or
`serialized_worker_loop`; the continuation path is `serve_fixed_request`, with the serialized executor for
serialized routes. Handlers and the authorizer are any functions that return or throw. The clock is read
when the execution starts and again when the response is written.

The connection takes every response that is written, and the worker pool takes every job.
-/

namespace EasyUds.Reactor.FixedRequest

open Reactor.Output (Response boundedErrorBody acceptedResponse textBytes expired)
open Reactor.Serialized (QueuePolicy SerializedAdmission admission)

structure Request where
  requestId : UInt32
  route : List UInt8
  body : List UInt8
  deriving DecidableEq, Repr

/-- `RequestContext`, as a handler or the authorizer can see it. -/
structure Context where
  arrivalTime : Nat
  deadline : Option Nat
  closing : Bool
  running : Bool
  cancelled : Bool
  peer : Nat
  receivedFd : Option Nat
  deriving DecidableEq, Repr

/-- An exception: a `std::exception` with its text, or something else. -/
abbrev Thrown := Option String

inductive Handler
  | simple (run : Request → Except Thrown Response)
  | contextual (run : Request → Context → Except Thrown Response)

structure RouteScheduling where
  domain : String
  policy : QueuePolicy

/-- `builtIn` is the prebuilt entry of unknown routes, which calls no code of the user. -/
structure HandlerEntry where
  handler : Handler
  serialized : Bool
  scheduling : RouteScheduling
  builtIn : Bool

/-- The entries of prefixes stand with the longest ones first. -/
structure HandlerRegistry where
  handlers : List (List UInt8 × HandlerEntry)
  handlerPrefixes : List (List UInt8 × HandlerEntry)

structure Server where
  output : Output.Options
  registry : HandlerRegistry
  authorizeRequest : Option (Request → Context → Except Thrown Bool)
  serialized : Serialized.State

variable (server : Server) (request : Request) (context : Context)

def findRequestHandler (route : List UInt8) : Option HandlerEntry :=
  match server.registry.handlers.lookup route with
  | some entry => some entry
  | none => (server.registry.handlerPrefixes.find? fun entry => entry.1.isPrefixOf route).map Prod.snd

def errorBody (message : String) : List UInt8 := boundedErrorBody (textBytes message) server.output.maxMessageSize

def thrownResponse : Thrown → Response
  | some message =>
    ⟨500, errorBody server (if server.output.includeHandlerErrorMessages then message else "Internal Server Error")⟩
  | none => ⟨500, errorBody server "Internal Server Error"⟩

def authorizeRequest : Option Response :=
  match server.authorizeRequest with
  | none => none
  | some authorize =>
    match authorize request context with
    | .ok true => none
    | .ok false => some ⟨403, textBytes "Forbidden"⟩
    | .error thrown => some (thrownResponse server thrown)

def runHandler : Handler → Except Thrown Response
  | .simple run => run request
  | .contextual run => run request context

/-- A response, and whether a handler of the user has been called for it. -/
structure Invocation where
  invoked : Bool
  response : Response
  deriving DecidableEq, Repr

def invokeRequestHandler (entry : HandlerEntry) : Invocation :=
  match authorizeRequest server request context with
  | some response => ⟨false, response⟩
  | none =>
    match runHandler request context entry.handler with
    | .ok response => ⟨!entry.builtIn, response⟩
    | .error thrown => ⟨!entry.builtIn, thrownResponse server thrown⟩

/-- `closed`: the connection is closed without an answer. `dropped`: the job ends without an answer. -/
inductive Outcome
  | answered (invoked : Bool) (response : Response)
  | closed (invoked : Bool)
  | dropped
  deriving DecidableEq, Repr

/-- `write_fixed_response`; past the deadline it throws, and its callers close the connection. -/
def writeFixedResponse (deadline : Option Nat) (clock : Nat) (invocation : Invocation) : Outcome :=
  if expired deadline clock then .closed invocation.invoked
  else .answered invocation.invoked (acceptedResponse server.output invocation.response)

def writeErrorResponse (status : Int) (message : String) : Outcome :=
  writeFixedResponse server none 0 ⟨false, ⟨status, errorBody server message⟩⟩

variable (now elapsed : Nat)

/-- The body of both worker loops for a job. -/
def executeJob (entry : HandlerEntry) : Outcome :=
  if expired context.deadline now then writeErrorResponse server 408 "request timed out before execution"
  else if server.serialized.running then
    writeFixedResponse server context.deadline (now + elapsed) (invokeRequestHandler server request context entry)
  else .dropped

def workerLoop (entry : HandlerEntry) : Outcome := executeJob server request context now elapsed entry

def serializedWorkerLoop (entry : HandlerEntry) : Outcome := executeJob server request context now elapsed entry

/-- What the executor does with an admitted job: memory or a thread may be missing for it, and a later
request may supersede it. -/
inductive Fate
  | failed
  | superseded
  | executed
  deriving DecidableEq, Repr

/-- The tests of `enqueue_serialized_job`; nothing is an exception. -/
def enqueueSerializedJob (scheduling : RouteScheduling) (fate : Fate) : Option SerializedAdmission :=
  if server.serialized.serializedStopping ∨ server.serialized.running = false then some .stopping
  else if fate = .failed then none
  else some (admission scheduling.policy (Serialized.serializedDomainBusy server.serialized scheduling.domain))

def serveSerialized (fate : Fate) (entry : HandlerEntry) : Outcome :=
  match enqueueSerializedJob server entry.scheduling fate with
  | none => .closed false
  | some .stopping => .closed false
  | some .busy => writeErrorResponse server 409 "serialization domain is busy"
  | some .accepted =>
    if fate = .superseded then writeErrorResponse server 409 "superseded by a newer request"
    else serializedWorkerLoop server request context now elapsed entry

def notFoundHandler : HandlerEntry where
  handler := .simple fun _ => .ok ⟨404, errorBody server "Not Found"⟩
  serialized := false
  scheduling := ⟨"", .fifo⟩
  builtIn := true

def dispatchRequest (fate : Fate) : Outcome :=
  let entry := (findRequestHandler server request.route).getD (notFoundHandler server)
  if entry.serialized then serveSerialized server request context now elapsed fate entry
  else workerLoop server request context now elapsed entry

/-- `serve_fixed_request`, which tests neither the deadline nor whether the server runs. -/
def serveFixedRequest (fate : Fate) : Outcome :=
  match findRequestHandler server request.route with
  | none =>
    let response := (authorizeRequest server request context).getD ⟨404, errorBody server "Not Found"⟩
    writeFixedResponse server context.deadline (now + elapsed) ⟨false, response⟩
  | some entry =>
    if entry.serialized then serveSerialized server request context now elapsed fate entry
    else
      writeFixedResponse server context.deadline (now + elapsed) (invokeRequestHandler server request context entry)

section Paths

variable {server request context now elapsed}

theorem expired_later {deadline : Option Nat} (h : expired deadline now = true) :
    expired deadline (now + elapsed) = true := by
  unfold expired at h ⊢
  split at h
  · cases h
  · have hLimit := of_decide_eq_true h
    exact decide_eq_true (by omega)

theorem serveFixedRequest_regular {fate : Fate}
    (h : ∀ entry, findRequestHandler server request.route = some entry → entry.serialized = false) :
    serveFixedRequest server request context now elapsed fate =
      writeFixedResponse server context.deadline (now + elapsed)
        (invokeRequestHandler server request context
          ((findRequestHandler server request.route).getD (notFoundHandler server))) := by
  unfold serveFixedRequest
  cases hFound : findRequestHandler server request.route with
  | none =>
    dsimp only [Option.getD_none]
    unfold invokeRequestHandler
    cases authorizeRequest server request context with
    | none | some response => rfl
  | some entry =>
    dsimp only [Option.getD_some]
    rw [if_neg (ne_of_eq_of_ne (h entry hFound) Bool.false_ne_true)]

theorem dispatchRequest_regular {fate : Fate}
    (h : ∀ entry, findRequestHandler server request.route = some entry → entry.serialized = false) :
    dispatchRequest server request context now elapsed fate =
      workerLoop server request context now elapsed
        ((findRequestHandler server request.route).getD (notFoundHandler server)) := by
  have hRegular : ((findRequestHandler server request.route).getD (notFoundHandler server)).serialized = false := by
    cases hFound : findRequestHandler server request.route with
    | none => rfl
    | some entry => exact h entry hFound
  unfold dispatchRequest
  dsimp only
  rw [if_neg (ne_of_eq_of_ne hRegular Bool.false_ne_true)]

theorem paths_agree_serialized {fate : Fate} {entry : HandlerEntry}
    (hFound : findRequestHandler server request.route = some entry) (hSerialized : entry.serialized = true) :
    serveFixedRequest server request context now elapsed fate =
      dispatchRequest server request context now elapsed fate := by
  rw [serveFixedRequest, dispatchRequest, hFound]
  dsimp only [Option.getD_some]
  rw [if_pos hSerialized, if_pos hSerialized]

end Paths

/-- The two paths have the same outcome exactly if the route is serialized, or the server runs and the
deadline has not passed when the execution starts. -/
theorem paths_agree_iff (server : Server) (request : Request) (context : Context) (now elapsed : Nat) (fate : Fate) :
    serveFixedRequest server request context now elapsed fate =
        dispatchRequest server request context now elapsed fate ↔
      (∃ entry, findRequestHandler server request.route = some entry ∧ entry.serialized = true) ∨
        (server.serialized.running = true ∧ expired context.deadline now = false) := by
  by_cases hSerialized : ∃ entry, findRequestHandler server request.route = some entry ∧ entry.serialized = true
  · obtain ⟨entry, hFound, hTrue⟩ := hSerialized
    exact ⟨fun _ => .inl ⟨entry, hFound, hTrue⟩, fun _ => paths_agree_serialized hFound hTrue⟩
  · have hRegular : ∀ entry, findRequestHandler server request.route = some entry → entry.serialized = false := by
      intro entry hFound
      exact Bool.eq_false_iff.mpr fun hTrue => hSerialized ⟨entry, hFound, hTrue⟩
    rw [serveFixedRequest_regular hRegular, dispatchRequest_regular hRegular, workerLoop, executeJob]
    cases hExpired : expired context.deadline now with
    | true =>
      -- the reactor path answers 408, the other one has no time left for its answer
      rw [if_pos rfl, writeFixedResponse, if_pos (expired_later hExpired)]
      constructor
      · nofun
      · rintro (hFound | ⟨_, hFalse⟩)
        · exact absurd hFound hSerialized
        · cases hFalse
    | false =>
      rw [if_neg Bool.false_ne_true]
      cases server.serialized.running with
      | true => exact ⟨fun _ => .inr ⟨rfl, rfl⟩, fun _ => rfl⟩
      | false =>
        rw [if_neg Bool.false_ne_true, writeFixedResponse]
        constructor
        · split <;> nofun
        · rintro (hFound | ⟨hRuns, _⟩)
          · exact absurd hFound hSerialized
          · cases hRuns

def oneRoute : Server where
  output := ⟨64, 1024, 0, false⟩
  registry := ⟨[([97], ⟨.simple fun _ => .ok ⟨200, [1]⟩, false, ⟨"", .fifo⟩, false⟩)], []⟩
  authorizeRequest := none
  serialized := Serialized.idleExecutor

/-- The deadline has passed: the worker answers 408, the continuation calls the handler and closes the
connection. -/
theorem expired_request_differs :
    dispatchRequest oneRoute ⟨1, [97], []⟩ ⟨0, some 5, false, true, false, 0, none⟩ 6 0 .executed =
        .answered false ⟨408, textBytes "request timed out before execution"⟩ ∧
      serveFixedRequest oneRoute ⟨1, [97], []⟩ ⟨0, some 5, false, true, false, 0, none⟩ 6 0 .executed =
        .closed true := by
  decide +kernel

end EasyUds.Reactor.FixedRequest

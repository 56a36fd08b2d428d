import EasyUds.Lib.Queue
import EasyUds.Reactor.FixedRequest

/-! # Unauthorized requests

Schedules of whole fixed requests: arrivals on the reactor and on the continuation path, the workers of
the pool, any number of serialized workers, the connections with their queued output, and `stop`.
`authorize_request` is called when a job is executed; the queue policies apply when it is admitted. There
are no maintenance jobs.

`active` holds the jobs whose domain a serialized worker has activated, `taken` the jobs that a worker
has and has not yet run, `replies` the requests that are answered without being run, and `output` the
bytes in the output queues, by connection. `invoked` and `answers` are a history, by the numbers of the
requests. A schedule fixes the clock readings of each execution, what the socket does with each write, and
whether memory or a thread is missing for an admission.
-/

namespace EasyUds.Reactor.Authorization

open Lib Lib.Queue Reactor.FixedRequest
open Reactor.Output (Response textBytes reserveOutput)
open Protocol.Codec (headerSize)

inductive Path
  | reactor
  | continuation
  deriving DecidableEq, Repr

/-- `context.cancelled` is what the handler will see of the cancellation flag. -/
structure Arrival where
  id : Nat
  connection : Nat
  path : Path
  request : Request
  context : Context

structure Job extends Arrival where
  handler : HandlerEntry

def Job.entry (job : Job) : Serialized.Job where
  ticket := job.id
  connection := some job.connection
  domain := job.handler.scheduling.domain
  policy := job.handler.scheduling.policy
  route := job.request.route
  deadline := job.context.deadline

def Job.domain (job : Job) : String := job.entry.domain

structure State where
  running : Bool := true
  workersStopping : Bool := false
  serializedStopping : Bool := false
  pendingJobs : List Job := []
  pendingSerialized : List Job := []
  active : List Job := []
  taken : List Job := []
  replies : List (Job × String) := []
  output : List (Nat × Nat) := []
  closing : List Nat := []
  closed : List Nat := []
  invoked : List Nat := []
  answers : List (Nat × Response) := []

/-- What a write meets: the number of bytes that the socket takes, unless the send fails, and whether the
poller is told of what stays in the queue. -/
structure Socket where
  room : Option Nat
  watched : Bool
  deriving DecidableEq, Repr

inductive Event
  | arrive (arrival : Arrival) (fails : Bool)
  | take (id : Nat)
  | takeSerialized (id : Nat)
  | execute (id now elapsed : Nat) (socket : Socket)
  | reply (id : Nat) (socket : Socket)
  | deactivate (id : Nat)
  | flush (connection count : Nat)
  | hangUp (connection : Nat)
  | close (connection : Nat)
  | stopRunning
  | stopWorkers
  | stopSerialized

def shares (jobs : List Job) (domain : String) : Bool := jobs.any fun job => job.domain == domain

def serializedDomainActive (s : State) (domain : String) : Bool := shares s.active domain

def State.executor (s : State) : List Job := s.active ++ s.pendingSerialized

def serializedDomainBusy (s : State) (domain : String) : Bool := shares s.executor domain

def invokes : Outcome → Bool
  | .answered invoked _ => invoked
  | .closed invoked => invoked
  | .dropped => false

def response : Outcome → Option Response
  | .answered _ response => some response
  | _ => none

def closes : Outcome → Bool
  | .closed _ => true
  | _ => false

def State.queuedOutput (s : State) (connection : Nat) : Nat :=
  ((s.output.filter fun entry => entry.1 == connection).map Prod.snd).sum

def State.totalQueuedOutput (s : State) : Nat := (s.output.map Prod.snd).sum

def State.setOutput (s : State) (connection bytes : Nat) : State :=
  { s with output := s.output.filter (fun entry => entry.1 != connection) ++ [(connection, bytes)] }

def State.shut (s : State) (connection : Nat) : State :=
  { s with
    closing := s.closing ++ [connection]
    closed := s.closed ++ [connection]
    output := s.output.filter fun entry => entry.1 != connection }

variable (server : Server)

inductive Written
  | sent
  | queued (pending : Nat)
  | failed
  | overflow
  deriving DecidableEq, Repr

/-- What becomes of a frame that is written; only an empty queue lets it go to the socket at once. -/
def written (s : State) (connection : Nat) (answer : Response) (socket : Socket) : Written :=
  let pending := s.queuedOutput connection
  let size := headerSize + answer.body.length
  if pending = 0 ∧ socket.room = none then .failed
  else
    let remaining := if pending = 0 then size - socket.room.getD 0 else size
    if remaining = 0 then .sent
    else if (reserveOutput server.output (.ofNat s.totalQueuedOutput) (.ofNat pending) (.ofNat remaining)).isSome then
      .queued (pending + remaining)
    else .overflow

/-- A closed connection takes no response. -/
def State.write (s : State) (job : Job) (answer : Response) (socket : Socket) : State :=
  if s.closed.contains job.connection then s
  else
    match written server s job.connection answer socket with
    | .sent => { s with answers := s.answers ++ [(job.id, answer)] }
    | .queued pending =>
      { s.setOutput job.connection pending with
        answers := s.answers ++ [(job.id, answer)]
        closing := s.closing ++ if socket.watched then [] else [job.connection] }
    | .failed => { s with closing := s.closing ++ [job.connection] }
    | .overflow => s.shut job.connection

def State.record (s : State) (job : Job) (outcome : Outcome) (socket : Socket) : State :=
  let called :=
    { s with
      invoked := s.invoked ++ if invokes outcome then [job.id] else []
      closing := s.closing ++ if closes outcome then [job.connection] else [] }
  match response outcome with
  | none => called
  | some answer => called.write server job answer socket

def arrived (arrival : Arrival) : Job where
  toArrival := arrival
  handler := (findRequestHandler server arrival.request.route).getD (notFoundHandler server)

def replaces (incoming queued : Job) : Bool := Serialized.replaces incoming.entry queued.entry

/-- The superseded jobs are left to `finish_superseded_job`. -/
def supersede (s : State) (incoming : Job) : State :=
  let split := Serialized.superseding incoming.entry.policy (replaces incoming) s.pendingSerialized
  { s with
    pendingSerialized := split.1
    replies := s.replies ++ split.2.map fun job => (job, "superseded by a newer request") }

def queueJob (s : State) (job : Job) : State :=
  { s with pendingSerialized := s.pendingSerialized ++ [job] }

def refuse (s : State) (job : Job) : State := { s with closing := s.closing ++ [job.connection] }

def enqueueSerializedJob (s : State) (job : Job) (fails : Bool) : State :=
  if s.serializedStopping ∨ s.running = false ∨ fails then refuse s job
  else
    match Serialized.admission job.entry.policy (serializedDomainBusy s job.domain) with
    | .accepted => queueJob (supersede s job) job
    | .busy => { s with replies := s.replies ++ [(job, "serialization domain is busy")] }
    | .stopping => refuse s job

def enqueueWorkerJob (s : State) (job : Job) (fails : Bool) : State :=
  if s.workersStopping ∨ fails then refuse s job
  else { s with pendingJobs := s.pendingJobs ++ [job] }

/-- `dispatch_request` queues a regular job for the pool; `serve_fixed_request` runs it on the worker that
has read it. -/
def dispatch (s : State) (job : Job) (fails : Bool) : State :=
  if job.handler.serialized then enqueueSerializedJob s job fails
  else if job.path = .reactor then enqueueWorkerJob s job fails
  else { s with taken := s.taken ++ [job] }

def observed (s : State) (job : Job) : Context :=
  { job.context with closing := s.closing.contains job.connection, running := s.running }

def execution (s : State) (job : Job) (now elapsed : Nat) : Outcome :=
  let current := { server with serialized := { server.serialized with running := s.running } }
  if job.handler.serialized = false ∧ job.path = .continuation then
    serveFixedRequest current job.request (observed s job) now elapsed .executed
  else executeJob current job.request (observed s job) now elapsed job.handler

def numbered (id : Nat) (job : Job) : Bool := job.id == id

def takeFrom (runnable : Job → Bool) (queue : List Job) (id : Nat) : Option (Job × List Job) :=
  (pull runnable queue).filter fun found => numbered id found.1

def idleDomain (s : State) (job : Job) : Bool := !serializedDomainActive s job.domain

def replyTo (id : Nat) (reply : Job × String) : Bool := numbered id reply.1

def refusal (message : String) : Outcome := writeErrorResponse server 409 message

def step (s : State) : Event → Option State
  | .arrive arrival fails =>
    if s.closed.contains arrival.connection then none
    else some (dispatch s (arrived server arrival) fails)
  | .take id =>
    (takeFrom (fun _ => true) s.pendingJobs id).map fun found =>
      { s with pendingJobs := found.2, taken := s.taken ++ [found.1] }
  | .takeSerialized id =>
    (takeFrom (idleDomain s) s.pendingSerialized id).map fun found =>
      { s with pendingSerialized := found.2, active := s.active ++ [found.1], taken := s.taken ++ [found.1] }
  | .execute id now elapsed socket =>
    (pull (numbered id) s.taken).map fun found =>
      { s with taken := found.2 }.record server found.1 (execution server s found.1 now elapsed) socket
  | .reply id socket =>
    (pull (replyTo id) s.replies).map fun found =>
      { s with replies := found.2 }.record server found.1.1 (refusal server found.1.2) socket
  | .deactivate id =>
    if s.taken.any (numbered id) then none
    else (pull (numbered id) s.active).map fun found => { s with active := found.2 }
  | .flush connection count =>
    if count ≤ s.queuedOutput connection then
      some (s.setOutput connection (s.queuedOutput connection - count))
    else none
  | .hangUp connection => some { s with closing := s.closing ++ [connection] }
  | .close connection => if s.closing.contains connection then some (s.shut connection) else none
  | .stopRunning => some { s with running := false }
  | .stopWorkers => some { s with workersStopping := true }
  | .stopSerialized => some { s with serializedStopping := true }

def machine : Machine State Event where
  initial s := s = {}
  step := step server

/-- The authorizer returns false for the request, whatever it sees of the connection and the server. -/
def Refused (arrival : Arrival) : Prop :=
  ∃ authorize, server.authorizeRequest = some authorize ∧ ∀ closing running : Bool,
    authorize arrival.request { arrival.context with closing := closing, running := running } = .ok false

def other (x : Nat) (job : Job) : Bool := job.id != x

/-- The state as it would be without the request `x` and its connection `k`. -/
def State.without (x k : Nat) (s : State) : State :=
  { s with
    pendingJobs := s.pendingJobs.filter (other x)
    pendingSerialized := s.pendingSerialized.filter (other x)
    active := s.active.filter (other x)
    taken := s.taken.filter (other x)
    replies := s.replies.filter fun reply => other x reply.1
    output := s.output.filter fun entry => entry.1 != k
    closing := s.closing.filter (· != k)
    closed := s.closed.filter (· != k)
    invoked := s.invoked.filter (· != x)
    answers := s.answers.filter fun answer => answer.1 != x }

/-- The bytes that wait for the connection `k` do not decide whether the response fits the total limit. -/
def fitsAlike (x k : Nat) (s : State) (job : Job) (outcome : Outcome) (socket : Socket) : Bool :=
  (response outcome).all fun answer =>
    written server (s.without x k) job.connection answer socket == written server s job.connection answer socket

/-- The request `x` has the connection `k` to itself; it supersedes no other request; no other request finds
a domain busy with `x` alone; no serialized worker passes over a request that waits only for the domain of
`x`; and no other response is refused for the bytes that wait for `k`. -/
def apart (x k : Nat) (s : State) : Event → Bool
  | .arrive arrival _ =>
    let job := arrived server arrival
    if arrival.id = x then
      arrival.connection == k && !(job.handler.serialized && job.handler.scheduling.policy == .latestWins &&
        s.pendingSerialized.any fun queued => other x queued && replaces job queued)
    else
      arrival.connection != k && !(job.handler.serialized && job.handler.scheduling.policy == .rejectIfBusy &&
        serializedDomainBusy s job.domain && !shares (s.executor.filter (other x)) job.domain)
  | .takeSerialized id =>
    id == x || !s.pendingSerialized.any fun queued =>
      other x queued && shares (s.active.filter (numbered x)) queued.domain
  | .execute id now elapsed socket =>
    id == x || (pull (numbered id) s.taken).all fun found =>
      fitsAlike server x k s found.1 (execution server s found.1 now elapsed) socket
  | .reply id socket =>
    id == x || (pull (replyTo id) s.replies).all fun found =>
      fitsAlike server x k s found.1.1 (refusal server found.1.2) socket
  | _ => true

variable {jobs : List Job} {id : Nat}

section Quiet

variable {server} {s t : State} {job : Job} {event : Event} {now elapsed x : Nat} {request : Request}
  {context : Context} {answer : Response}

theorem invokes_writeFixedResponse (deadline : Option Nat) (clock : Nat) (invocation : Invocation) :
    invokes (writeFixedResponse server deadline clock invocation) = invocation.invoked := by
  unfold writeFixedResponse
  split <;> rfl

theorem invoked_of_forbidden (entry : HandlerEntry) (h : authorizeRequest server request context = some answer) :
    (invokeRequestHandler server request context entry).invoked = false := by
  rw [invokeRequestHandler, h]

theorem executeJob_forbidden (entry : HandlerEntry) (h : authorizeRequest server request context = some answer) :
    invokes (executeJob server request context now elapsed entry) = false := by
  unfold executeJob
  split
  · exact invokes_writeFixedResponse _ _ _
  · split
    · rw [invokes_writeFixedResponse, invoked_of_forbidden entry h]
    · rfl

theorem serveFixedRequest_forbidden (h : authorizeRequest server request context = some answer) :
    invokes (serveFixedRequest server request context now elapsed .executed) = false := by
  unfold serveFixedRequest serveSerialized
  split
  · exact invokes_writeFixedResponse _ _ _
  · rename_i entry _
    split
    · split
      · rfl
      · rfl
      · exact invokes_writeFixedResponse _ _ _
      · exact executeJob_forbidden entry h
    · rw [invokes_writeFixedResponse, invoked_of_forbidden entry h]

theorem execution_refused (h : Refused server job.toArrival) :
    invokes (execution server s job now elapsed) = false := by
  obtain ⟨authorize, hAuthorize, hFalse⟩ := h
  have hForbidden : authorizeRequest { server with serialized := { server.serialized with running := s.running } }
      job.request (observed s job) = some ⟨403, textBytes "Forbidden"⟩ := by
    unfold authorizeRequest
    dsimp only
    rw [hAuthorize]
    dsimp only [observed]
    rw [hFalse]
  unfold execution
  split
  · exact serveFixedRequest_forbidden hForbidden
  · exact executeJob_forbidden _ hForbidden

theorem write_eq (s : State) (job : Job) (answer : Response) (socket : Socket) : ∃ answers closing closed output,
    s.write server job answer socket = { s with answers, closing, closed, output } := by
  unfold State.write
  split
  · exact ⟨_, _, _, _, rfl⟩
  · split <;> exact ⟨_, _, _, _, rfl⟩

theorem record_eq (server : Server) (s : State) (job : Job) (outcome : Outcome) (socket : Socket) :
    ∃ answers closing closed output, s.record server job outcome socket =
      { s with
        invoked := s.invoked ++ if invokes outcome then [job.id] else []
        answers, closing, closed, output } := by
  unfold State.record
  dsimp only
  split
  · exact ⟨_, _, _, _, rfl⟩
  · exact write_eq _ job _ socket

section

variable (server : Server) (s : State)

/-- What a step can do; `supersede` is left as it is. -/
inductive Stepped : Event → State → Prop
  | refused (arrival fails) : Stepped (.arrive arrival fails) (refuse s (arrived server arrival))
  | busy (arrival fails message) :
      Stepped (.arrive arrival fails) { s with replies := s.replies ++ [(arrived server arrival, message)] }
  | pooled (arrival fails) :
      Stepped (.arrive arrival fails) { s with pendingJobs := s.pendingJobs ++ [arrived server arrival] }
  | held (arrival fails) : Stepped (.arrive arrival fails) { s with taken := s.taken ++ [arrived server arrival] }
  | queued (arrival fails) : (arrived server arrival).handler.serialized = true →
      Stepped (.arrive arrival fails) (queueJob (supersede s (arrived server arrival)) (arrived server arrival))
  | took (id job rest) : pull (fun _ => true) s.pendingJobs = some (job, rest) → job.id = id →
      Stepped (.take id) { s with pendingJobs := rest, taken := s.taken ++ [job] }
  | tookSerialized (id job rest) : pull (idleDomain s) s.pendingSerialized = some (job, rest) → job.id = id →
      Stepped (.takeSerialized id)
        { s with pendingSerialized := rest, active := s.active ++ [job], taken := s.taken ++ [job] }
  | executed (now elapsed socket job rest) : pull (numbered job.id) s.taken = some (job, rest) →
      Stepped (.execute job.id now elapsed socket)
        ({ s with taken := rest }.record server job (execution server s job now elapsed) socket)
  | replied (socket job message rest) : pull (replyTo job.id) s.replies = some ((job, message), rest) →
      Stepped (.reply job.id socket)
        ({ s with replies := rest }.record server job (refusal server message) socket)
  | deactivated (job rest) : s.taken.any (numbered job.id) = false →
      pull (numbered job.id) s.active = some (job, rest) → Stepped (.deactivate job.id) { s with active := rest }
  | flushed (connection count) : count ≤ s.queuedOutput connection →
      Stepped (.flush connection count) (s.setOutput connection (s.queuedOutput connection - count))
  | hungUp (connection) : Stepped (.hangUp connection) { s with closing := s.closing ++ [connection] }
  | closed (connection) : s.closing.contains connection = true → Stepped (.close connection) (s.shut connection)
  | stoppedRunning : Stepped .stopRunning { s with running := false }
  | stoppedWorkers : Stepped .stopWorkers { s with workersStopping := true }
  | stoppedSerialized : Stepped .stopSerialized { s with serializedStopping := true }

end

theorem dispatch_stepped (s : State) (arrival : Arrival) (fails : Bool) :
    Stepped server s (.arrive arrival fails) (dispatch s (arrived server arrival) fails) := by
  unfold dispatch enqueueSerializedJob enqueueWorkerJob
  split
  · rename_i hSerialized
    split
    · exact .refused _ _
    · split
      · exact .queued _ _ hSerialized
      · exact .busy _ _ _
      · exact .refused _ _
  · split
    · split
      · exact .refused _ _
      · exact .pooled _ _
    · exact .held _ _

theorem id_of_pull {rest : List Job} (h : pull (numbered id) jobs = some (job, rest)) : job.id = id := by
  obtain ⟨_, _, -, -, -, hNumbered⟩ := pull_some h
  exact eq_of_beq hNumbered

theorem step_stepped (h : step server s event = some t) : Stepped server s event t := by
  cases event with
  | arrive arrival fails =>
    obtain ⟨-, hStep⟩ := Option.ite_none_left_eq_some.mp h
    cases hStep
    exact dispatch_stepped s arrival fails
  | take id =>
    obtain ⟨⟨job, rest⟩, hFound, rfl⟩ := Option.map_eq_some_iff.mp h
    obtain ⟨hPull, hId⟩ := Option.filter_eq_some_iff.mp hFound
    exact .took id job rest hPull (eq_of_beq hId)
  | takeSerialized id =>
    obtain ⟨⟨job, rest⟩, hFound, rfl⟩ := Option.map_eq_some_iff.mp h
    obtain ⟨hPull, hId⟩ := Option.filter_eq_some_iff.mp hFound
    exact .tookSerialized id job rest hPull (eq_of_beq hId)
  | execute id now elapsed socket =>
    obtain ⟨⟨job, rest⟩, hPull, rfl⟩ := Option.map_eq_some_iff.mp h
    obtain rfl := id_of_pull hPull
    exact .executed now elapsed socket job rest hPull
  | reply id socket =>
    obtain ⟨⟨⟨job, message⟩, rest⟩, hPull, rfl⟩ := Option.map_eq_some_iff.mp h
    obtain ⟨_, _, -, -, -, hNumbered⟩ := pull_some hPull
    obtain rfl : job.id = id := eq_of_beq hNumbered
    exact .replied socket job message rest hPull
  | deactivate id =>
    obtain ⟨hFree, hStep⟩ := Option.ite_none_left_eq_some.mp h
    obtain ⟨⟨job, rest⟩, hPull, rfl⟩ := Option.map_eq_some_iff.mp hStep
    obtain rfl := id_of_pull hPull
    exact .deactivated job rest (Bool.eq_false_iff.mpr hFree) hPull
  | flush connection count =>
    obtain ⟨hCount, hStep⟩ := Option.ite_none_right_eq_some.mp h
    cases hStep
    exact .flushed connection count hCount
  | hangUp connection =>
    cases h
    exact .hungUp connection
  | close connection =>
    obtain ⟨hClosing, hStep⟩ := Option.ite_none_right_eq_some.mp h
    cases hStep
    exact .closed connection hClosing
  | stopRunning =>
    cases h
    exact .stoppedRunning
  | stopWorkers =>
    cases h
    exact .stoppedWorkers
  | stopSerialized =>
    cases h
    exact .stoppedSerialized

def State.waiting (s : State) : List Job :=
  s.pendingJobs ++ s.pendingSerialized ++ s.taken ++ s.replies.map Prod.fst

theorem supersede_filter (s : State) (incoming : Job) : supersede s incoming =
    { s with
      pendingSerialized := s.pendingSerialized.filter fun queued =>
        !(decide (incoming.entry.policy = .latestWins) && replaces incoming queued)
      replies := s.replies ++ (s.pendingSerialized.filter fun queued =>
        decide (incoming.entry.policy = .latestWins) && replaces incoming queued).map fun job =>
          (job, "superseded by a newer request") } := by
  rw [supersede, Serialized.superseding_eq]

theorem stepped_waiting (h : Stepped server s event t) (hJob : job ∈ t.waiting) :
    job ∈ s.waiting ∨ ∃ arrival fails, event = .arrive arrival fails ∧ job = arrived server arrival := by
  simp only [State.waiting, List.mem_append] at hJob ⊢
  cases h with
  | queued arrival fails =>
    rw [queueJob, supersede_filter] at hJob
    simp only [List.mem_append, List.mem_filter, List.map_append, List.map_map, List.mem_map] at hJob
    grind
  | took id found rest hPull | tookSerialized id found rest hPull => grind [mem_of_pull hPull]
  | executed now elapsed socket found rest hPull =>
    obtain ⟨_, _, _, _, hEq⟩ :=
      record_eq server { s with taken := rest } found (execution server s found now elapsed) socket
    rw [hEq] at hJob
    grind [mem_of_pull hPull]
  | replied socket found message rest hPull =>
    obtain ⟨_, _, _, _, hEq⟩ :=
      record_eq server { s with replies := rest } found (refusal server message) socket
    rw [hEq] at hJob
    grind [mem_of_pull hPull]
  | busy | pooled | held => grind
  | _ => exact .inl hJob

theorem stepped_invoked (h : Stepped server s event t) (hMem : x ∈ t.invoked) :
    x ∈ s.invoked ∨ ∃ job ∈ s.waiting, job.id = x ∧
      ∃ now elapsed, invokes (execution server s job now elapsed) = true := by
  cases h with
  | executed now elapsed socket found rest hPull =>
    obtain ⟨_, _, _, _, hEq⟩ :=
      record_eq server { s with taken := rest } found (execution server s found now elapsed) socket
    rw [hEq] at hMem
    obtain hOld | hNew := List.mem_append.mp hMem
    · exact .inl hOld
    · split at hNew
      · rename_i hInvokes
        refine .inr ⟨found, ?_, (List.mem_singleton.mp hNew).symm, now, elapsed, hInvokes⟩
        simp [State.waiting, (mem_of_pull hPull).1]
      · cases hNew
  | replied socket found message rest hPull =>
    obtain ⟨_, _, _, _, hEq⟩ :=
      record_eq server { s with replies := rest } found (refusal server message) socket
    rw [hEq, refusal, writeErrorResponse, invokes_writeFixedResponse] at hMem
    exact .inl (by simpa using hMem)
  | _ => exact .inl hMem

structure Quiet (server : Server) (x : Nat) (s : State) : Prop where
  refused : ∀ job ∈ s.waiting, job.id = x → Refused server job.toArrival
  silent : x ∉ s.invoked

theorem Quiet.step (hs : Quiet server x s)
    (hArrival : ∀ arrival fails, event = .arrive arrival fails → arrival.id = x → Refused server arrival)
    (h : step server s event = some t) : Quiet server x t := by
  have hStepped := step_stepped h
  refine ⟨?_, ?_⟩
  · intro job hJob hId
    obtain hOld | ⟨arrival, fails, hEvent, rfl⟩ := stepped_waiting hStepped hJob
    · exact hs.refused job hOld hId
    · exact hArrival arrival fails hEvent hId
  · intro hMem
    obtain hOld | ⟨job, hJob, hId, now, elapsed, hInvokes⟩ := stepped_invoked hStepped hMem
    · exact hs.silent hOld
    · rw [execution_refused (hs.refused job hJob hId)] at hInvokes
      cases hInvokes

end Quiet

section View

variable {server} {s t : State} {job : Job} {event : Event} {x k : Nat}
variable {connection : Nat} {domain : String}

theorem shares_of_filter {keep : Job → Bool} (h : shares (jobs.filter keep) domain = true) :
    shares jobs domain = true := by
  obtain ⟨job, hJob, hDomain⟩ := List.any_eq_true.mp h
  exact List.any_eq_true.mpr ⟨job, (List.mem_filter.mp hJob).1, hDomain⟩

theorem executor_without : (s.without x k).executor = s.executor.filter (other x) := by
  unfold State.executor State.without
  rw [List.filter_append]

def Owned (x k : Nat) (s : State) : Prop := ∀ job ∈ s.waiting, job.id = x ↔ job.connection = k

section Apart

variable {arrival : Arrival} {fails : Bool} {id now elapsed : Nat} {socket : Socket} {rest : List Job}
  {message : String} {others : List (Job × String)}

theorem apart_own (h : apart server x k s (.arrive arrival fails) = true) (hId : arrival.id = x) :
    arrival.connection = k ∧ ((arrived server arrival).handler.serialized = true →
      (arrived server arrival).handler.scheduling.policy = .latestWins →
      ∀ queued ∈ (s.without x k).pendingSerialized, replaces (arrived server arrival) queued = false) := by
  simp only [apart, if_pos hId, Bool.and_eq_true, beq_iff_eq] at h
  refine ⟨h.1, fun hSerialized hPolicy queued hQueued => ?_⟩
  obtain ⟨hMem, hOther⟩ := List.mem_filter.mp hQueued
  have hNone := h.2
  rw [hSerialized, hPolicy, beq_self_eq_true, Bool.true_and, Bool.true_and, Bool.not_eq_true',
    List.any_eq_false] at hNone
  simpa [hOther] using hNone queued hMem

theorem apart_other (h : apart server x k s (.arrive arrival fails) = true) (hId : arrival.id ≠ x) :
    arrival.connection ≠ k ∧ ((arrived server arrival).handler.serialized = true →
      (arrived server arrival).handler.scheduling.policy = .rejectIfBusy →
      serializedDomainBusy (s.without x k) (arrived server arrival).domain =
        serializedDomainBusy s (arrived server arrival).domain) := by
  simp only [apart, if_neg hId, Bool.and_eq_true, bne_iff_ne] at h
  refine ⟨h.1, fun hSerialized hPolicy => ?_⟩
  have hBusy := h.2
  rw [hSerialized, hPolicy, beq_self_eq_true, Bool.true_and, Bool.true_and] at hBusy
  rw [serializedDomainBusy, executor_without, Bool.eq_iff_iff]
  refine ⟨shares_of_filter, fun hWhole => ?_⟩
  simpa [hWhole] using hBusy

end Apart

theorem Owned.step (hs : Owned x k s) (hApart : apart server x k s event = true)
    (h : step server s event = some t) : Owned x k t := by
  intro job hJob
  obtain hOld | ⟨arrival, fails, rfl, rfl⟩ := stepped_waiting (step_stepped h) hJob
  · exact hs job hOld
  · refine ⟨fun hId => (apart_own hApart hId).1, fun hConnection => ?_⟩
    by_contra hId
    exact (apart_other hApart hId).1 hConnection

end View

def guarded : Server where
  output := ⟨64, 1024, 0, false⟩
  registry := ⟨[([97], ⟨.simple fun _ => .ok ⟨200, [1]⟩, true, ⟨"a", .latestWins⟩, false⟩)], []⟩
  authorizeRequest := some fun _ context => .ok (context.peer == 0)
  serialized := Serialized.idleExecutor

def ready : Socket := ⟨some 64, true⟩

end EasyUds.Reactor.Authorization

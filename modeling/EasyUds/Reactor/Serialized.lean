import EasyUds.Lib.Machine
import EasyUds.Lib.Registry

/-! # The serialized executor

`enqueue_serialized_job` and any number of `serialized_worker_loop` threads. A section under
`serialized_mutex` is one step. The workers stand in the order in which they were started;
`serialized_worker_count` is their number. The default domain is the entry of the empty name.

An admission may be interrupted: starting a thread may fail, memory may run out before the job is
queued, and `stop` may clear `running` between two of its tests. What a finished or superseded job
writes to its connection, and the connection's own counters, are left to other modules.

`accepted`, `started`, `superseded` and `consumed` are a history; the ticket of a job is its number
among the accepted jobs.
-/

namespace EasyUds.Reactor.Serialized

open Lib

structure Options where
  maxSerializedConcurrency : Nat
  positive : 1 ≤ maxSerializedConcurrency

inductive QueuePolicy
  | fifo
  | latestWins
  | rejectIfBusy
  deriving DecidableEq, Repr

/-- A maintenance job has no connection and stands in the default domain. -/
structure Job where
  ticket : Nat
  connection : Option Nat
  domain : String
  policy : QueuePolicy
  route : List UInt8
  deadline : Option Nat
  deriving DecidableEq, Repr

structure DomainActivity where
  active : Bool
  queued : Nat
  deriving DecidableEq, Repr

inductive Outcome
  | ran
  | timedOut
  | skipped
  deriving DecidableEq, Repr

/-- The next step of a worker. From `took` to `deactivating` it holds the domain of its job. -/
inductive Worker
  | waiting
  | took (job : Job)
  | checked (job : Job)
  | invoking (job : Job)
  | deactivating (job : Job)
  | exited
  deriving DecidableEq, Repr

structure State where
  running : Bool
  serializedStopping : Bool
  pendingSerialized : List Job
  domainActivity : List (String × DomainActivity)
  activeSerializedDomainCount : Nat
  busySerializedDomainCount : Nat
  serializedThreads : List Worker
  accepted : List Job
  started : List Job
  superseded : List Job
  consumed : List (Job × Outcome)
  deriving DecidableEq, Repr

inductive Interruption
  | none
  | threadFailure (created : Nat)
  | memory
  | stopped
  deriving DecidableEq, Repr

inductive Action
  | enqueue (job : Job) (interruption : Interruption)
  | worker (index : Nat) (now : Nat)
  | startRunning
  | stopRunning
  | stopSerialized
  deriving DecidableEq, Repr

def idle : DomainActivity where
  active := false
  queued := 0

def DomainActivity.busy (activity : DomainActivity) : Bool := activity.active || activity.queued != 0

def serializedDomainActivity (s : State) (domain : String) : DomainActivity :=
  Registry.read idle s.domainActivity domain

def setActivity (s : State) (domain : String) (f : DomainActivity → DomainActivity) : State :=
  { s with domainActivity := Registry.change idle domain f s.domainActivity }

def serializedDomainActive (s : State) (domain : String) : Bool := (serializedDomainActivity s domain).active

def serializedDomainBusy (s : State) (domain : String) : Bool := (serializedDomainActivity s domain).busy

def activateSerializedDomain (s : State) (domain : String) : State :=
  { setActivity s domain fun activity => { activity with active := true } with
    activeSerializedDomainCount := s.activeSerializedDomainCount + 1 }

def deactivateSerializedDomain (s : State) (domain : String) : State :=
  let activity := serializedDomainActivity s domain
  if activity.active then
    { setActivity s domain fun activity => { activity with active := false } with
      activeSerializedDomainCount := s.activeSerializedDomainCount - 1
      busySerializedDomainCount :=
        if activity.queued = 0 then s.busySerializedDomainCount - 1 else s.busySerializedDomainCount }
  else s

def nextRunnable (s : State) : List Job → Option (Job × List Job)
  | [] => none
  | job :: rest =>
    if serializedDomainActive s job.domain then
      (nextRunnable s rest).map fun found => (found.1, job :: found.2)
    else some (job, rest)

def desiredSerializedWorkerCount (opts : Options) (s : State) (incomingDomain : String) : Nat :=
  let demand := if serializedDomainBusy s incomingDomain then s.busySerializedDomainCount
    else s.busySerializedDomainCount + 1
  max s.serializedThreads.length (min demand opts.maxSerializedConcurrency)

def missingWorkers (opts : Options) (s : State) (domain : String) : Nat :=
  min (desiredSerializedWorkerCount opts s domain) opts.maxSerializedConcurrency - s.serializedThreads.length

def startWorkers (s : State) (count : Nat) : State :=
  { s with serializedThreads := s.serializedThreads ++ List.replicate count .waiting }

def replaces (incoming queued : Job) : Bool :=
  queued.domain == incoming.domain && queued.connection.isSome && queued.route == incoming.route

/-- The loop over the queue: what stays, and what an incoming job supersedes. -/
def superseding {α : Type} (policy : QueuePolicy) (replaced : α → Bool) (queue : List α) : List α × List α :=
  if policy = .latestWins then queue.partition fun queued => !replaced queued else (queue, [])

inductive SerializedAdmission
  | accepted
  | busy
  | stopping
  deriving DecidableEq, Repr

def admission (policy : QueuePolicy) (domainBusy : Bool) : SerializedAdmission :=
  if policy = .rejectIfBusy ∧ domainBusy = true then .busy else .accepted

theorem superseding_eq {α : Type} (policy : QueuePolicy) (replaced : α → Bool) (queue : List α) :
    superseding policy replaced queue =
      (queue.filter fun queued => !(decide (policy = .latestWins) && replaced queued),
        queue.filter fun queued => decide (policy = .latestWins) && replaced queued) := by
  unfold superseding
  split
  · rename_i hPolicy
    simp [hPolicy, List.partition_eq_filter_filter, Function.comp_def]
  · rename_i hPolicy
    simp [hPolicy]

def queueJob (s : State) (job : Job) : State :=
  let split := superseding job.policy (replaces job) s.pendingSerialized
  { setActivity s job.domain fun activity =>
      { activity with queued := activity.queued + 1 - split.2.length } with
    pendingSerialized := split.1 ++ [job]
    busySerializedDomainCount :=
      if serializedDomainBusy s job.domain then s.busySerializedDomainCount
      else s.busySerializedDomainCount + 1
    accepted := s.accepted ++ [job]
    superseded := s.superseded ++ split.2 }

def enqueueSerializedJob (opts : Options) (s : State) (job : Job) (interruption : Interruption) :
    Option State :=
  if s.serializedStopping ∨ s.running = false then some s
  else
    let known := setActivity s job.domain id
    let missing := missingWorkers opts known job.domain
    match interruption with
    | .threadFailure created => if created < missing then some (startWorkers known created) else none
    | .stopped => some { startWorkers known missing with running := false }
    | .memory => some (startWorkers known missing)
    | .none =>
      let supplied := startWorkers known missing
      if job.policy = .rejectIfBusy ∧ serializedDomainBusy supplied job.domain = true then some supplied
      else some (queueJob supplied { job with ticket := s.accepted.length })

def setWorker (s : State) (index : Nat) (worker : Worker) : State :=
  { s with serializedThreads := s.serializedThreads.set index worker }

def consume (s : State) (index : Nat) (job : Job) (outcome : Outcome) : State :=
  setWorker { s with consumed := s.consumed ++ [(job, outcome)] } index (.deactivating job)

def takeJob (s : State) (index : Nat) (job : Job) (rest : List Job) : State :=
  let dequeued := setActivity s job.domain fun activity => { activity with queued := activity.queued - 1 }
  setWorker { activateSerializedDomain dequeued job.domain with
    pendingSerialized := rest
    started := s.started ++ [job] } index (.took job)

def expired (deadline : Option Nat) (now : Nat) : Bool :=
  match deadline with
  | none => false
  | some limit => limit ≤ now

def serializedWorkerLoop (s : State) (index : Nat) (now : Nat) : Worker → Option State
  | .waiting =>
    match nextRunnable s s.pendingSerialized with
    | some (job, rest) => some (takeJob s index job rest)
    | none => if s.serializedStopping then some (setWorker s index .exited) else none
  | .took job =>
    if job.connection.isNone then some (consume s index job .ran)
    else if expired job.deadline now then some (consume s index job .timedOut)
    else some (setWorker s index (.checked job))
  | .checked job =>
    if s.running then some (setWorker s index (.invoking job)) else some (consume s index job .skipped)
  | .invoking job => some (consume s index job .ran)
  | .deactivating job => some (setWorker (deactivateSerializedDomain s job.domain) index .waiting)
  | .exited => none

def step (opts : Options) (s : State) : Action → Option State
  | .enqueue job interruption => enqueueSerializedJob opts s job interruption
  | .worker index now =>
    match s.serializedThreads[index]? with
    | none => none
    | some worker => serializedWorkerLoop s index now worker
  | .startRunning => some { s with running := true }
  | .stopRunning => some { s with running := false }
  | .stopSerialized => some { s with serializedStopping := true }

structure Initial (s : State) : Prop where
  serializedStopping : s.serializedStopping = false
  pendingSerialized : s.pendingSerialized = []
  domainActivity : s.domainActivity = [("", idle)]
  activeCount : s.activeSerializedDomainCount = 0
  busyCount : s.busySerializedDomainCount = 0
  serializedThreads : s.serializedThreads = []
  accepted : s.accepted = []
  started : s.started = []
  superseded : s.superseded = []
  consumed : s.consumed = []

def machine (opts : Options) : Machine State Action where
  initial := Initial
  step := step opts

def twoDomains : Options where
  maxSerializedConcurrency := 2
  positive := by decide

def idleExecutor : State where
  running := true
  serializedStopping := false
  pendingSerialized := []
  domainActivity := [("", idle)]
  activeSerializedDomainCount := 0
  busySerializedDomainCount := 0
  serializedThreads := []
  accepted := []
  started := []
  superseded := []
  consumed := []

theorem idleExecutor_initial : Initial idleExecutor := ⟨rfl, rfl, rfl, rfl, rfl, rfl, rfl, rfl, rfl, rfl⟩

end EasyUds.Reactor.Serialized

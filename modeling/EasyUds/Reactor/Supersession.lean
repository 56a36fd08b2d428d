import Mathlib.Data.UInt
import EasyUds.Reactor.Serialized

/-! # Admission under `latest_wins`

`enqueue_serialized_job` with everything that it does to the connections: the loop that takes replaced
jobs out of the queue by index, and `finish_superseded_job` for each of them after the section. A write
that throws is a choice of the environment.
-/

namespace EasyUds.Reactor.Supersession

open Reactor.Serialized (Job QueuePolicy DomainActivity SerializedAdmission admission)

structure SerializedJob extends Job where
  requestId : UInt32
  requestBytes : UInt64
  deriving DecidableEq, Repr

structure Connection where
  pendingSerialized : UInt64 := 0
  inflightRequests : UInt64 := 0
  inflightRequestBytes : UInt64 := 0
  closing : Bool := false
  deriving DecidableEq, Repr

/-- A call of `write_error_response`. -/
structure Answer where
  connection : Nat
  requestId : UInt32
  status : Nat
  body : String
  deriving DecidableEq, Repr

structure State where
  running : Bool
  serializedStopping : Bool
  maxMessageSize : Nat
  pendingSerialized : List SerializedJob
  domainActivity : String → DomainActivity
  busySerializedDomainCount : Nat
  connections : Nat → Connection
  totalInflightRequestBytes : UInt64
  answers : List Answer
  supersededRequests : Nat

def statusConflict : Nat := 409

def boundedErrorBody (message : String) (maxMessageSize : Nat) : String :=
  if message.utf8ByteSize ≤ maxMessageSize then message else ""

def State.update (s : State) (c : Nat) (f : Connection → Connection) : State :=
  { s with connections := fun k => if k = c then f (s.connections k) else s.connections k }

def replaced (domain : String) (queue : List SerializedJob) (queued : SerializedJob) : Bool :=
  queued.domain == domain && queued.connection.isSome &&
    (queue.getLast?.map fun back => back.route) == some queued.route

def supersedeLoop (domain : String) (index : Nat) (queue superseded : List SerializedJob) (queued : Nat) :
    List SerializedJob × List SerializedJob × Nat :=
  if h : index + 1 < queue.length then
    if replaced domain queue queue[index] then
      supersedeLoop domain index (queue.eraseIdx index) (superseded ++ [queue[index]]) (queued - 1)
    else supersedeLoop domain (index + 1) queue superseded queued
  else (queue, superseded, queued)
termination_by queue.length - index
decreasing_by
  · have hErase := List.length_eraseIdx_add_one (l := queue) (i := index) (by omega)
    omega
  · omega

def account (s : State) (job : SerializedJob) (accountRequest requestBytesReserved : Bool) : State :=
  match job.connection with
  | none => s
  | some c =>
    let pending := s.update c fun k => { k with pendingSerialized := k.pendingSerialized + 1 }
    if accountRequest then
      if requestBytesReserved then
        pending.update c fun k => { k with inflightRequests := k.inflightRequests + 1 }
      else
        { pending.update c fun k =>
            { k with
              inflightRequests := k.inflightRequests + 1
              inflightRequestBytes := k.inflightRequestBytes + job.requestBytes } with
          totalInflightRequestBytes := s.totalInflightRequestBytes + job.requestBytes }
    else pending

/-- From `push_back` to the end of the section: the state and the superseded jobs. -/
def queueJob (s : State) (job : SerializedJob) (accountRequest requestBytesReserved : Bool) :
    State × List SerializedJob :=
  let activity := s.domainActivity job.domain
  let queue := s.pendingSerialized ++ [job]
  let (pending, superseded, queued) :=
    if job.policy = .latestWins then supersedeLoop job.domain 0 queue [] (activity.queued + 1)
    else (queue, [], activity.queued + 1)
  let changed :=
    { s with
      pendingSerialized := pending
      busySerializedDomainCount :=
        if activity.active = false ∧ activity.queued = 0 then s.busySerializedDomainCount + 1
        else s.busySerializedDomainCount
      domainActivity := fun domain =>
        if domain = job.domain then { activity with queued } else s.domainActivity domain }
  match pending.getLast? with
  | some admitted => (account changed admitted accountRequest requestBytesReserved, superseded)
  | none => (changed, superseded)

def releaseConnectionRequest (s : State) (c : Nat) (requestBytes : UInt64) : State :=
  { s.update c fun k =>
      { k with
        inflightRequestBytes := k.inflightRequestBytes - requestBytes
        inflightRequests := k.inflightRequests - 1 } with
    totalInflightRequestBytes := s.totalInflightRequestBytes - requestBytes }

/-- The jobs that the loop supersedes have a connection. -/
def finishSupersededJob (s : State) (job : SerializedJob) (writeThrows : Bool) : State :=
  match job.connection with
  | none => s
  | some c =>
    let written :=
      { s.update c fun k => { k with closing := k.closing || writeThrows } with
        supersededRequests := s.supersededRequests + 1
        answers := s.answers ++
          [Answer.mk c job.requestId statusConflict
            (boundedErrorBody "superseded by a newer request" s.maxMessageSize)] }
    releaseConnectionRequest
      (written.update c fun k => { k with pendingSerialized := k.pendingSerialized - 1 }) c job.requestBytes

/-- `writes` tells which of the calls throw. -/
def finishAll (s : State) (writes : Nat → Bool) : List SerializedJob → State
  | [] => s
  | job :: rest => finishAll (finishSupersededJob s job (writes 0)) (fun n => writes (n + 1)) rest

/-- `workers` is the result of `ensure_serialized_worker_count`. -/
def enqueueSerializedJob (s : State) (job : SerializedJob) (accountRequest requestBytesReserved workers : Bool)
    (writes : Nat → Bool) : SerializedAdmission × State :=
  if s.serializedStopping ∨ s.running = false then (.stopping, s)
  else if workers = false then (.stopping, s)
  else
    match admission job.policy (s.domainActivity job.domain).busy with
    | .accepted =>
      let (queued, superseded) := queueJob s job accountRequest requestBytesReserved
      (.accepted, finishAll queued writes superseded)
    | refused => (refused, s)

def replaces (incoming queued : SerializedJob) : Bool := Serialized.replaces incoming.toJob queued.toJob

theorem replaced_back (front : List SerializedJob) (incoming queued : SerializedJob) :
    replaced incoming.domain (front ++ [incoming]) queued = replaces incoming queued := by
  have hRoute : (some incoming.route == some queued.route) = (queued.route == incoming.route) := by
    rw [Bool.eq_iff_iff, beq_iff_eq, beq_iff_eq, Option.some.injEq]
    exact eq_comm
  rw [replaced, replaces, Serialized.replaces, List.getLast?_concat, Option.map_some, hRoute]

theorem supersedeLoop_eq (incoming : SerializedJob) (rest front superseded : List SerializedJob) (queued : Nat) :
    supersedeLoop incoming.domain front.length (front ++ (rest ++ [incoming])) superseded queued =
      (front ++ (rest.filter (fun job => !replaces incoming job) ++ [incoming]),
        superseded ++ rest.filter (replaces incoming), queued - (rest.filter (replaces incoming)).length) := by
  induction rest generalizing front superseded queued with
  | nil =>
    rw [supersedeLoop, dif_neg (by simp)]
    simp
  | cons job rest ih =>
    have hIndex : front.length + 1 < (front ++ (job :: rest ++ [incoming])).length := by simp
    have hJob : (front ++ (job :: rest ++ [incoming]))[front.length] = job := by simp
    have hBack : front ++ (job :: rest ++ [incoming]) = (front ++ job :: rest) ++ [incoming] := by simp
    rw [supersedeLoop, dif_pos hIndex, hJob]
    have hTest : replaced incoming.domain (front ++ (job :: rest ++ [incoming])) job = replaces incoming job := by
      rw [hBack]
      exact replaced_back _ incoming job
    rw [hTest]
    cases hReplaces : replaces incoming job with
    | true =>
      have hErase : (front ++ (job :: rest ++ [incoming])).eraseIdx front.length = front ++ (rest ++ [incoming]) := by
        rw [List.eraseIdx_append_of_length_le (Nat.le_refl _), Nat.sub_self]
        rfl
      rw [if_pos rfl, hErase, ih]
      simp only [List.filter_cons, hReplaces, Bool.not_true, Bool.false_eq_true, if_false, if_true, List.append_assoc,
        List.singleton_append, List.length_cons]
      rw [Nat.sub_add_eq, Nat.sub_right_comm]
    | false =>
      have hNext := ih (front ++ [job]) superseded queued
      rw [List.length_append, List.length_singleton, List.append_assoc, List.singleton_append] at hNext
      rw [if_neg Bool.false_ne_true]
      simp only [List.filter_cons, hReplaces, Bool.not_false, Bool.false_eq_true, if_false, if_true]
      simpa using hNext

def ofConnection (k : Nat) (job : SerializedJob) : Bool := job.connection == some k

def conflictAnswer (maxMessageSize : Nat) (job : SerializedJob) : Option Answer :=
  job.connection.map fun c =>
    ⟨c, job.requestId, statusConflict, boundedErrorBody "superseded by a newer request" maxMessageSize⟩

def bytesOf (jobs : List SerializedJob) : UInt64 := (jobs.map SerializedJob.requestBytes).sum

structure Finished (jobs : List SerializedJob) (s t : State) : Prop where
  pendingSerialized : t.pendingSerialized = s.pendingSerialized
  domainActivity : t.domainActivity = s.domainActivity
  maxMessageSize : t.maxMessageSize = s.maxMessageSize
  answers : t.answers = s.answers ++ jobs.filterMap (conflictAnswer s.maxMessageSize)
  pending : ∀ k, (t.connections k).pendingSerialized =
    (s.connections k).pendingSerialized - .ofNat (jobs.countP (ofConnection k))
  requests : ∀ k, (t.connections k).inflightRequests =
    (s.connections k).inflightRequests - .ofNat (jobs.countP (ofConnection k))
  bytes : ∀ k, (t.connections k).inflightRequestBytes =
    (s.connections k).inflightRequestBytes - bytesOf (jobs.filter (ofConnection k))
  total : t.totalInflightRequestBytes = s.totalInflightRequestBytes - bytesOf jobs

theorem finishSupersededJob_finished (s : State) {job : SerializedJob} (hJob : job.connection.isSome = true)
    (writeThrows : Bool) : Finished [job] s (finishSupersededJob s job writeThrows) := by
  obtain ⟨c, hConnection⟩ := Option.isSome_iff_exists.mp hJob
  have hOf (k : Nat) : ofConnection k job = decide (k = c) := by
    rw [ofConnection, hConnection, Bool.eq_iff_iff, beq_iff_eq, Option.some.injEq, decide_eq_true_iff]
    exact eq_comm
  unfold finishSupersededJob
  rw [hConnection]
  refine ⟨rfl, rfl, rfl, ?_, ?_, ?_, ?_, ?_⟩
  · rw [List.filterMap_cons_some (by rw [conflictAnswer, hConnection]; rfl)]
    rfl
  · intro k
    by_cases hSame : k = c
    · simp [releaseConnectionRequest, State.update, hOf, hSame]
    · simp [releaseConnectionRequest, State.update, hOf, hSame]
  · intro k
    by_cases hSame : k = c
    · simp [releaseConnectionRequest, State.update, hOf, hSame]
    · simp [releaseConnectionRequest, State.update, hOf, hSame]
  · intro k
    by_cases hSame : k = c
    · simp [releaseConnectionRequest, State.update, bytesOf, hOf, hSame]
    · simp [releaseConnectionRequest, State.update, bytesOf, hOf, hSame]
  · simp [releaseConnectionRequest, State.update, bytesOf]

theorem Finished.trans {jobs rest : List SerializedJob} {s t r : State} (h : Finished jobs s t)
    (hRest : Finished rest t r) : Finished (jobs ++ rest) s r where
  pendingSerialized := hRest.pendingSerialized.trans h.pendingSerialized
  domainActivity := hRest.domainActivity.trans h.domainActivity
  maxMessageSize := hRest.maxMessageSize.trans h.maxMessageSize
  answers := by rw [hRest.answers, h.answers, h.maxMessageSize, List.filterMap_append, List.append_assoc]
  pending k := by
    rw [hRest.pending, h.pending, List.countP_append, UInt64.ofNat_add]
    grind
  requests k := by
    rw [hRest.requests, h.requests, List.countP_append, UInt64.ofNat_add]
    grind
  bytes k := by
    rw [hRest.bytes, h.bytes, List.filter_append, bytesOf, bytesOf, bytesOf, List.map_append, List.sum_append]
    grind
  total := by
    rw [hRest.total, h.total, bytesOf, bytesOf, bytesOf, List.map_append, List.sum_append]
    grind

theorem finishAll_finished (s : State) (writes : Nat → Bool) (jobs : List SerializedJob)
    (hJobs : ∀ job ∈ jobs, job.connection.isSome = true) : Finished jobs s (finishAll s writes jobs) := by
  induction jobs generalizing s writes with
  | nil =>
    refine ⟨rfl, rfl, rfl, ?_, ?_, ?_, ?_, ?_⟩ <;> simp [finishAll, bytesOf]
  | cons job rest ih =>
    have hFirst := finishSupersededJob_finished s (hJobs job List.mem_cons_self) (writes 0)
    exact hFirst.trans (ih _ _ fun other hOther => hJobs other (List.mem_cons_of_mem _ hOther))

def share (job : SerializedJob) (k : Nat) (counted : Bool) : UInt64 := if counted && ofConnection k job then 1 else 0

theorem account_facts (s : State) (job : SerializedJob) (accountRequest reserved : Bool) :
    (account s job accountRequest reserved).pendingSerialized = s.pendingSerialized ∧
    (account s job accountRequest reserved).domainActivity = s.domainActivity ∧
    (account s job accountRequest reserved).maxMessageSize = s.maxMessageSize ∧
    (account s job accountRequest reserved).answers = s.answers ∧
    (∀ k, ((account s job accountRequest reserved).connections k).pendingSerialized =
      (s.connections k).pendingSerialized + share job k true) ∧
    (∀ k, ((account s job accountRequest reserved).connections k).inflightRequests =
      (s.connections k).inflightRequests + share job k accountRequest) ∧
    (∀ k, ((account s job accountRequest reserved).connections k).inflightRequestBytes =
      (s.connections k).inflightRequestBytes + share job k (accountRequest && !reserved) * job.requestBytes) ∧
    (account s job accountRequest reserved).totalInflightRequestBytes = s.totalInflightRequestBytes +
      if accountRequest && !reserved && job.connection.isSome then job.requestBytes else 0 := by
  unfold account
  cases hConnection : job.connection with
  | none => simp [share, ofConnection, hConnection]
  | some c =>
    have hOf (k : Nat) : ofConnection k job = decide (k = c) := by
      rw [ofConnection, hConnection, Bool.eq_iff_iff, beq_iff_eq, Option.some.injEq, decide_eq_true_iff]
      exact eq_comm
    cases accountRequest with
    | false =>
      refine ⟨rfl, rfl, rfl, rfl, fun k => ?_, fun k => ?_, fun k => ?_, ?_⟩
      · by_cases hSame : k = c <;> simp [State.update, share, hOf, hSame]
      · by_cases hSame : k = c <;> simp [State.update, share, hSame]
      · by_cases hSame : k = c <;> simp [State.update, share, hSame]
      · simp [State.update]
    | true =>
      cases reserved with
      | false =>
        refine ⟨rfl, rfl, rfl, rfl, fun k => ?_, fun k => ?_, fun k => ?_, ?_⟩
        · by_cases hSame : k = c <;> simp [State.update, share, hOf, hSame]
        · by_cases hSame : k = c <;> simp [State.update, share, hOf, hSame]
        · by_cases hSame : k = c <;> simp [State.update, share, hOf, hSame]
        · simp
      | true =>
        refine ⟨rfl, rfl, rfl, rfl, fun k => ?_, fun k => ?_, fun k => ?_, ?_⟩
        · by_cases hSame : k = c <;> simp [State.update, share, hOf, hSame]
        · by_cases hSame : k = c <;> simp [State.update, share, hOf, hSame]
        · by_cases hSame : k = c <;> simp [State.update, share, hSame]
        · simp [State.update]

def removed (s : State) (job : SerializedJob) : List SerializedJob := s.pendingSerialized.filter (replaces job)

theorem removed_connection {s : State} {job queued : SerializedJob} (h : queued ∈ removed s job) :
    queued.connection.isSome = true := by
  have hReplaces := (List.mem_filter.mp h).2
  rw [replaces, Serialized.replaces, Bool.and_eq_true, Bool.and_eq_true] at hReplaces
  exact hReplaces.1.2

def replacing (s : State) (job : SerializedJob) : State :=
  let activity := s.domainActivity job.domain
  { s with
    pendingSerialized := s.pendingSerialized.filter (fun queued => !replaces job queued) ++ [job]
    busySerializedDomainCount :=
      if activity.active = false ∧ activity.queued = 0 then s.busySerializedDomainCount + 1
      else s.busySerializedDomainCount
    domainActivity := fun domain =>
      if domain = job.domain then { activity with queued := activity.queued + 1 - (removed s job).length }
      else s.domainActivity domain }

theorem queueJob_latestWins (s : State) {job : SerializedJob} (hPolicy : job.policy = .latestWins)
    (accountRequest reserved : Bool) : queueJob s job accountRequest reserved =
      (account (replacing s job) job accountRequest reserved, removed s job) := by
  have hLoop := supersedeLoop_eq job s.pendingSerialized [] [] ((s.domainActivity job.domain).queued + 1)
  rw [List.length_nil, List.nil_append, List.nil_append, List.nil_append] at hLoop
  unfold queueJob
  dsimp only
  rw [if_pos hPolicy, hLoop]
  dsimp only
  rw [List.getLast?_concat]
  rfl

/-- An admitted `latest_wins` job takes the jobs of its domain and route that belong to a connection out of
the queue and stands at its end. Each of them is answered with 409 and released once, whether or not a write
throws; nothing else is touched. -/
theorem latest_wins_replaces (s t : State) (job : SerializedJob) (accountRequest reserved workers : Bool)
    (writes : Nat → Bool) (hPolicy : job.policy = .latestWins)
    (hAdmitted : enqueueSerializedJob s job accountRequest reserved workers writes = (.accepted, t)) :
    t.pendingSerialized = s.pendingSerialized.filter (fun queued => !replaces job queued) ++ [job] ∧
    t.answers = s.answers ++ (removed s job).filterMap (conflictAnswer s.maxMessageSize) ∧
    ((removed s job).filterMap (conflictAnswer s.maxMessageSize)).length = (removed s job).length ∧
    (∀ k, (t.connections k).pendingSerialized = (s.connections k).pendingSerialized + share job k true -
      .ofNat ((removed s job).countP (ofConnection k))) ∧
    (∀ k, (t.connections k).inflightRequests = (s.connections k).inflightRequests + share job k accountRequest -
      .ofNat ((removed s job).countP (ofConnection k))) ∧
    (∀ k, (t.connections k).inflightRequestBytes = (s.connections k).inflightRequestBytes +
      share job k (accountRequest && !reserved) * job.requestBytes -
        bytesOf ((removed s job).filter (ofConnection k))) ∧
    t.totalInflightRequestBytes = s.totalInflightRequestBytes +
      (if accountRequest && !reserved && job.connection.isSome then job.requestBytes else 0) - bytesOf (removed s job) ∧
    (∀ executing, executing ∉ s.pendingSerialized → executing ∉ removed s job) ∧
    (t.domainActivity job.domain).active = (s.domainActivity job.domain).active ∧
    (∀ domain, domain ≠ job.domain → t.domainActivity domain = s.domainActivity domain) := by
  unfold enqueueSerializedJob at hAdmitted
  split at hAdmitted
  · cases hAdmitted
  split at hAdmitted
  · cases hAdmitted
  have hAccepted : admission job.policy (s.domainActivity job.domain).busy = .accepted := by
    rw [admission, hPolicy]
    rfl
  rw [hAccepted] at hAdmitted
  dsimp only at hAdmitted
  rw [queueJob_latestWins s hPolicy] at hAdmitted
  cases hAdmitted
  obtain ⟨hQueue, hActivity, hSize, hAnswers, hPending, hRequests, hBytes, hTotal⟩ :=
    account_facts (replacing s job) job accountRequest reserved
  have hFinished := finishAll_finished (account (replacing s job) job accountRequest reserved) writes (removed s job)
    fun queued hQueued => removed_connection hQueued
  refine ⟨?_, ?_, ?_, ?_, ?_, ?_, ?_, fun _ => mt fun hRemoved => (List.mem_filter.mp hRemoved).1, ?_, ?_⟩
  · rw [hFinished.pendingSerialized, hQueue]
    rfl
  · rw [hFinished.answers, hAnswers, hSize]
    rfl
  · rw [List.filterMap_length_eq_length]
    intro queued hQueued
    rw [conflictAnswer, Option.isSome_map]
    exact removed_connection hQueued
  · intro k
    rw [hFinished.pending, hPending]
    rfl
  · intro k
    rw [hFinished.requests, hRequests]
    rfl
  · intro k
    rw [hFinished.bytes, hBytes]
    rfl
  · rw [hFinished.total, hTotal]
    rfl
  · rw [hFinished.domainActivity, hActivity]
    simp [replacing]
  · intro domain hOther
    rw [hFinished.domainActivity, hActivity]
    simp [replacing, hOther]

/-- The loop by index takes the same jobs out of the queue as the executor's model does. -/
theorem removed_refines (s : State) (job : SerializedJob) (hPolicy : job.policy = .latestWins) :
    Serialized.superseding job.policy (Serialized.replaces job.toJob) (s.pendingSerialized.map SerializedJob.toJob) =
      ((s.pendingSerialized.filter fun queued => !replaces job queued).map SerializedJob.toJob,
        (removed s job).map SerializedJob.toJob) := by
  rw [Serialized.superseding_eq, hPolicy, removed, List.filter_map, List.filter_map]
  rfl

def moveJob (connection : Option Nat) (route : UInt8) (policy : QueuePolicy) (requestId : UInt32) : SerializedJob :=
  ⟨⟨0, connection, "axis", policy, [route], none⟩, requestId, 8⟩

def mixedQueue : State where
  running := true
  serializedStopping := false
  maxMessageSize := 64
  pendingSerialized := [moveJob (some 1) 0 .latestWins 1, moveJob none 0 .fifo 0,
    moveJob (some 1) 1 .latestWins 2, moveJob (some 2) 0 .latestWins 3]
  domainActivity := fun _ => ⟨true, 4⟩
  busySerializedDomainCount := 1
  connections := fun _ => ⟨2, 2, 16, false⟩
  totalInflightRequestBytes := 32
  answers := []
  supersededRequests := 0

theorem latest_wins_replaces_mixed : ∃ t,
    enqueueSerializedJob mixedQueue (moveJob (some 2) 0 .latestWins 5) true false true (fun n => n == 0) =
      (.accepted, t) ∧
    t.pendingSerialized.map SerializedJob.requestId = [0, 2, 5] ∧ t.answers.map Answer.requestId = [1, 3] ∧
    (t.connections 2).pendingSerialized = 2 ∧ (t.connections 1).pendingSerialized = 1 := by
  obtain ⟨hQueue, hAnswers, -, hPending, -⟩ := latest_wins_replaces mixedQueue _
    (moveJob (some 2) 0 .latestWins 5) true false true (fun n => n == 0) rfl rfl
  refine ⟨_, rfl, ?_, ?_, ?_, ?_⟩
  · rw [hQueue]
    decide
  · rw [hAnswers]
    decide
  · rw [hPending]
    decide
  · rw [hPending]
    decide

end EasyUds.Reactor.Supersession

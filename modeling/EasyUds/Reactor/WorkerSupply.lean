import EasyUds.Reactor.SerializedOrder

/-! # The supply of serialized workers

The three counters of the scheduler are exact, and the workers that an admission starts are as many as
the busy domains need, up to the limit. So a runnable job never has to wait for a worker that executes
the job of another domain.
-/

namespace EasyUds.Reactor.WorkerSupply

open Lib Reactor.Serialized Reactor.SerializedOrder

/-- Every domain has one entry, and there are enough workers for the busy domains. -/
structure Supplied (opts : Options) (s : State) : Prop where
  keys : (s.domainActivity.map Prod.fst).Nodup
  supply : min s.busySerializedDomainCount opts.maxSerializedConcurrency ≤ s.serializedThreads.length

section Steps

variable {opts : Options} {s t : State}

theorem Supplied.started (h : Supplied opts s) (domain : String) (count : Nat) :
    Supplied opts (startWorkers (setActivity s domain id) count) where
  keys := Registry.change_nodup h.keys
  supply := by
    rw [startWorkers, List.length_append]
    exact Nat.le_add_right_of_le h.supply

theorem demand_le (opts : Options) (s : State) (domain : String) :
    min (if serializedDomainBusy s domain then s.busySerializedDomainCount else s.busySerializedDomainCount + 1)
        opts.maxSerializedConcurrency ≤ s.serializedThreads.length + missingWorkers opts s domain := by
  unfold missingWorkers desiredSerializedWorkerCount
  dsimp only
  omega

section Step

variable (h : Supplied opts s)
include h

theorem Supplied.admitted {job : Job}
    (hDemand : min (if serializedDomainBusy s job.domain then s.busySerializedDomainCount
      else s.busySerializedDomainCount + 1) opts.maxSerializedConcurrency ≤ s.serializedThreads.length) :
    Supplied opts (queueJob s job) where
  keys := Registry.change_nodup h.keys
  supply := hDemand

theorem Supplied.enqueue {job : Job} {interruption : Interruption}
    (hStep : enqueueSerializedJob opts s job interruption = some t) : Supplied opts t := by
  unfold enqueueSerializedJob at hStep
  split at hStep
  · cases hStep
    exact h
  · dsimp only at hStep
    split at hStep
    · split at hStep <;> cases hStep
      exact h.started _ _
    · cases hStep
      have hStarted := h.started job.domain (missingWorkers opts (setActivity s job.domain id) job.domain)
      exact ⟨hStarted.keys, hStarted.supply⟩
    · cases hStep
      exact h.started _ _
    · split at hStep <;> cases hStep
      · exact h.started _ _
      · refine (h.started _ _).admitted ?_
        rw [startWorkers, List.length_append, List.length_replicate]
        exact demand_le opts (setActivity s job.domain id) job.domain

theorem Supplied.set (index : Nat) (worker : Worker) : Supplied opts (setWorker s index worker) where
  keys := h.keys
  supply := by
    rw [setWorker, List.length_set]
    exact h.supply

theorem Supplied.consumed (index : Nat) (job : Job) (outcome : Outcome) :
    Supplied opts (consume s index job outcome) :=
  Supplied.set (s := { s with consumed := s.consumed ++ [(job, outcome)] }) ⟨h.keys, h.supply⟩ index _

theorem Supplied.took (index : Nat) (job : Job) (rest : List Job) : Supplied opts (takeJob s index job rest) := by
  unfold takeJob
  refine Supplied.set ?_ index _
  exact ⟨Registry.change_nodup (Registry.change_nodup h.keys), h.supply⟩

theorem Supplied.deactivated (index : Nat) (domain : String) :
    Supplied opts (setWorker (deactivateSerializedDomain s domain) index .waiting) := by
  refine Supplied.set ?_ index _
  unfold deactivateSerializedDomain
  dsimp only
  split
  · refine ⟨Registry.change_nodup h.keys, ?_⟩
    have hSupply := h.supply
    dsimp only [setActivity]
    split <;> omega
  · exact h

theorem Supplied.worker {index now : Nat} {worker : Worker} (hStep : serializedWorkerLoop s index now worker = some t) :
    Supplied opts t := by
  cases worker with
  | waiting =>
    rw [serializedWorkerLoop] at hStep
    split at hStep
    · cases hStep
      exact h.took ..
    · split at hStep <;> cases hStep
      exact h.set ..
  | took job =>
    rw [serializedWorkerLoop] at hStep
    split at hStep
    · cases hStep
      exact h.consumed ..
    · split at hStep <;> cases hStep
      · exact h.consumed ..
      · exact h.set ..
  | checked job =>
    rw [serializedWorkerLoop] at hStep
    split at hStep <;> cases hStep
    · exact h.set ..
    · exact h.consumed ..
  | invoking job =>
    cases hStep
    exact h.consumed ..
  | deactivating job =>
    cases hStep
    exact h.deactivated ..
  | exited => cases hStep

theorem Supplied.next {action : Action} (hStep : step opts s action = some t) : Supplied opts t := by
  cases action with
  | enqueue job interruption => exact h.enqueue hStep
  | worker index now =>
    rw [step] at hStep
    split at hStep
    · cases hStep
    · exact h.worker hStep
  | startRunning | stopRunning | stopSerialized =>
    cases hStep
    exact ⟨h.keys, h.supply⟩

end Step

theorem supplied_of_reachable (h : (machine opts).Reachable s) : Supplied opts s := by
  refine h.invariant (I := Supplied opts) (fun s (hInit : Initial s) => ?_) fun _ _ _ _ hInv _ hStep => hInv.next hStep
  refine ⟨?_, ?_⟩
  · rw [hInit.domainActivity]
    exact List.nodup_singleton _
  · rw [hInit.busyCount, Nat.zero_min]
    exact Nat.zero_le _

end Steps

section Domains

variable {opts : Options} {s : State}

def activeDomains (s : State) : Set String := {domain | serializedDomainActive s domain = true}

def busyDomains (s : State) : Set String :=
  {domain | serializedDomainActive s domain = true ∨ ∃ job ∈ s.pendingSerialized, job.domain = domain}

theorem queuedIn_ne_zero {domain : String} {queue : List Job} :
    queuedIn domain queue ≠ 0 ↔ ∃ job ∈ queue, job.domain = domain := by
  rw [queuedIn, ← Nat.pos_iff_ne_zero, List.countP_pos_iff]
  simp only [beq_iff_eq]

theorem busy_iff (h : Scheduler opts s) (domain : String) :
    serializedDomainBusy s domain = true ↔ domain ∈ busyDomains s := by
  rw [serializedDomainBusy, DomainActivity.busy, Bool.or_eq_true, bne_iff_ne, h.queued, queuedIn_ne_zero]
  rfl

theorem activeCount_eq (h : Scheduler opts s) (hSupplied : Supplied opts s) :
    s.activeSerializedDomainCount = (activeDomains s).ncard := by
  rw [h.activeCount]
  exact Registry.count_eq_ncard DomainActivity.active rfl hSupplied.keys

theorem busyCount_eq (h : Scheduler opts s) (hSupplied : Supplied opts s) :
    s.busySerializedDomainCount = (busyDomains s).ncard := by
  have hSame : busyDomains s = {domain | (Registry.read idle s.domainActivity domain).busy = true} := by
    ext domain
    exact (busy_iff h domain).symm
  rw [h.busyCount, hSame]
  exact Registry.count_eq_ncard DomainActivity.busy rfl hSupplied.keys

theorem activeDomains_eq (h : Scheduler opts s) :
    activeDomains s = (((executing s.serializedThreads).map Job.domain).toFinset : Set String) := by
  ext domain
  rw [List.coe_toFinset, Set.mem_ofPred_eq, List.mem_map]
  exact h.active domain

theorem executing_length (h : Scheduler opts s) : (executing s.serializedThreads).length = (activeDomains s).ncard := by
  rw [activeDomains_eq h, Set.ncard_coe_finset, List.toFinset_card_of_nodup h.domains, List.length_map]

theorem busyDomains_finite (s : State) (h : Scheduler opts s) : (busyDomains s).Finite := by
  have hBusy : busyDomains s = activeDomains s ∪ ((s.pendingSerialized.map Job.domain).toFinset : Set String) := by
    ext domain
    rw [List.coe_toFinset, Set.mem_union, Set.mem_ofPred_eq, List.mem_map]
    rfl
  rw [hBusy, activeDomains_eq h]
  exact (Finset.finite_toSet _).union (Finset.finite_toSet _)

theorem active_lt_busy (h : Scheduler opts s) {job : Job} (hJob : job ∈ s.pendingSerialized)
    (hIdle : serializedDomainActive s job.domain = false) : (activeDomains s).ncard < (busyDomains s).ncard := by
  refine Set.ncard_lt_ncard ⟨fun domain hActive => .inl hActive, fun hSubset => ?_⟩ (busyDomains_finite s h)
  have hActive : serializedDomainActive s job.domain = true := hSubset (.inr ⟨job, hJob, rfl⟩)
  rw [hIdle] at hActive
  cases hActive

theorem exists_waiting (h : Scheduler opts s) (hOpen : s.serializedStopping = false)
    (hLess : (executing s.serializedThreads).length < s.serializedThreads.length) :
    Worker.waiting ∈ s.serializedThreads := by
  have hFree : ¬ ∀ worker ∈ s.serializedThreads, (heldJob worker).isSome = true := by
    intro hAll
    have hLength := List.filterMap_length_eq_length.mpr hAll
    rw [executing, hLength] at hLess
    exact Nat.lt_irrefl _ hLess
  push Not at hFree
  obtain ⟨worker, hWorker, hNone⟩ := hFree
  cases worker with
  | waiting => exact hWorker
  | took job | checked job | invoking job | deactivating job => exact absurd rfl hNone
  | exited =>
    have hStopping := h.exits hWorker
    rw [hOpen] at hStopping
    cases hStopping

end Domains

/-- In every reachable state the counters are exact and the workers are as many as the busy domains
need, up to the limit; so, as long as the workers are not stopped, a worker waits whenever a job is
runnable and fewer domains than the limit are active. -/
theorem scheduler_bookkeeping (opts : Options) (s : State) (h : (machine opts).Reachable s) :
    (∀ domain, (serializedDomainActivity s domain).queued = queuedIn domain s.pendingSerialized) ∧
    s.activeSerializedDomainCount = (activeDomains s).ncard ∧
    s.busySerializedDomainCount = (busyDomains s).ncard ∧
    min s.busySerializedDomainCount opts.maxSerializedConcurrency ≤ s.serializedThreads.length ∧
    (s.serializedStopping = false → (∃ job ∈ s.pendingSerialized, serializedDomainActive s job.domain = false) →
      s.activeSerializedDomainCount < opts.maxSerializedConcurrency → Worker.waiting ∈ s.serializedThreads) := by
  obtain ⟨hScheduler, -⟩ := inv_of_reachable h
  have hSupplied := supplied_of_reachable h
  have hActive := activeCount_eq hScheduler hSupplied
  have hBusy := busyCount_eq hScheduler hSupplied
  refine ⟨hScheduler.queued, hActive, hBusy, hSupplied.supply, ?_⟩
  rintro hOpen ⟨job, hJob, hIdle⟩ hLimit
  apply exists_waiting hScheduler hOpen
  have hLess := active_lt_busy hScheduler hJob hIdle
  have hSupply := hSupplied.supply
  rw [executing_length hScheduler]
  omega

def jobIn (domain : String) : Job where
  ticket := 0
  connection := some 1
  domain
  policy := .fifo
  route := []
  deadline := none

theorem scheduler_bookkeeping_twoDomains : ∃ s, (machine twoDomains).Reachable s ∧
    s.activeSerializedDomainCount = 1 ∧ s.busySerializedDomainCount = 2 ∧ Worker.waiting ∈ s.serializedThreads := by
  obtain ⟨s, hReached, hActive, hBusy, hOpen, hRunnable⟩ := Machine.exists_reachable_of_exec
    (fun s => s.activeSerializedDomainCount = 1 ∧ s.busySerializedDomainCount = 2 ∧ s.serializedStopping = false ∧
      ∃ job ∈ s.pendingSerialized, serializedDomainActive s job.domain = false)
    [.enqueue (jobIn "arm") .none, .enqueue (jobIn "leg") .none, .worker 0 0]
    (M := machine twoDomains) idleExecutor_initial (by decide)
  have hBook := scheduler_bookkeeping twoDomains s hReached
  refine ⟨s, hReached, hActive, hBusy, hBook.2.2.2.2 hOpen hRunnable ?_⟩
  rw [hActive]
  decide

end EasyUds.Reactor.WorkerSupply

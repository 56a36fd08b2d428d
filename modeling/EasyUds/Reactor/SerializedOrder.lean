import EasyUds.Lib.Pool
import EasyUds.Lib.Queue
import EasyUds.Reactor.Serialized
import Mathlib.Data.List.Perm.Basic

/-! # Order and conservation in the serialized executor

`Scheduler` relates the activity record of every domain to the queue and to the jobs that the workers
hold; `History` relates the queue and the workers to the jobs that were accepted. Both hold in every
reachable state, whatever the interleaving of admissions, workers and `stop`.
-/

namespace EasyUds.Reactor.SerializedOrder

open Lib Reactor.Serialized

def heldJob : Worker → Option Job
  | .took job | .checked job | .invoking job | .deactivating job => some job
  | .waiting | .exited => none

def openJob : Worker → Option Job
  | .took job | .checked job | .invoking job => some job
  | .waiting | .deactivating _ | .exited => none

def executing (workers : List Worker) : List Job := workers.filterMap heldJob

def inProgress (workers : List Worker) : List Job := workers.filterMap openJob

def queuedIn (domain : String) (queue : List Job) : Nat := queue.countP fun job => job.domain == domain

structure Scheduler (opts : Options) (s : State) : Prop where
  threads : s.serializedThreads.length ≤ opts.maxSerializedConcurrency
  queued : ∀ domain, (serializedDomainActivity s domain).queued = queuedIn domain s.pendingSerialized
  active : ∀ domain, serializedDomainActive s domain = true ↔ ∃ job ∈ executing s.serializedThreads,
    job.domain = domain
  domains : ((executing s.serializedThreads).map Job.domain).Nodup
  activeCount : s.activeSerializedDomainCount =
    s.domainActivity.countP fun entry => entry.2.active
  busyCount : s.busySerializedDomainCount = s.domainActivity.countP fun entry => entry.2.busy
  exits : Worker.exited ∈ s.serializedThreads → s.serializedStopping = true
  supply : s.pendingSerialized ≠ [] → ∃ worker ∈ s.serializedThreads, worker ≠ .exited

structure History (s : State) : Prop where
  tickets : s.accepted.map Job.ticket = List.range s.accepted.length
  split : s.accepted.Perm (s.started ++ s.pendingSerialized ++ s.superseded)
  answered : s.started.Perm (inProgress s.serializedThreads ++ s.consumed.map Prod.fst)
  order : ∀ domain, (s.started ++ s.pendingSerialized).filter (fun job => job.domain == domain) =
    (s.accepted.filter fun job => job ∉ s.superseded).filter fun job => job.domain == domain

variable {index : Nat} {job : Job} {rest : List Job} {old : Worker}

section Activity

variable {s : State} {domain : String} {f : DomainActivity → DomainActivity}

@[simp] theorem activity_self :
    serializedDomainActivity (setActivity s domain f) domain = f (serializedDomainActivity s domain) :=
  Registry.read_change_self s.domainActivity

theorem activity_ne {other : String} (hNe : other ≠ domain) :
    serializedDomainActivity (setActivity s domain f) other = serializedDomainActivity s other :=
  Registry.read_change_ne s.domainActivity hNe

theorem activity_id (other : String) :
    serializedDomainActivity (setActivity s domain id) other = serializedDomainActivity s other := by
  by_cases hEq : other = domain
  · subst hEq
    exact activity_self
  · exact activity_ne hEq

theorem activity_count (s : State) (domain : String) (f : DomainActivity → DomainActivity)
    (test : DomainActivity → Bool) (hIdle : test idle = false) :
    (setActivity s domain f).domainActivity.countP (fun entry => test entry.2) +
        (test (serializedDomainActivity s domain)).toNat =
      s.domainActivity.countP (fun entry => test entry.2) +
        (test (f (serializedDomainActivity s domain))).toNat :=
  Registry.count_change test hIdle s.domainActivity

end Activity

section Queue

variable {s : State}

theorem nextRunnable_eq_pull (queue : List Job) :
    nextRunnable s queue = Queue.pull (fun job => !serializedDomainActive s job.domain) queue := by
  induction queue with
  | nil => rfl
  | cons job queue ih =>
    rw [nextRunnable, Queue.pull, ih]
    cases serializedDomainActive s job.domain <;> rfl

theorem nextRunnable_some {queue : List Job} (h : nextRunnable s queue = some (job, rest)) :
    ∃ before after, queue = before ++ job :: after ∧ rest = before ++ after ∧
      (∀ earlier ∈ before, serializedDomainActive s earlier.domain = true) ∧
      serializedDomainActive s job.domain = false := by
  rw [nextRunnable_eq_pull] at h
  simpa only [Bool.not_eq_false', Bool.not_eq_true'] using Queue.pull_some h

theorem nextRunnable_none {queue : List Job} (h : nextRunnable s queue = none) :
    ∀ job ∈ queue, serializedDomainActive s job.domain = true := by
  induction queue with
  | nil => exact fun _ hMem => absurd hMem List.not_mem_nil
  | cons first queue ih =>
    rw [nextRunnable] at h
    split at h
    · rename_i hActive
      intro job hJob
      obtain rfl | hJob := List.mem_cons.mp hJob
      · exact hActive
      · exact ih (Option.map_eq_none_iff.mp h) job hJob
    · cases h

/-- The queued job leaves the queue when `incoming` is admitted. -/
def dropped (incoming queued : Job) : Bool :=
  decide (incoming.policy = .latestWins) && replaces incoming queued

theorem superseding_dropped (incoming : Job) (queue : List Job) :
    superseding incoming.policy (replaces incoming) queue =
      (queue.filter fun job => !dropped incoming job, queue.filter (dropped incoming)) :=
  superseding_eq incoming.policy (replaces incoming) queue

theorem dropped_domain {incoming queued : Job} (h : dropped incoming queued = true) :
    queued.domain = incoming.domain := by
  simp only [dropped, replaces, Bool.and_eq_true, beq_iff_eq] at h
  exact h.2.1.1

theorem queuedIn_append (domain : String) (left right : List Job) :
    queuedIn domain (left ++ right) = queuedIn domain left + queuedIn domain right := List.countP_append

theorem queuedIn_cons (domain : String) (job : Job) (rest : List Job) :
    queuedIn domain (job :: rest) = queuedIn domain rest + (job.domain == domain).toNat := by
  rw [queuedIn, List.countP_cons]
  cases job.domain == domain <;> rfl

theorem queuedIn_split (domain : String) (test : Job → Bool) (queue : List Job) :
    queuedIn domain queue =
      queuedIn domain (queue.filter fun job => !test job) + queuedIn domain (queue.filter test) := by
  rw [Nat.add_comm, ← queuedIn_append]
  exact ((List.filter_append_perm test queue).countP_eq _).symm

theorem queuedIn_dropped (incoming : Job) (queue : List Job) (domain : String) :
    queuedIn domain (queue.filter (dropped incoming)) =
      if domain = incoming.domain then (queue.filter (dropped incoming)).length else 0 := by
  have hDomain : ∀ job ∈ queue.filter (dropped incoming), job.domain = incoming.domain := by
    intro job hJob
    exact dropped_domain (List.mem_filter.mp hJob).2
  split
  · rename_i hEq
    subst hEq
    rw [queuedIn, List.countP_eq_length]
    intro job hJob
    simpa using hDomain job hJob
  · rename_i hNe
    rw [queuedIn, List.countP_eq_zero]
    intro job hJob hEq
    rw [hDomain job hJob, beq_iff_eq] at hEq
    exact hNe hEq.symm

end Queue

section Scheduler

variable {opts : Options} {s : State}

theorem executing_startWorkers (count : Nat) :
    executing (startWorkers s count).serializedThreads = executing s.serializedThreads := by
  rw [executing, startWorkers, List.filterMap_append, List.filterMap_replicate_of_none rfl, List.append_nil]
  rfl

theorem Scheduler.supplied (h : Scheduler opts s) (domain : String) {count : Nat}
    (hCount : s.serializedThreads.length + count ≤ opts.maxSerializedConcurrency) :
    Scheduler opts (startWorkers (setActivity s domain id) count) where
  threads := by
    rw [startWorkers, List.length_append, List.length_replicate]
    exact hCount
  queued other := (congrArg DomainActivity.queued (activity_id other)).trans (h.queued other)
  active other := by
    rw [executing_startWorkers]
    exact (iff_of_eq (congrArg (fun activity => activity.active = true) (activity_id other))).trans
      (h.active other)
  domains := by
    rw [executing_startWorkers]
    exact h.domains
  activeCount := by
    have hSame := activity_count s domain id DomainActivity.active rfl
    exact h.activeCount.trans (Nat.add_right_cancel hSame).symm
  busyCount := by
    have hSame := activity_count s domain id DomainActivity.busy rfl
    exact h.busyCount.trans (Nat.add_right_cancel hSame).symm
  exits hExited := by
    obtain hOld | hNew := List.mem_append.mp hExited
    · exact h.exits hOld
    · exact absurd (List.eq_of_mem_replicate hNew) (by simp)
  supply hQueue := by
    obtain ⟨worker, hWorker, hNe⟩ := h.supply hQueue
    exact ⟨worker, List.mem_append_left _ hWorker, hNe⟩

theorem missingWorkers_le (h : Scheduler opts s) (domain : String) :
    s.serializedThreads.length + missingWorkers opts s domain ≤ opts.maxSerializedConcurrency := by
  have hThreads := h.threads
  unfold missingWorkers
  omega

theorem one_le_workers (h : Scheduler opts s) (domain : String) :
    1 ≤ s.serializedThreads.length + missingWorkers opts s domain := by
  have hPositive := opts.positive
  have hDemand : 1 ≤ (if serializedDomainBusy s domain then s.busySerializedDomainCount
      else s.busySerializedDomainCount + 1) := by
    split
    · rename_i hBusy
      rw [h.busyCount]
      exact Registry.one_le_count DomainActivity.busy rfl hBusy
    · exact Nat.le_add_left _ _
  unfold missingWorkers desiredSerializedWorkerCount
  dsimp only
  omega

theorem queuedIn_queueJob (job : Job) (queue : List Job) (domain : String) :
    queuedIn domain ((queue.filter fun queued => !dropped job queued) ++ [job]) +
        (if domain = job.domain then (queue.filter (dropped job)).length else 0) =
      queuedIn domain queue + (if domain = job.domain then 1 else 0) := by
  have hSplit := queuedIn_split domain (dropped job) queue
  have hDropped := queuedIn_dropped job queue domain
  have hJob : queuedIn domain [job] = if domain = job.domain then 1 else 0 := by
    rw [queuedIn_cons]
    by_cases hEq : domain = job.domain
    · simp [hEq, queuedIn]
    · have hNe : job.domain ≠ domain := Ne.symm hEq
      simp [hEq, hNe, queuedIn]
  rw [queuedIn_append, hJob]
  omega

theorem Scheduler.admitted (h : Scheduler opts s) (job : Job) (hOpen : s.serializedStopping = false)
    (hWorkers : 1 ≤ s.serializedThreads.length) : Scheduler opts (queueJob s job) := by
  have hQueue := queuedIn_queueJob job s.pendingSerialized
  have hSelf := hQueue job.domain
  rw [if_pos rfl, if_pos rfl] at hSelf
  have hOld := h.queued job.domain
  have hActivity : serializedDomainActivity (queueJob s job) job.domain =
      { serializedDomainActivity s job.domain with
        queued := queuedIn job.domain ((s.pendingSerialized.filter fun queued => !dropped job queued) ++ [job]) } := by
    refine activity_self.trans ?_
    rw [superseding_dropped]
    congr 1
    dsimp only
    omega
  have hOther : ∀ {domain : String}, domain ≠ job.domain →
      serializedDomainActivity (queueJob s job) domain = serializedDomainActivity s domain := fun hNe =>
    activity_ne hNe
  constructor
  · exact h.threads
  · intro domain
    change _ = queuedIn domain ((superseding job.policy (replaces job) s.pendingSerialized).1 ++ [job])
    rw [superseding_dropped]
    by_cases hEq : domain = job.domain
    · subst hEq
      rw [hActivity]
    · have hSame := hQueue domain
      rw [if_neg hEq, if_neg hEq] at hSame
      rw [hOther hEq, h.queued]
      exact hSame.symm
  · intro domain
    have hSame : serializedDomainActive (queueJob s job) domain = serializedDomainActive s domain := by
      unfold serializedDomainActive
      by_cases hEq : domain = job.domain
      · subst hEq
        rw [hActivity]
      · rw [hOther hEq]
    rw [hSame]
    exact h.active domain
  · exact h.domains
  · have hCount := activity_count s job.domain
      (fun activity => { activity with
        queued := activity.queued + 1 - (superseding job.policy (replaces job) s.pendingSerialized).2.length })
      DomainActivity.active rfl
    exact h.activeCount.trans (Nat.add_right_cancel hCount).symm
  · have hCount := activity_count s job.domain
      (fun activity => { activity with
        queued := activity.queued + 1 - (superseding job.policy (replaces job) s.pendingSerialized).2.length })
      DomainActivity.busy rfl
    have hQueued : 1 ≤ (serializedDomainActivity s job.domain).queued + 1 -
        (superseding job.policy (replaces job) s.pendingSerialized).2.length := by
      rw [queuedIn_append, queuedIn_cons, beq_self_eq_true] at hSelf
      rw [superseding_dropped]
      dsimp only [Bool.toNat_true] at hSelf ⊢
      omega
    have hBusy : DomainActivity.busy { serializedDomainActivity s job.domain with
        queued := (serializedDomainActivity s job.domain).queued + 1 -
          (superseding job.policy (replaces job) s.pendingSerialized).2.length } = true := by
      simp only [DomainActivity.busy, Bool.or_eq_true, bne_iff_ne]
      exact .inr (Nat.ne_of_gt hQueued)
    rw [hBusy] at hCount
    change (if serializedDomainBusy s job.domain = true then s.busySerializedDomainCount
      else s.busySerializedDomainCount + 1) = _
    rw [h.busyCount]
    unfold serializedDomainBusy
    cases hWas : (serializedDomainActivity s job.domain).busy <;> rw [hWas] at hCount
    · exact hCount.symm
    · exact (Nat.add_right_cancel hCount).symm
  · intro hExited
    exact h.exits hExited
  · intro _
    obtain ⟨worker, hWorker⟩ := List.exists_mem_of_length_pos hWorkers
    refine ⟨worker, hWorker, ?_⟩
    rintro rfl
    rw [h.exits hWorker] at hOpen
    cases hOpen

theorem Scheduler.set (h : Scheduler opts s) (new : Worker) (hOld : s.serializedThreads[index]? = some old)
    (hHeld : heldJob new = heldJob old) (hExits : new = .exited → s.serializedStopping = true)
    (hSupply : s.pendingSerialized ≠ [] → (executing (s.serializedThreads.set index new)).Perm
      (executing s.serializedThreads) → ∃ worker ∈ s.serializedThreads.set index new, worker ≠ .exited) :
    Scheduler opts (setWorker s index new) := by
  obtain ⟨others, hBefore, hAfter⟩ := Pool.filterMap_set hOld new heldJob
  have hPerm : (executing (s.serializedThreads.set index new)).Perm (executing s.serializedThreads) := by
    rw [hHeld] at hAfter
    exact hAfter.trans hBefore.symm
  constructor
  · rw [setWorker, List.length_set]
    exact h.threads
  · exact h.queued
  · intro domain
    refine (h.active domain).trans ?_
    simp only [setWorker, hPerm.mem_iff]
  · exact (hPerm.map Job.domain).nodup_iff.mpr h.domains
  · exact h.activeCount
  · exact h.busyCount
  · intro hMem
    obtain hMem | hEq := Pool.mem_set_cases hMem
    · exact h.exits hMem
    · exact hExits hEq.symm
  · exact fun hQueue => hSupply hQueue hPerm

theorem Scheduler.moved (h : Scheduler opts s) (new : Worker) (hOld : s.serializedThreads[index]? = some old)
    (hHeld : heldJob new = heldJob old) (hExited : new ≠ .exited) : Scheduler opts (setWorker s index new) :=
  h.set new hOld hHeld (fun hEq => absurd hEq hExited) fun _ _ => ⟨new, Pool.mem_set_self hOld new, hExited⟩

theorem Scheduler.left (h : Scheduler opts s) (hOld : s.serializedThreads[index]? = some .waiting)
    (hStopping : s.serializedStopping = true) (hNone : nextRunnable s s.pendingSerialized = none) :
    Scheduler opts (setWorker s index .exited) := by
  refine h.set .exited hOld rfl (fun _ => hStopping) ?_
  -- The head of the queue waits for its domain, so another worker executes in it.
  intro hQueue hPerm
  obtain ⟨job, hJob⟩ := List.exists_mem_of_ne_nil _ hQueue
  obtain ⟨held, hHeld, _⟩ := (h.active job.domain).mp (nextRunnable_none hNone job hJob)
  obtain ⟨worker, hWorker, hHolds⟩ := List.mem_filterMap.mp (hPerm.mem_iff.mpr hHeld)
  refine ⟨worker, hWorker, ?_⟩
  rintro rfl
  cases hHolds

theorem activity_take (index : Nat) (job : Job) (rest : List Job) :
    serializedDomainActivity (takeJob s index job rest) job.domain =
      ⟨true, (serializedDomainActivity s job.domain).queued - 1⟩ := by
  refine activity_self.trans ?_
  rw [activity_self]

theorem activity_take_ne (index : Nat) (job : Job) (rest : List Job) {domain : String}
    (hNe : domain ≠ job.domain) :
    serializedDomainActivity (takeJob s index job rest) domain = serializedDomainActivity s domain :=
  (activity_ne hNe).trans (activity_ne hNe)

theorem count_take (test : DomainActivity → Bool) (hIdle : test idle = false) (index : Nat) (job : Job)
    (rest : List Job) :
    (takeJob s index job rest).domainActivity.countP (fun entry => test entry.2) +
        (test (serializedDomainActivity s job.domain)).toNat =
      s.domainActivity.countP (fun entry => test entry.2) +
        (test ⟨true, (serializedDomainActivity s job.domain).queued - 1⟩).toNat := by
  have hFirst := activity_count s job.domain
    (fun activity => { activity with queued := activity.queued - 1 }) test hIdle
  have hSecond := activity_count
    (setActivity s job.domain fun activity => { activity with queued := activity.queued - 1 }) job.domain
    (fun activity => { activity with active := true }) test hIdle
  rw [activity_self] at hSecond
  dsimp only at hSecond
  change (setActivity (setActivity s job.domain _) job.domain _).domainActivity.countP _ + _ = _
  omega

theorem Scheduler.took (h : Scheduler opts s) (hOld : s.serializedThreads[index]? = some .waiting)
    (hNext : nextRunnable s s.pendingSerialized = some (job, rest)) :
    Scheduler opts (takeJob s index job rest) := by
  obtain ⟨before, after, hQueue, rfl, _, hIdle⟩ := nextRunnable_some hNext
  obtain ⟨others, hBefore, hAfter⟩ := Pool.filterMap_set hOld (.took job) heldJob
  have hPerm : (executing (s.serializedThreads.set index (.took job))).Perm
      (job :: executing s.serializedThreads) := hAfter.trans (hBefore.symm.cons job)
  have hOne : queuedIn job.domain s.pendingSerialized = queuedIn job.domain (before ++ after) + 1 := by
    rw [hQueue, queuedIn_append, queuedIn_cons, queuedIn_append, beq_self_eq_true]
    exact (Nat.add_assoc _ _ _).symm
  have hQueued := h.queued job.domain
  constructor
  · change (s.serializedThreads.set index _).length ≤ _
    rw [List.length_set]
    exact h.threads
  · intro domain
    change _ = queuedIn domain (before ++ after)
    by_cases hEq : domain = job.domain
    · subst hEq
      rw [activity_take]
      dsimp only
      omega
    · rw [activity_take_ne index job _ hEq, h.queued, hQueue, queuedIn_append, queuedIn_cons, queuedIn_append,
        beq_false_of_ne (Ne.symm hEq)]
      rfl
  · intro domain
    change _ ↔ ∃ held ∈ executing (s.serializedThreads.set index (.took job)), held.domain = domain
    simp only [hPerm.mem_iff, List.mem_cons, exists_eq_or_imp]
    rw [serializedDomainActive]
    by_cases hEq : domain = job.domain
    · subst hEq
      simp [activity_take]
    · rw [activity_take_ne index job _ hEq]
      refine (h.active domain).trans ?_
      simp [Ne.symm hEq]
  · refine (hPerm.map Job.domain).nodup_iff.mpr ?_
    rw [List.map_cons, List.nodup_cons]
    refine ⟨?_, h.domains⟩
    intro hMem
    obtain ⟨held, hHeld, hEq⟩ := List.mem_map.mp hMem
    have hActive := (h.active job.domain).mpr ⟨held, hHeld, hEq⟩
    rw [hIdle] at hActive
    cases hActive
  · have hCount := count_take DomainActivity.active rfl index job (before ++ after) (s := s)
    have hWas : (serializedDomainActivity s job.domain).active = false := hIdle
    rw [hWas] at hCount
    change s.activeSerializedDomainCount + 1 = _
    rw [h.activeCount]
    exact hCount.symm
  · have hCount := count_take DomainActivity.busy rfl index job (before ++ after) (s := s)
    have hWas : (serializedDomainActivity s job.domain).busy = true := by
      simp only [DomainActivity.busy, Bool.or_eq_true, bne_iff_ne]
      exact .inr (by omega)
    rw [hWas] at hCount
    change s.busySerializedDomainCount = _
    rw [h.busyCount]
    exact (Nat.add_right_cancel hCount).symm
  · intro hExited
    obtain hMem | hEq := Pool.mem_set_cases hExited
    · exact h.exits hMem
    · cases hEq
  · intro _
    exact ⟨_, Pool.mem_set_self hOld _, by simp⟩

theorem Scheduler.deactivated (h : Scheduler opts s) (hOld : s.serializedThreads[index]? = some (.deactivating job)) :
    Scheduler opts (setWorker (deactivateSerializedDomain s job.domain) index .waiting) := by
  obtain ⟨others, hBefore, hAfter⟩ := Pool.filterMap_set hOld .waiting heldJob
  have hPerm : (executing s.serializedThreads).Perm
      (job :: executing (s.serializedThreads.set index .waiting)) := hBefore.trans (hAfter.symm.cons job)
  have hNodup := (hPerm.map Job.domain).nodup_iff.mp h.domains
  rw [List.map_cons, List.nodup_cons] at hNodup
  have hActive : (serializedDomainActivity s job.domain).active = true :=
    (h.active job.domain).mpr ⟨job, hPerm.mem_iff.mpr List.mem_cons_self, rfl⟩
  unfold deactivateSerializedDomain
  dsimp only
  rw [if_pos hActive]
  constructor
  · change (s.serializedThreads.set index _).length ≤ _
    rw [List.length_set]
    exact h.threads
  · intro domain
    refine Eq.trans ?_ (h.queued domain)
    change (serializedDomainActivity (setActivity s job.domain fun activity =>
      { activity with active := false }) domain).queued = _
    by_cases hEq : domain = job.domain
    · subst hEq
      rw [activity_self]
    · rw [activity_ne hEq]
  · intro domain
    change (serializedDomainActivity (setActivity s job.domain _) domain).active = true ↔
      ∃ held ∈ executing (s.serializedThreads.set index .waiting), held.domain = domain
    by_cases hEq : domain = job.domain
    · subst hEq
      rw [activity_self]
      simpa using fun held hHeld hEq => hNodup.1 (List.mem_map.mpr ⟨held, hHeld, hEq⟩)
    · rw [activity_ne hEq]
      refine (h.active domain).trans ?_
      simp [hPerm.mem_iff, Ne.symm hEq]
  · exact hNodup.2
  · have hCount := activity_count s job.domain (fun activity => { activity with active := false })
      DomainActivity.active rfl
    rw [hActive] at hCount
    change s.activeSerializedDomainCount - 1 = _
    rw [h.activeCount]
    exact Nat.sub_eq_of_eq_add hCount.symm
  · have hCount := activity_count s job.domain (fun activity => { activity with active := false })
      DomainActivity.busy rfl
    have hWas : (serializedDomainActivity s job.domain).busy = true := by simp [DomainActivity.busy, hActive]
    rw [hWas] at hCount
    change (if (serializedDomainActivity s job.domain).queued = 0 then s.busySerializedDomainCount - 1
      else s.busySerializedDomainCount) = _
    rw [h.busyCount]
    split
    · rename_i hZero
      simp only [DomainActivity.busy, hZero] at hCount
      exact Nat.sub_eq_of_eq_add hCount.symm
    · rename_i hQueued
      have hNow : DomainActivity.busy { serializedDomainActivity s job.domain with active := false } = true := by
        simpa [DomainActivity.busy] using hQueued
      rw [hNow] at hCount
      exact (Nat.add_right_cancel hCount).symm
  · intro hExited
    obtain hMem | hEq := Pool.mem_set_cases hExited
    · exact h.exits hMem
    · cases hEq
  · intro _
    exact ⟨_, Pool.mem_set_self hOld _, by simp⟩

end Scheduler

section History

variable {s : State}

theorem History.nodup (h : History s) : s.accepted.Nodup := by
  have hTickets : (s.accepted.map Job.ticket).Nodup := by
    rw [h.tickets]
    exact List.nodup_range
  exact List.Pairwise.of_map Job.ticket (fun _ _ hNe hEq => hNe (congrArg Job.ticket hEq)) hTickets

theorem History.filter_dropped (h : History s) (job : Job) :
    (s.started ++ s.pendingSerialized).filter
        (fun other => other ∉ s.pendingSerialized.filter (dropped job)) =
      s.started ++ s.pendingSerialized.filter fun queued => !dropped job queued := by
  have hNodup := (List.nodup_append.mp (h.split.nodup_iff.mp h.nodup)).1
  have hDisjoint := (List.nodup_append.mp hNodup).2.2
  rw [List.filter_append]
  congr 1
  · rw [List.filter_eq_self]
    intro other hOther
    have hAway : other ∉ s.pendingSerialized := fun hQueued => hDisjoint other hOther other hQueued rfl
    simp [hAway]
  · refine List.filter_congr ?_
    intro other hOther
    simp [hOther]

theorem History.admitted (h : History s) (job : Job) (hTicket : job.ticket = s.accepted.length) :
    History (queueJob s job) := by
  have hQueue : (queueJob s job).pendingSerialized =
      (s.pendingSerialized.filter fun queued => !dropped job queued) ++ [job] := by
    change (superseding job.policy (replaces job) s.pendingSerialized).1 ++ [job] = _
    rw [superseding_dropped]
  have hGone : (queueJob s job).superseded = s.superseded ++ s.pendingSerialized.filter (dropped job) := by
    change s.superseded ++ (superseding job.policy (replaces job) s.pendingSerialized).2 = _
    rw [superseding_dropped]
  have hOlder : ∀ other ∈ s.accepted, other ≠ job := by
    intro other hOther hEq
    have hRange : job.ticket ∈ List.range s.accepted.length := by
      rw [← h.tickets, ← hEq]
      exact List.mem_map_of_mem hOther
    rw [hTicket] at hRange
    exact absurd (List.mem_range.mp hRange) (Nat.lt_irrefl _)
  have hFresh : [job].filter (fun other =>
      other ∉ s.superseded ++ s.pendingSerialized.filter (dropped job)) = [job] := by
    rw [List.filter_eq_self]
    intro other hOther
    cases List.mem_singleton.mp hOther
    rw [decide_eq_true_eq]
    intro hMem
    refine hOlder job (h.split.mem_iff.mpr ?_) rfl
    obtain hMem | hMem := List.mem_append.mp hMem
    · exact List.mem_append_right _ hMem
    · exact List.mem_append_left _ (List.mem_append_right _ (List.mem_filter.mp hMem).1)
  have hRemain : s.accepted.filter (fun other =>
        other ∉ s.superseded ++ s.pendingSerialized.filter (dropped job)) =
      (s.accepted.filter fun other => other ∉ s.superseded).filter fun other =>
        other ∉ s.pendingSerialized.filter (dropped job) := by
    rw [List.filter_filter]
    refine List.filter_congr ?_
    intro other _
    simp only [List.mem_append, not_or, Bool.decide_and]
    exact Bool.and_comm _ _
  constructor
  · change (s.accepted ++ [job]).map Job.ticket = List.range (s.accepted ++ [job]).length
    rw [List.map_append, h.tickets, List.length_append, List.map_cons, List.map_nil, hTicket]
    exact List.range_succ.symm
  · rw [hQueue, hGone]
    change (s.accepted ++ [job]).Perm (s.started ++ _ ++ _)
    rw [List.perm_iff_count]
    intro other
    have hSplit := h.split.count_eq other
    have hKept := (List.filter_append_perm (dropped job) s.pendingSerialized).count_eq other
    simp only [List.count_append] at hSplit hKept ⊢
    omega
  · exact h.answered
  · intro domain
    have hKept : (s.started ++ s.pendingSerialized.filter fun queued => !dropped job queued).filter
          (fun other => other.domain == domain) =
        (s.accepted.filter fun other =>
          other ∉ s.superseded ++ s.pendingSerialized.filter (dropped job)).filter
            fun other => other.domain == domain := by
      rw [← h.filter_dropped job, hRemain, List.filter_comm, h.order domain, List.filter_comm]
    have hAccepted : (s.accepted ++ [job]).filter (fun other =>
          other ∉ s.superseded ++ s.pendingSerialized.filter (dropped job)) =
        (s.accepted.filter fun other =>
          other ∉ s.superseded ++ s.pendingSerialized.filter (dropped job)) ++ [job] := by
      rw [List.filter_append, hFresh]
    rw [hQueue, hGone]
    change (s.started ++ (_ ++ [job])).filter _ = ((s.accepted ++ [job]).filter _).filter _
    rw [hAccepted, ← List.append_assoc, List.filter_append, hKept, ← List.filter_append]

theorem History.took (h : History s) (hOld : s.serializedThreads[index]? = some .waiting)
    (hNext : nextRunnable s s.pendingSerialized = some (job, rest)) :
    History (takeJob s index job rest) := by
  obtain ⟨before, after, hQueue, rfl, hBefore, hIdle⟩ := nextRunnable_some hNext
  obtain ⟨others, hWas, hNow⟩ := Pool.filterMap_set hOld (.took job) openJob
  constructor
  · exact h.tickets
  · refine h.split.trans ?_
    change (s.started ++ s.pendingSerialized ++ s.superseded).Perm
      (s.started ++ [job] ++ (before ++ after) ++ s.superseded)
    rw [hQueue]
    refine List.Perm.append_right _ ?_
    rw [List.append_assoc]
    exact List.Perm.append_left _ List.perm_middle
  · change (s.started ++ [job]).Perm (inProgress (s.serializedThreads.set index (.took job)) ++ _)
    have hPerm : (inProgress (s.serializedThreads.set index (.took job))).Perm
        (job :: inProgress s.serializedThreads) := hNow.trans (hWas.symm.cons job)
    refine (List.perm_append_singleton job s.started).trans ?_
    exact (h.answered.cons job).trans (hPerm.append_right _).symm
  · intro domain
    refine Eq.trans ?_ (h.order domain)
    change (s.started ++ [job] ++ (before ++ after)).filter _ = _
    rw [hQueue]
    by_cases hEq : job.domain = domain
    · have hNone : before.filter (fun earlier => earlier.domain == domain) = [] := by
        rw [List.filter_eq_nil_iff]
        intro earlier hEarlier hSame
        have hActive := hBefore earlier hEarlier
        rw [beq_iff_eq.mp hSame, ← hEq, hIdle] at hActive
        cases hActive
      simp [List.filter_append, hEq, hNone]
    · simp [List.filter_append, hEq]

theorem History.moved (h : History s) (new : Worker) (hOld : s.serializedThreads[index]? = some old)
    (hOpen : openJob new = openJob old) : History (setWorker s index new) := by
  obtain ⟨others, hWas, hNow⟩ := Pool.filterMap_set hOld new openJob
  rw [hOpen] at hNow
  refine ⟨h.tickets, h.split, ?_, h.order⟩
  exact h.answered.trans ((hWas.trans hNow.symm).append_right _)

theorem History.consumed (h : History s) (hOld : s.serializedThreads[index]? = some old)
    (hOpen : openJob old = some job) (outcome : Outcome) :
    History (consume s index job outcome) := by
  obtain ⟨others, hWas, hNow⟩ := Pool.filterMap_set hOld (.deactivating job) openJob
  rw [hOpen] at hWas
  refine ⟨h.tickets, h.split, ?_, h.order⟩
  change s.started.Perm
    (inProgress (s.serializedThreads.set index (.deactivating job)) ++ (s.consumed ++ [(job, outcome)]).map Prod.fst)
  have hPerm : (inProgress s.serializedThreads).Perm
      (job :: inProgress (s.serializedThreads.set index (.deactivating job))) :=
    hWas.trans (hNow.symm.cons job)
  rw [List.map_append, ← List.append_assoc]
  refine (h.answered.trans (hPerm.append_right _)).trans ?_
  exact (List.perm_append_singleton job _).symm

theorem History.supplied (h : History s) (domain : String) (count : Nat) :
    History (startWorkers (setActivity s domain id) count) := by
  refine ⟨h.tickets, h.split, ?_, h.order⟩
  have hSame : inProgress (startWorkers (setActivity s domain id) count).serializedThreads =
      inProgress s.serializedThreads := by
    rw [inProgress, startWorkers, List.filterMap_append, List.filterMap_replicate_of_none rfl, List.append_nil]
    rfl
  rw [hSame]
  exact h.answered

end History

section Runs

variable {opts : Options} {s t : State}
variable {worker : Worker} {interruption : Interruption} {action : Action}

theorem Scheduler.withRunning (h : Scheduler opts s) (running : Bool) : Scheduler opts { s with running } :=
  ⟨h.threads, h.queued, h.active, h.domains, h.activeCount, h.busyCount, h.exits, h.supply⟩

theorem History.withRunning (h : History s) (running : Bool) : History { s with running } :=
  ⟨h.tickets, h.split, h.answered, h.order⟩

theorem Scheduler.consumed (h : Scheduler opts s) (hOld : s.serializedThreads[index]? = some old)
    (hHeld : heldJob old = some job) (outcome : Outcome) :
    Scheduler opts (consume s index job outcome) := by
  have hMoved := h.moved (.deactivating job) hOld hHeld.symm (by simp)
  exact ⟨hMoved.threads, hMoved.queued, hMoved.active, hMoved.domains, hMoved.activeCount, hMoved.busyCount,
    hMoved.exits, hMoved.supply⟩

/-- How a worker ends with the job that it holds. -/
inductive Ends (s : State) (now : Nat) (job : Job) : Worker → Outcome → Prop
  | maintenance : job.connection = none → Ends s now job (.took job) .ran
  | late : job.connection ≠ none → expired job.deadline now = true → Ends s now job (.took job) .timedOut
  | stopped : s.running = false → Ends s now job (.checked job) .skipped
  | invoked : Ends s now job (.invoking job) .ran

inductive WorkerStep (s : State) (index now : Nat) : Worker → State → Prop
  | takes {job : Job} {rest : List Job} : nextRunnable s s.pendingSerialized = some (job, rest) →
      WorkerStep s index now .waiting (takeJob s index job rest)
  | leaves : nextRunnable s s.pendingSerialized = none → s.serializedStopping = true →
      WorkerStep s index now .waiting (setWorker s index .exited)
  | checks {job : Job} : job.connection ≠ none → expired job.deadline now = false →
      WorkerStep s index now (.took job) (setWorker s index (.checked job))
  | invokes {job : Job} : s.running = true →
      WorkerStep s index now (.checked job) (setWorker s index (.invoking job))
  | ends {worker : Worker} {job : Job} {outcome : Outcome} : Ends s now job worker outcome →
      WorkerStep s index now worker (consume s index job outcome)
  | deactivates {job : Job} : WorkerStep s index now (.deactivating job)
      (setWorker (deactivateSerializedDomain s job.domain) index .waiting)

theorem worker_cases {now : Nat} (h : serializedWorkerLoop s index now worker = some t) :
    WorkerStep s index now worker t := by
  cases worker with
  | waiting =>
    rw [serializedWorkerLoop] at h
    split at h
    · rename_i hNext
      cases h
      exact .takes hNext
    · rename_i hNone
      split at h <;> cases h
      exact .leaves hNone ‹_›
  | took job =>
    rw [serializedWorkerLoop] at h
    split at h
    · cases h
      exact .ends (.maintenance (Option.isNone_iff_eq_none.mp ‹_›))
    · rename_i hSome
      rw [Option.isNone_iff_eq_none] at hSome
      split at h <;> cases h
      · exact .ends (.late hSome ‹_›)
      · exact .checks hSome (Bool.eq_false_iff.mpr ‹_›)
  | checked job =>
    rw [serializedWorkerLoop] at h
    split at h <;> cases h
    · exact .invokes ‹_›
    · exact .ends (.stopped (Bool.eq_false_iff.mpr ‹_›))
  | invoking job =>
    cases h
    exact .ends .invoked
  | deactivating job =>
    cases h
    exact .deactivates
  | exited => cases h

theorem Ends.jobs {now : Nat} {outcome : Outcome} (h : Ends s now job worker outcome) :
    heldJob worker = some job ∧ openJob worker = some job := by
  cases h <;> exact ⟨rfl, rfl⟩

theorem worker_inv (hScheduler : Scheduler opts s) (hHistory : History s) {now : Nat}
    (hOld : s.serializedThreads[index]? = some worker) (h : WorkerStep s index now worker t) :
    Scheduler opts t ∧ History t := by
  cases h with
  | takes hNext => exact ⟨hScheduler.took hOld hNext, hHistory.took hOld hNext⟩
  | leaves hNone hStopping => exact ⟨hScheduler.left hOld hStopping hNone, hHistory.moved _ hOld rfl⟩
  | checks | invokes => exact ⟨hScheduler.moved _ hOld rfl (by simp), hHistory.moved _ hOld rfl⟩
  | ends hEnds => exact ⟨hScheduler.consumed hOld hEnds.jobs.1 _, hHistory.consumed hOld hEnds.jobs.2 _⟩
  | deactivates =>
    refine ⟨hScheduler.deactivated hOld, ?_⟩
    unfold deactivateSerializedDomain
    dsimp only
    split
    · have hMoved := hHistory.moved .waiting hOld rfl
      exact ⟨hMoved.tickets, hMoved.split, hMoved.answered, hMoved.order⟩
    · exact hHistory.moved _ hOld rfl

theorem enqueue_inv (hScheduler : Scheduler opts s) (hHistory : History s)
    (h : enqueueSerializedJob opts s job interruption = some t) : Scheduler opts t ∧ History t := by
  unfold enqueueSerializedJob at h
  split at h
  · cases h
    exact ⟨hScheduler, hHistory⟩
  · rename_i hOpen
    push Not at hOpen
    have hKnown : Scheduler opts (setActivity s job.domain id) := by
      have hSupplied : Scheduler opts (startWorkers (setActivity s job.domain id) 0) :=
        hScheduler.supplied job.domain hScheduler.threads
      rwa [startWorkers, List.replicate_zero, List.append_nil] at hSupplied
    have hMissing := missingWorkers_le hKnown job.domain
    have hSupply : ∀ {count : Nat}, count ≤ missingWorkers opts (setActivity s job.domain id) job.domain →
        Scheduler opts (startWorkers (setActivity s job.domain id) count) := fun hCount =>
      hScheduler.supplied job.domain (Nat.le_trans (Nat.add_le_add_left hCount _) hMissing)
    have hPast : ∀ count, History (startWorkers (setActivity s job.domain id) count) :=
      hHistory.supplied job.domain
    dsimp only at h
    split at h
    · split at h
      · rename_i hCreated
        cases h
        exact ⟨hSupply (Nat.le_of_lt hCreated), hPast _⟩
      · cases h
    · cases h
      exact ⟨(hSupply (Nat.le_refl _)).withRunning false, (hPast _).withRunning false⟩
    · cases h
      exact ⟨hSupply (Nat.le_refl _), hPast _⟩
    · split at h
      · cases h
        exact ⟨hSupply (Nat.le_refl _), hPast _⟩
      · cases h
        refine ⟨(hSupply (Nat.le_refl _)).admitted _ (Bool.eq_false_iff.mpr hOpen.1) ?_, (hPast _).admitted _ rfl⟩
        rw [startWorkers, List.length_append, List.length_replicate]
        exact one_le_workers hKnown job.domain

theorem step_inv (hScheduler : Scheduler opts s) (hHistory : History s) (h : step opts s action = some t) :
    Scheduler opts t ∧ History t := by
  cases action with
  | enqueue job interruption => exact enqueue_inv hScheduler hHistory h
  | worker index now =>
    rw [step] at h
    split at h
    · cases h
    · rename_i worker hWorker
      exact worker_inv hScheduler hHistory hWorker (worker_cases h)
  | startRunning | stopRunning =>
    cases h
    exact ⟨hScheduler.withRunning _, hHistory.withRunning _⟩
  | stopSerialized =>
    cases h
    exact ⟨⟨hScheduler.threads, hScheduler.queued, hScheduler.active, hScheduler.domains, hScheduler.activeCount,
      hScheduler.busyCount, fun _ => rfl, hScheduler.supply⟩,
      ⟨hHistory.tickets, hHistory.split, hHistory.answered, hHistory.order⟩⟩

theorem initial_inv (hInit : Initial s) : Scheduler opts s ∧ History s := by
  have hIdle : ∀ domain, serializedDomainActivity s domain = idle := by
    intro domain
    rw [serializedDomainActivity, hInit.domainActivity]
    simp [Registry.read, idle]
  constructor
  · constructor
    · simp [hInit.serializedThreads]
    · simp [hIdle, idle, hInit.pendingSerialized, queuedIn]
    · simp [serializedDomainActive, hIdle, idle, hInit.serializedThreads, executing]
    · simp [hInit.serializedThreads, executing]
    · simp [hInit.activeCount, hInit.domainActivity, idle]
    · simp [hInit.busyCount, hInit.domainActivity, idle, DomainActivity.busy]
    · simp [hInit.serializedThreads]
    · simp [hInit.pendingSerialized]
  · constructor
    · simp [hInit.accepted]
    · simp [hInit.accepted, hInit.started, hInit.pendingSerialized, hInit.superseded]
    · simp [hInit.started, hInit.serializedThreads, hInit.consumed, inProgress]
    · simp [hInit.accepted, hInit.started, hInit.pendingSerialized]

theorem inv_of_reachable (h : (machine opts).Reachable s) : Scheduler opts s ∧ History s := by
  refine Machine.Reached.invariant (fun s (hInit : Initial s) => initial_inv hInit) ?_ h
  intro s action t _ hInv _ hStep
  exact step_inv hInv.1 hInv.2 hStep

structure Extends (s t : State) : Prop where
  accepted : s.accepted <+: t.accepted
  started : s.started <+: t.started
  superseded : s.superseded <+: t.superseded
  consumed : s.consumed <+: t.consumed

theorem Extends.of_eq (hAccepted : s.accepted = t.accepted) (hStarted : s.started = t.started)
    (hSuperseded : s.superseded = t.superseded) (hConsumed : s.consumed = t.consumed) : Extends s t :=
  ⟨hAccepted ▸ List.prefix_rfl, hStarted ▸ List.prefix_rfl, hSuperseded ▸ List.prefix_rfl,
    hConsumed ▸ List.prefix_rfl⟩

theorem Extends.trans {r : State} (h : Extends s t) (hNext : Extends t r) : Extends s r :=
  ⟨h.accepted.trans hNext.accepted, h.started.trans hNext.started, h.superseded.trans hNext.superseded,
    h.consumed.trans hNext.consumed⟩

theorem worker_extends {now : Nat} (h : WorkerStep s index now worker t) : Extends s t := by
  cases h with
  | takes => exact ⟨List.prefix_rfl, List.prefix_append _ _, List.prefix_rfl, List.prefix_rfl⟩
  | ends => exact ⟨List.prefix_rfl, List.prefix_rfl, List.prefix_rfl, List.prefix_append _ _⟩
  | leaves | checks | invokes => exact .of_eq rfl rfl rfl rfl
  | deactivates =>
    unfold deactivateSerializedDomain
    dsimp only
    split <;> exact .of_eq rfl rfl rfl rfl

theorem enqueue_extends (h : enqueueSerializedJob opts s job interruption = some t) :
    Extends s t ∧ t.consumed = s.consumed := by
  unfold enqueueSerializedJob at h
  split at h
  · cases h
    exact ⟨.of_eq rfl rfl rfl rfl, rfl⟩
  · dsimp only at h
    split at h
    · split at h <;> cases h
      exact ⟨.of_eq rfl rfl rfl rfl, rfl⟩
    · cases h
      exact ⟨.of_eq rfl rfl rfl rfl, rfl⟩
    · cases h
      exact ⟨.of_eq rfl rfl rfl rfl, rfl⟩
    · split at h <;> cases h
      · exact ⟨.of_eq rfl rfl rfl rfl, rfl⟩
      · exact ⟨⟨List.prefix_append _ _, List.prefix_rfl, List.prefix_append _ _, List.prefix_rfl⟩, rfl⟩

theorem step_extends (h : step opts s action = some t) : Extends s t := by
  cases action with
  | enqueue job interruption => exact (enqueue_extends h).1
  | worker index now =>
    rw [step] at h
    split at h
    · cases h
    · exact worker_extends (worker_cases h)
  | startRunning | stopRunning | stopSerialized =>
    cases h
    exact .of_eq rfl rfl rfl rfl

theorem step_consumed (h : step opts s action = some t) : t.consumed = s.consumed ∨
    ∃ index now worker job outcome, action = .worker index now ∧ s.serializedThreads[index]? = some worker ∧
      Ends s now job worker outcome ∧ t.consumed = s.consumed ++ [(job, outcome)] := by
  cases action with
  | enqueue job interruption => exact .inl (enqueue_extends h).2
  | worker index now =>
    rw [step] at h
    split at h
    · cases h
    · rename_i worker hWorker
      cases worker_cases h with
      | ends hEnds => exact .inr ⟨index, now, worker, _, _, rfl, hWorker, hEnds, rfl⟩
      | takes | leaves | checks | invokes => exact .inl rfl
      | deactivates =>
        refine .inl ?_
        unfold deactivateSerializedDomain
        dsimp only
        split <;> rfl
  | startRunning | stopRunning | stopSerialized =>
    cases h
    exact .inl rfl

theorem held_steps (hWorker : s.serializedThreads[index]? = some worker) (hHeld : heldJob worker ≠ none) (now : Nat) :
    (step opts s (.worker index now)).isSome = true := by
  simp only [step, hWorker]
  cases worker with
  | waiting | exited => exact absurd rfl hHeld
  | took | checked =>
    rw [serializedWorkerLoop]
    split_ifs <;> rfl
  | invoking | deactivating => rfl

theorem queue_steps (hScheduler : Scheduler opts s) (hQueue : s.pendingSerialized ≠ []) :
    ∃ index, ∀ now, (step opts s (.worker index now)).isSome = true := by
  obtain ⟨worker, hMem, hNe⟩ := hScheduler.supply hQueue
  obtain ⟨index, hWorker⟩ := List.mem_iff_getElem?.mp hMem
  by_cases hHeld : heldJob worker = none
  · have hWaiting : worker = .waiting := by
      cases worker <;> first | rfl | exact absurd rfl hNe | cases hHeld
    subst hWaiting
    cases hNext : nextRunnable s s.pendingSerialized with
    | some found => exact ⟨index, fun now => by simp only [step, hWorker, serializedWorkerLoop, hNext, Option.isSome]⟩
    | none =>
      -- the domain of the first job is active, so the worker that holds it goes on
      obtain ⟨job, rest, hFirst⟩ := List.exists_cons_of_ne_nil hQueue
      have hActive := nextRunnable_none hNext job (by rw [hFirst]; exact List.mem_cons_self)
      obtain ⟨held, hExecuting, -⟩ := (hScheduler.active job.domain).mp hActive
      obtain ⟨holder, hHolder, hJob⟩ := List.mem_filterMap.mp hExecuting
      obtain ⟨other, hOther⟩ := List.mem_iff_getElem?.mp hHolder
      exact ⟨other, held_steps hOther (by rw [hJob]; exact Option.some_ne_none _)⟩
  · exact ⟨index, held_steps hWorker hHeld⟩

theorem leads_extends (h : (machine opts).Leads (fun _ _ => True) s t) : Extends s t := by
  induction h with
  | refl => exact .of_eq rfl rfl rfl rfl
  | next _ _ hStep ih => exact ih.trans (step_extends hStep)

end Runs

/-- In every reachable state: executing jobs have different domains and are at most
`max_serialized_concurrency`; every domain runs its jobs in admission order; and every accepted job is,
once, queued, superseded, in progress or consumed, until at the end none is left. A job is consumed by the
worker that holds it: as run, as expired or, when the server is not running, as skipped; and as long as a job is
queued or held some worker has a step. -/
theorem serialized_jobs (opts : Options) (s : State) (h : (machine opts).Reachable s) :
    ((executing s.serializedThreads).map Job.domain).Nodup ∧
    (executing s.serializedThreads).length ≤ opts.maxSerializedConcurrency ∧
    (∀ domain, (s.started ++ s.pendingSerialized).filter (fun job => job.domain == domain) =
      (s.accepted.filter fun job => job ∉ s.superseded).filter fun job => job.domain == domain) ∧
    s.accepted.Nodup ∧
    s.accepted.Perm (s.pendingSerialized ++ s.superseded ++
      (inProgress s.serializedThreads ++ s.consumed.map Prod.fst)) ∧
    (∀ t, (machine opts).Leads (fun _ _ => True) s t → Extends s t) ∧
    ((∀ worker ∈ s.serializedThreads, worker = .exited) →
      s.pendingSerialized = [] ∧ s.accepted.Perm (s.superseded ++ s.consumed.map Prod.fst)) ∧
    (∀ action t, step opts s action = some t → t.consumed = s.consumed ∨
      ∃ index now worker job outcome, action = .worker index now ∧ s.serializedThreads[index]? = some worker ∧
        Ends s now job worker outcome ∧ t.consumed = s.consumed ++ [(job, outcome)]) ∧
    (∀ (index : Nat) worker, s.serializedThreads[index]? = some worker → heldJob worker ≠ none → ∀ now,
      (step opts s (.worker index now)).isSome = true) ∧
    (s.pendingSerialized ≠ [] → ∃ index, ∀ now, (step opts s (.worker index now)).isSome = true) := by
  obtain ⟨hScheduler, hHistory⟩ := inv_of_reachable h
  have hPerm : s.accepted.Perm (s.pendingSerialized ++ s.superseded ++
      (inProgress s.serializedThreads ++ s.consumed.map Prod.fst)) := by
    refine hHistory.split.trans ?_
    rw [List.append_assoc]
    exact List.perm_append_comm.trans (hHistory.answered.append_left _)
  refine ⟨hScheduler.domains, ?_, hHistory.order, hHistory.nodup, hPerm, fun t => leads_extends, ?_,
    fun action t => step_consumed, fun index worker => held_steps, queue_steps hScheduler⟩
  · exact Nat.le_trans (List.length_filterMap_le _ _) hScheduler.threads
  · intro hExited
    have hQueue : s.pendingSerialized = [] := by
      by_contra hSome
      obtain ⟨worker, hWorker, hNe⟩ := hScheduler.supply hSome
      exact hNe (hExited worker hWorker)
    have hNone : inProgress s.serializedThreads = [] := by
      rw [inProgress, List.filterMap_eq_nil_iff]
      intro worker hWorker
      rw [hExited worker hWorker]
      rfl
    rw [hQueue, hNone] at hPerm
    exact ⟨hQueue, hPerm⟩

def request (domain : String) (route : UInt8) (policy : QueuePolicy) : Job :=
  ⟨0, some 0, domain, policy, [route], none⟩

def supersededThenStopped : List Action :=
  [.enqueue (request "a" 0 .fifo) .none, .worker 0 0, .worker 0 0, .worker 0 0,
    .enqueue (request "a" 1 .latestWins) .none, .enqueue (request "b" 1 .fifo) .none,
    .enqueue (request "a" 1 .latestWins) .none, .worker 1 0, .worker 1 0, .worker 1 0,
    .stopRunning, .stopSerialized, .worker 1 0, .worker 1 0, .worker 1 0,
    .worker 0 0, .worker 0 0, .worker 0 0, .worker 0 0, .worker 0 0, .worker 0 0, .worker 0 0]

theorem serialized_jobs_superseded : ∃ s, (machine twoDomains).Reachable s ∧
    s.accepted.length = 4 ∧ s.superseded.length = 1 ∧ (∀ worker ∈ s.serializedThreads, worker = .exited) ∧
    s.consumed.map Prod.snd = [.ran, .ran, .skipped] ∧
    s.pendingSerialized = [] ∧ s.accepted.Perm (s.superseded ++ s.consumed.map Prod.fst) := by
  obtain ⟨s, hReached, hAccepted, hSuperseded, hExited, hOutcomes⟩ := Machine.exists_reachable_of_exec
    (fun s => s.accepted.length = 4 ∧ s.superseded.length = 1 ∧ (∀ worker ∈ s.serializedThreads, worker = .exited) ∧
      s.consumed.map Prod.snd = [.ran, .ran, .skipped])
    supersededThenStopped (M := machine twoDomains) idleExecutor_initial (by decide)
  obtain ⟨-, -, -, -, -, -, hFinal, -⟩ := serialized_jobs twoDomains s hReached
  exact ⟨s, hReached, hAccepted, hSuperseded, hExited, hOutcomes, hFinal hExited⟩

end EasyUds.Reactor.SerializedOrder

import Mathlib.Data.UInt
import Mathlib.Data.Multiset.Range
import EasyUds.Lib.Threads

/-! # Stream slots

The slots of `max_concurrent_streams`: `dispatch_stream` takes one in the loop of
`try_acquire_stream_slot`, the queued job carries it to a worker, and the guard of
`run_stream_exchange` gives it back, early when the response is written or in its destructor. The
first thread is the reactor; the others are workers and callers of `stop`.

Every slot that is taken gets a number. `acquisitions` and `released` are a history.
-/

namespace EasyUds.Reactor.StreamSlots

open Lib

structure Options where
  maxConcurrentStreams : UInt64

structure PendingJob where
  slot : Option Nat
  deriving DecidableEq, Repr

def PendingJob.isStream (job : PendingJob) : Bool := job.slot.isSome

structure State where
  activeStreams : UInt64 := 0
  workersStopping : Bool := false
  pendingJobs : List PendingJob := []
  acquisitions : Nat := 0
  released : List Nat := []
  deriving DecidableEq, Repr

inductive Op
  | runReactor
  | dispatchStream
  /-- the loop of `try_acquire_stream_slot`, with the value that it has read -/
  | tryAcquireStreamSlot (active : UInt64)
  /-- the section of `dispatch_stream` under `connections_mutex` -/
  | streamLease
  | enqueueWorkerJob (job : PendingJob)
  | workerLoop
  /-- a regular job -/
  | serve
  | runStreamExchange (slot : Nat)
  /-- `stream_guard.release()` behind the response -/
  | release (slot : Nat)
  | rearmConnection
  /-- the destructor of the guard, which may have been released -/
  | destroyGuard (slot : Option Nat)
  | stopState
  deriving DecidableEq, Repr

/-- What the environment does: a stream or a regular request arrives, a test or an exchange goes against
the thread, or an exception is thrown. -/
inductive Choice
  | proceed
  | regular
  | refused
  | threw
  | leave
  deriving DecidableEq, Repr

section Operations

variable (opts : Options) (s : State)

abbrev Result := State × List Op

def tryAcquireStreamSlot (active : UInt64) (choice : Choice) : Result :=
  if active < opts.maxConcurrentStreams then
    -- a weak exchange may fail for no reason, and loads the value again
    if choice ≠ .refused ∧ s.activeStreams = active then
      ({ s with activeStreams := active + 1, acquisitions := s.acquisitions + 1 },
        [.streamLease, .enqueueWorkerJob ⟨some s.acquisitions⟩])
    else (s, [.tryAcquireStreamSlot s.activeStreams])
  else (s, [])

/-- The result of `enqueue_worker_job` only decides whether the connection is marked as closing. -/
def enqueueWorkerJob (job : PendingJob) (choice : Choice) : Result :=
  if s.workersStopping then (s, [])
  else if choice = .threw then (s, [])
  else ({ s with pendingJobs := s.pendingJobs ++ [job] }, [])

def startJob (job : PendingJob) : List Op :=
  match job.slot with
  | some slot => [.runStreamExchange slot, .workerLoop]
  | none => [.serve, .workerLoop]

def workerLoop : Option Result :=
  match s.pendingJobs with
  | [] => if s.workersStopping then some (s, []) else none
  | job :: rest => some ({ s with pendingJobs := rest }, startJob job)

def releaseSlot (slot : Nat) : State :=
  { s with activeStreams := s.activeStreams - 1, released := s.released ++ [slot] }

def exec (op : Op) (choice : Choice) : Option Result :=
  match op with
  | .runReactor =>
    match choice with
    | .proceed => some (s, [.dispatchStream, .runReactor])
    | .regular => some (s, [.enqueueWorkerJob ⟨none⟩, .runReactor])
    | .leave => some (s, [])
    | .refused | .threw => none
  | .dispatchStream => some (if choice = .refused then (s, []) else (s, [.tryAcquireStreamSlot s.activeStreams]))
  | .tryAcquireStreamSlot active => some (tryAcquireStreamSlot opts s active choice)
  | .streamLease => some (s, [])
  | .enqueueWorkerJob job => some (enqueueWorkerJob s job choice)
  | .workerLoop => workerLoop s
  | .serve => some (s, [])
  | .runStreamExchange slot =>
    some (s, if choice = .threw then [.rearmConnection, .destroyGuard (some slot)]
      else [.release slot, .rearmConnection, .destroyGuard none])
  | .release slot => some (releaseSlot s slot, [])
  | .rearmConnection => some (s, [])
  | .destroyGuard slot =>
    match slot with
    | some slot => some (releaseSlot s slot, [])
    | none => some (s, [])
  | .stopState => some ({ s with workersStopping := true }, [])

end Operations

abbrev System := Threads State Op

structure Initial (system : System) : Prop where
  shared : system.shared = {}
  programs : ∃ workers stops, system.programs =
    [.runReactor] :: (List.replicate workers [.workerLoop] ++ List.replicate stops [.stopState])

def machine (opts : Options) : Machine System (Nat × Choice) := Threads.machine (exec opts) Initial

/-- The condition on a step: a stream is queued while the workers are not stopped, and the queue can
grow. -/
def queues (system : System) (action : Nat × Choice) : Bool :=
  match system.next action.1 with
  | some (.enqueueWorkerJob ⟨some _⟩) => !system.shared.workersStopping && action.2 != .threw
  | _ => true

def jobSlots (jobs : List PendingJob) : Multiset Nat := jobs.filterMap PendingJob.slot

def dispatching : Op → Multiset Nat
  | .enqueueWorkerJob ⟨some slot⟩ => {slot}
  | _ => 0

def executing : Op → Multiset Nat
  | .runStreamExchange slot | .release slot | .destroyGuard (some slot) => {slot}
  | _ => 0

open Threads (weigh)

def slotsAt (s : State) (ops : Multiset Op) : Multiset Nat :=
  jobSlots s.pendingJobs + weigh dispatching ops + weigh executing ops

theorem slotsAt_add (s : State) (ops others : Multiset Op) :
    slotsAt s (ops + others) = slotsAt s ops + (weigh dispatching others + weigh executing others) := by
  simp only [slotsAt, Threads.weigh_add]
  ac_rfl

inductive Effect (opts : Options) (s : State) (op : Op) (t : State) (ops : List Op) : Prop
  | keeps : t.activeStreams = s.activeStreams → t.acquisitions = s.acquisitions → t.released = s.released →
      slotsAt t ops = slotsAt s {op} → Effect opts s op t ops
  | takes : s.activeStreams < opts.maxConcurrentStreams → t.activeStreams = s.activeStreams + 1 →
      t.acquisitions = s.acquisitions + 1 → t.released = s.released →
      slotsAt t ops = s.acquisitions ::ₘ slotsAt s {op} → Effect opts s op t ops
  | gives (slot : Nat) : t.activeStreams = s.activeStreams - 1 → t.acquisitions = s.acquisitions →
      t.released = s.released ++ [slot] → slotsAt s {op} = slot ::ₘ slotsAt t ops → Effect opts s op t ops

section Steps

variable {opts : Options} {s t : State} {op : Op} {ops : List Op} {choice : Choice}

theorem Effect.same (h : weigh dispatching (ops : Multiset Op) + weigh executing (ops : Multiset Op) =
    dispatching op + executing op) : Effect opts s op s ops := by
  refine .keeps rfl rfl rfl ?_
  rw [slotsAt, slotsAt, add_assoc, h, Threads.weigh_singleton, Threads.weigh_singleton, add_assoc]

theorem Effect.released {slot : Nat} (h : executing op = {slot}) (hNone : dispatching op = 0) :
    Effect opts s op (releaseSlot s slot) [] := by
  refine .gives slot rfl rfl rfl ?_
  simp only [slotsAt, Threads.weigh_singleton, Threads.weigh_nil, h, hNone, releaseSlot, add_zero]
  rw [add_comm, Multiset.singleton_add]

theorem tryAcquireStreamSlot_effect (active : UInt64) (choice : Choice) :
    Effect opts s (.tryAcquireStreamSlot active) (tryAcquireStreamSlot opts s active choice).1
      (tryAcquireStreamSlot opts s active choice).2 := by
  unfold tryAcquireStreamSlot
  split
  · rename_i hLess
    split
    · rename_i hExchange
      obtain ⟨-, rfl⟩ := hExchange
      refine .takes hLess rfl rfl rfl ?_
      simp only [slotsAt, Threads.weigh_singleton, Threads.weigh_coe_cons, Threads.weigh_nil, dispatching,
        executing, add_zero, zero_add]
      rw [add_comm, Multiset.singleton_add]
    · exact .same (by simp [dispatching, executing])
  · exact .same (by simp [dispatching, executing])

theorem enqueueWorkerJob_effect {job : PendingJob}
    (hQueues : job.slot ≠ none → s.workersStopping = false ∧ choice ≠ .threw) :
    Effect opts s (.enqueueWorkerJob job) (enqueueWorkerJob s job choice).1 (enqueueWorkerJob s job choice).2 := by
  obtain ⟨slot⟩ := job
  unfold enqueueWorkerJob
  cases slot with
  | none =>
    have hSame : slotsAt { s with pendingJobs := s.pendingJobs ++ [⟨none⟩] } (([] : List Op) : Multiset Op) =
        slotsAt s {.enqueueWorkerJob ⟨none⟩} := by
      simp [slotsAt, jobSlots, dispatching, executing]
    split
    · exact .same (by simp [dispatching, executing])
    · split
      · exact .same (by simp [dispatching, executing])
      · exact .keeps rfl rfl rfl hSame
  | some slot =>
    obtain ⟨hRunning, hRoom⟩ := hQueues nofun
    rw [if_neg (by rw [hRunning]; exact nofun), if_neg hRoom]
    refine .keeps rfl rfl rfl ?_
    simp [slotsAt, jobSlots, dispatching, executing, ← Multiset.coe_add]

theorem workerLoop_effect (h : workerLoop s = some (t, ops)) : Effect opts s .workerLoop t ops := by
  unfold workerLoop at h
  split at h
  · split at h <;> cases h
    exact .same (by simp [dispatching, executing])
  · rename_i job rest hJobs
    cases h
    refine .keeps rfl rfl rfl ?_
    simp only [slotsAt, jobSlots, hJobs, Threads.weigh_singleton, startJob]
    cases hSlot : job.slot with
    | none => simp [dispatching, executing, hSlot]
    | some slot =>
      simp only [Threads.weigh_coe_cons, Threads.weigh_nil, dispatching, executing, List.filterMap_cons,
        hSlot, add_zero]
      rw [add_comm, Multiset.singleton_add, Multiset.cons_coe]

theorem exec_effect (h : exec opts s op choice = some (t, ops))
    (hQueues : ∀ slot, op = .enqueueWorkerJob ⟨some slot⟩ → s.workersStopping = false ∧ choice ≠ .threw) :
    Effect opts s op t ops := by
  cases op with
  | runReactor =>
    cases choice <;> cases h <;> exact .same (by simp [dispatching, executing])
  | dispatchStream =>
    simp only [exec, Option.some.injEq] at h
    split at h <;> cases h <;> exact .same (by simp [dispatching, executing])
  | tryAcquireStreamSlot active =>
    have hEffect := @tryAcquireStreamSlot_effect opts s active choice
    rwa [Option.some.inj h] at hEffect
  | streamLease =>
    cases h
    exact .same (by simp [dispatching, executing])
  | enqueueWorkerJob job =>
    have hCondition : job.slot ≠ none → s.workersStopping = false ∧ choice ≠ .threw := by
      intro hSlot
      obtain ⟨slot, hSome⟩ := Option.ne_none_iff_exists'.mp hSlot
      exact hQueues slot (congrArg Op.enqueueWorkerJob (congrArg PendingJob.mk hSome))
    have hEffect := @enqueueWorkerJob_effect opts s choice job hCondition
    rwa [Option.some.inj h] at hEffect
  | workerLoop => exact workerLoop_effect h
  | serve =>
    cases h
    exact .same (by simp [dispatching, executing])
  | runStreamExchange slot =>
    simp only [exec, Option.some.injEq, Prod.mk.injEq] at h
    obtain ⟨rfl, rfl⟩ := h
    refine .same ?_
    split <;> simp [dispatching, executing]
  | release slot =>
    cases h
    exact .released rfl rfl
  | rearmConnection =>
    cases h
    exact .same (by simp [dispatching, executing])
  | destroyGuard slot =>
    cases slot with
    | none =>
      cases h
      exact .same (by simp [dispatching, executing])
    | some slot =>
      cases h
      exact .released rfl rfl
  | stopState =>
    cases h
    exact .keeps rfl rfl rfl (by simp [slotsAt, dispatching, executing])

end Steps

structure Inv (opts : Options) (system : System) : Prop where
  slots : Multiset.range system.shared.acquisitions = ↑system.shared.released + slotsAt system.shared system.pending
  active : system.shared.activeStreams.toNat = (slotsAt system.shared system.pending).card
  limit : system.shared.activeStreams ≤ opts.maxConcurrentStreams

section Runs

variable {opts : Options} {system next : System}

theorem Inv.step {action : Nat × Choice} (h : Inv opts system) (hQueues : queues system action = true)
    (hStep : Threads.step (exec opts) system action = some next) : Inv opts next := by
  obtain ⟨op, ops, others, hNext, hTurn⟩ := Threads.step_cases hStep
  have hEffect := exec_effect hTurn.exec (by
    rintro slot rfl
    simpa [queues, hNext] using hQueues)
  have hSlots := h.slots
  have hActive := h.active
  have hLimit := h.limit
  rw [hTurn.before, ← Multiset.singleton_add, slotsAt_add] at hSlots hActive
  rw [UInt64.le_iff_toNat_le] at hLimit
  have hMax := opts.maxConcurrentStreams.toNat_lt
  cases hEffect with
  | keeps hCount hTaken hReleased hSame =>
    refine ⟨?_, ?_, ?_⟩
    · rw [hTaken, hReleased, hTurn.after, slotsAt_add, hSame, hSlots]
    · rw [hCount, hTurn.after, slotsAt_add, hSame, hActive]
    · rw [hCount]
      exact h.limit
  | takes hLess hCount hTaken hReleased hOne =>
    rw [UInt64.lt_iff_toNat_lt] at hLess
    have hNumber : next.shared.activeStreams.toNat = system.shared.activeStreams.toNat + 1 := by
      rw [hCount, UInt64.toNat_add, UInt64.toNat_one]
      omega
    refine ⟨?_, ?_, ?_⟩
    · rw [hTaken, hReleased, hTurn.after, slotsAt_add, hOne, Multiset.cons_add, Multiset.add_cons, ← hSlots,
        Multiset.range_succ]
    · rw [hNumber, hTurn.after, slotsAt_add, hOne, Multiset.cons_add, Multiset.card_cons, hActive]
    · rw [UInt64.le_iff_toNat_le, hNumber]
      exact hLess
  | gives slot hCount hTaken hReleased hOne =>
    rw [hOne, Multiset.cons_add] at hSlots hActive
    rw [Multiset.card_cons] at hActive
    have hNumber : next.shared.activeStreams.toNat = system.shared.activeStreams.toNat - 1 := by
      rw [hCount, UInt64.toNat_sub_of_le _ _ (by rw [UInt64.le_iff_toNat_le, UInt64.toNat_one]; omega),
        UInt64.toNat_one]
    refine ⟨?_, ?_, ?_⟩
    · rw [hTaken, hReleased, hTurn.after, slotsAt_add, hSlots, ← Multiset.coe_add, Multiset.coe_singleton, add_assoc,
        Multiset.singleton_add]
    · rw [hNumber, hTurn.after, slotsAt_add, hActive, Nat.add_sub_cancel]
    · rw [UInt64.le_iff_toNat_le, hNumber]
      omega

theorem Inv.initial (h : Initial system) : Inv opts system := by
  obtain ⟨workers, stops, hPrograms⟩ := h.programs
  have hNone : ∀ op ∈ system.pending, dispatching op = 0 ∧ executing op = 0 := by
    intro op hMem
    obtain ⟨program, hProgram, hOp⟩ := Threads.mem_pending.mp hMem
    rw [hPrograms, List.mem_cons, List.mem_append, List.mem_replicate, List.mem_replicate] at hProgram
    rcases hProgram with rfl | ⟨-, rfl⟩ | ⟨-, rfl⟩ <;> obtain rfl := List.mem_singleton.mp hOp <;> exact ⟨rfl, rfl⟩
  have hEmpty : slotsAt system.shared system.pending = 0 := by
    rw [slotsAt, Threads.weigh_eq_zero _ fun op hMem => (hNone op hMem).1,
      Threads.weigh_eq_zero _ fun op hMem => (hNone op hMem).2, h.shared]
    rfl
  refine ⟨?_, ?_, ?_⟩
  · rw [hEmpty, h.shared]
    rfl
  · rw [hEmpty, h.shared]
    rfl
  · rw [h.shared]
    exact UInt64.zero_le

theorem inv_of_reached (h : (machine opts).Reached (fun system action => queues system action = true) system) :
    Inv opts system :=
  h.invariant (I := Inv opts) (fun _ hInit => .initial hInit) fun _ _ _ _ hInv hQueues hStep => hInv.step hQueues hStep

end Runs

def queuedStreams (system : System) : Nat := system.shared.pendingJobs.countP PendingJob.isStream

def dispatchingStreams (system : System) : Nat := weigh (fun op => (dispatching op).card) system.pending

def executingStreams (system : System) : Nat := weigh (fun op => (executing op).card) system.pending

theorem card_jobSlots (jobs : List PendingJob) : (jobSlots jobs).card = jobs.countP PendingJob.isStream := by
  rw [jobSlots, Multiset.coe_card, List.countP_eq_length_filter]
  induction jobs with
  | nil => rfl
  | cons job rest ih =>
    rw [List.filterMap_cons, List.filter_cons, PendingJob.isStream]
    cases job.slot with
    | none => exact ih
    | some slot => exact congrArg Nat.succ ih

theorem card_weigh (slots : Op → Multiset Nat) (ops : Multiset Op) :
    (weigh slots ops).card = weigh (fun op => (slots op).card) ops := by
  induction ops using Multiset.induction with
  | empty => simp
  | cons op ops ih => rw [Threads.weigh_cons, Threads.weigh_cons, Multiset.card_add, ih]

/-- As long as every stream that takes a slot is queued: `active_streams` counts the streams that have a
slot, it never exceeds the limit, and every other slot has been released once. -/
theorem slots_conserved (opts : Options) (system : System)
    (hReached : (machine opts).Reached (fun system action => queues system action = true) system) :
    system.shared.activeStreams.toNat = queuedStreams system + dispatchingStreams system + executingStreams system ∧
    system.shared.activeStreams ≤ opts.maxConcurrentStreams ∧
    system.shared.released.Nodup ∧
    (∀ slot, slot ∈ system.shared.released ↔
      slot < system.shared.acquisitions ∧ slot ∉ slotsAt system.shared system.pending) ∧
    (queuedStreams system = 0 → dispatchingStreams system = 0 → executingStreams system = 0 →
      system.shared.activeStreams = 0) := by
  have hInv := inv_of_reached hReached
  have hCount : system.shared.activeStreams.toNat =
      queuedStreams system + dispatchingStreams system + executingStreams system := by
    rw [hInv.active, slotsAt, Multiset.card_add, Multiset.card_add, card_jobSlots, card_weigh, card_weigh]
    rfl
  have hNodup := Multiset.nodup_range system.shared.acquisitions
  rw [hInv.slots, Multiset.nodup_add] at hNodup
  obtain ⟨hReleased, -, hApart⟩ := hNodup
  refine ⟨hCount, hInv.limit, hReleased, fun slot => ?_, fun hQueued hDispatching hExecuting => ?_⟩
  · rw [← Multiset.mem_range, hInv.slots, Multiset.mem_add]
    constructor
    · exact fun hMem => ⟨.inl hMem, fun hHeld => Multiset.disjoint_left.mp hApart hMem hHeld⟩
    · exact fun ⟨hTaken, hFree⟩ => hTaken.resolve_right hFree
  · rw [← UInt64.toNat_inj, hCount, hQueued, hDispatching, hExecuting]
    rfl

def oneSlot : Options where
  maxConcurrentStreams := 1

def oneWorker : System := ⟨{}, [[.runReactor], [.workerLoop], [.stopState]]⟩

theorem oneWorker_initial : Initial oneWorker := ⟨rfl, 1, 1, rfl⟩

/-- `stop` comes between the acquisition and the queue: nothing has the slot, and no stream is admitted
any more. -/
theorem slot_lost : ∃ system, (machine oneSlot).Reachable system ∧ queuedStreams system = 0 ∧
    dispatchingStreams system = 0 ∧ executingStreams system = 0 ∧ system.shared.activeStreams = 1 :=
  Machine.exists_reachable_of_exec _
    [(0, .proceed), (0, .proceed), (0, .proceed), (0, .proceed), (2, .proceed), (0, .proceed)] oneWorker_initial
    (by decide)

/-- A stream that ends with an exception, while the next one is refused. -/
theorem slots_conserved_exception : ∃ system, (machine oneSlot).Reachable system ∧
    system.shared.acquisitions = 1 ∧ system.shared.activeStreams = 0 := by
  obtain ⟨system, hReached, hQueued, hDispatching, hExecuting, hTaken⟩ := Machine.exists_reached_of_exec
    (fun system : System => queuedStreams system = 0 ∧ dispatchingStreams system = 0 ∧ executingStreams system = 0 ∧
      system.shared.acquisitions = 1) queues
    [(0, .proceed), (0, .proceed), (0, .proceed), (0, .proceed), (0, .proceed), (1, .proceed), (0, .proceed),
      (0, .proceed), (0, .proceed), (1, .threw), (1, .proceed), (1, .proceed)]
    (M := machine oneSlot) oneWorker_initial (by decide)
  exact ⟨system, hReached.reachable, hTaken,
    (slots_conserved oneSlot system hReached).2.2.2.2 hQueued hDispatching hExecuting⟩

end EasyUds.Reactor.StreamSlots

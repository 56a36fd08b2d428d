import EasyUds.Server.Ledger

/-! # Every admitted request is released once

The counters of a connection are what its queued jobs, the operations that serve its requests and its
parser owe. Two exits break this. The exception of a busy answer under a continuation lease skips
`complete_regular_request`, and a worker's `close_connection` takes a reservation that the reactor is
about to hand over. Without them an idle connection has nothing accounted, so the next
`close_connection` erases it.
-/

namespace EasyUds.Server.Accounting

open Lib Server.Core Server.Steps Server.Outcomes Server.Footprint
open Server.Ownership Server.Reservation Server.Ledger

variable {opts : Options} {c : Nat}

/-- No busy answer under a lease throws, and no other thread takes the parser's reservation from a visit of
the reactor that goes on with it. -/
def releasesOnce (system : Threads State Op) (action : Nat × Choice) : Bool :=
  match system.next action.1 with
  | some (.threw _ (.continuation _)) => false
  | _ => closesAlone system action

structure Inv (opts : Options) (system : Threads State Op) : Prop where
  reservation : Reservation.Inv opts system
  counters : counters system.shared = wrap (owed opts system)

theorem guard_undisturbed {system : Threads State Op} {action : Nat × Choice} {op : Op}
    (hGuard : releasesOnce system action = true) (hNext : system.next action.1 = some op) :
    Undisturbed system op ∧ ∀ c n, op ≠ .threw c (.continuation n) := by
  have hThrew : ∀ c n, op ≠ .threw c (.continuation n) := by
    rintro k n rfl
    simp [releasesOnce, hNext] at hGuard
  refine ⟨undisturbed_of_alone ?_ hNext, hThrew⟩
  unfold releasesOnce at hGuard
  split at hGuard
  · cases hGuard
  · exact hGuard

section Step

variable {system later : Threads State Op} {op : Op} {choice : Choice} {ops : List Op} {others : Multiset Op}

theorem owed_next {gained spent : Debts} (hFlow : Flow opts system.shared later.shared op ops gained spent)
    (hBefore : system.pending = op ::ₘ others) (hAfter : later.pending = ↑ops + others) :
    owed opts later + spent = owed opts system + gained := by
  unfold owed
  rw [hBefore, hAfter, Threads.weigh_cons, Threads.weigh_add]
  calc _ = Threads.weigh (debt opts) (ops : Multiset Op) + queued later.shared + spent +
        Threads.weigh (debt opts) others := by abel
    _ = debt opts op + queued system.shared + gained + Threads.weigh (debt opts) others := by rw [hFlow.balance]
    _ = _ := by abel

theorem Inv.next (hInv : Inv opts system) (hOwners : Ownership.Inv opts system)
    (hUndisturbed : Undisturbed system op) (hThrew : ∀ c n, op ≠ .threw c (.continuation n))
    (hTurn : Turn opts system op choice ops others later) : Inv opts later := by
  have hOp := hTurn.mem
  refine ⟨hInv.reservation.next hOwners hUndisturbed hTurn, ?_⟩
  obtain ⟨gained, spent, hFlow⟩ :=
    exec_flow hTurn.exec ⟨hInv.reservation.parsing op hOp, hOwners.sane op hOp, hThrew⟩
  have hCounters := hFlow.counters
  rw [hInv.counters, ← wrap_add, ← owed_next hFlow hTurn.before hTurn.after, wrap_add] at hCounters
  exact add_right_cancel hCounters

end Step

theorem Inv.start {system : Threads State Op} (h : Initial system) : Inv opts system := by
  refine ⟨.start h, ?_⟩
  have hPending : Threads.weigh (debt opts) system.pending = 0 := by
    refine Threads.weigh_eq_zero _ fun op hOp => ?_
    obtain rfl | rfl | rfl | rfl := initial_pending h hOp <;> rfl
  unfold owed
  rw [hPending, h.1]
  funext k
  rfl

/-- The operations that serve a request of a connection, or that carry its bytes. -/
def serves (c : Nat) : Op → Bool
  | .releaseConnectionRequest k _ | .releaseConnectionRequestBytes k _ | .subRequests k _ => k == c
  | .reserveTotal k _ _ | .unreserveConnection k _ _ | .payloadReserved k _ _ | .streamLease k _ _ => k == c
  | .enqueueWorkerJob k _ _ _ | .enqueueSerializedJob k _ _ _ | .completeRegularRequest k _ _ => k == c
  | .addRequests k _ _ | .addBytes k _ _ | .addTotal k _ _ | .serveFixedRequest k _ => k == c
  | .writeFixedResponse k _ | .refreshConnectionEvents k (.write _) | .threw k _ => k == c
  | .runStreamExchange k _ _ | .execute k | .subSerialized k _ => k == c
  | _ => false

theorem debt_of_not_serves {op : Op} (h : serves c op = false) : debt opts op c = 0 := by
  unfold debt
  split
  all_goals first | rfl | simp only [serves, beq_eq_false_iff_ne, ne_eq] at h
  all_goals simp [active, requests, bytes, serialized, held, ite_apply, Ne.symm h]

theorem sum_apply_of_zero {Job : Type} {f : Job → Debts} {jobs : List Job} (h : ∀ job ∈ jobs, f job c = 0) :
    (jobs.map f).sum c = 0 := by
  induction jobs with
  | nil => rfl
  | cons job rest ih =>
    obtain ⟨hFirst, hRest⟩ := List.forall_mem_cons.mp h
    rw [List.map_cons, List.sum_cons, Pi.add_apply, hFirst, ih hRest, add_zero]

theorem weigh_apply_of_zero {ops : Multiset Op} (h : ∀ op ∈ ops, debt opts op c = 0) :
    Threads.weigh (debt opts) ops c = 0 := by
  induction ops using Multiset.induction with
  | empty => rfl
  | cons op rest ih =>
    rw [Threads.weigh_cons, Pi.add_apply, h op (Multiset.mem_cons_self _ _),
      ih fun o ho => h o (Multiset.mem_cons_of_mem ho), add_zero]

theorem jobDebt_other {job : PendingJob} (h : job.connection ≠ c) : jobDebt job c = 0 := by
  unfold jobDebt
  split
  · split
    · simp [bytes, Ne.symm h]
    · rfl
  · simp [active, requests, bytes, Ne.symm h]

theorem serializedDebt_other {job : SerializedJob} (h : job.connection ≠ c) : serializedDebt job c = 0 := by
  simp [serializedDebt, serialized, requests, bytes, Ne.symm h]

theorem owed_idle {system : Threads State Op} (hJobs : ∀ job ∈ system.shared.pendingJobs, job.connection ≠ c)
    (hSerialized : ∀ job ∈ system.shared.pendingSerialized, job.connection ≠ c)
    (hServing : ∀ op ∈ system.pending, serves c op = false) :
    owed opts system c = (0, 0, 0, (system.shared.connections c).reservedRequestBytes.toNat) := by
  unfold owed queued
  simp only [Pi.add_apply]
  rw [weigh_apply_of_zero fun op hOp => debt_of_not_serves (hServing op hOp),
    sum_apply_of_zero fun job hJob => jobDebt_other (hJobs job hJob),
    sum_apply_of_zero fun job hJob => serializedDebt_other (hSerialized job hJob), zero_add, zero_add, zero_add]
  rfl

/-- When nothing of a connection is queued or served, its counters are those of its parser's reservation,
and `close_connection` erases it. -/
theorem idle_connection_released {system : Threads State Op}
    (h : (machine opts).Reached (fun system action => releasesOnce system action = true) system) (c : Nat)
    (hJobs : ∀ job ∈ system.shared.pendingJobs, job.connection ≠ c)
    (hSerialized : ∀ job ∈ system.shared.pendingSerialized, job.connection ≠ c)
    (hServing : ∀ op ∈ system.pending, serves c op = false) :
    (system.shared.connections c).activeRegular = 0 ∧ (system.shared.connections c).pendingSerialized = 0 ∧
      (system.shared.connections c).inflightRequests = 0 ∧
      (system.shared.connections c).inflightRequestBytes = (system.shared.connections c).reservedRequestBytes ∧
      c ∉ (close system.shared c).table := by
  have hInv : Inv opts system :=
    h.invariant (fun _ => Inv.start) fun _ _ _ hReached hInv hGuard hStep => by
      obtain ⟨op, ops, others, hNext, hTurn⟩ := Threads.step_cases hStep
      obtain ⟨hUndisturbed, hThrew⟩ := guard_undisturbed hGuard hNext
      exact hInv.next (reached_inv hReached) hUndisturbed hThrew hTurn
  have hEntry := congrFun hInv.counters c
  rw [wrap, owed_idle hJobs hSerialized hServing] at hEntry
  simp only [counters, entry, Prod.mk.injEq, UInt64.ofNat_toNat] at hEntry
  obtain ⟨hActive, hPending, hRequests, hBytes⟩ := hEntry
  refine ⟨hActive, hPending, hRequests, hBytes, ?_⟩
  unfold close
  split
  · rw [State.update_table, if_neg (by simp [hActive, hPending])]
    simp
  · assumption

def domainOccupied : List (Nat × Choice) :=
  performs 0 [.accept 0 true, .accept 1 true] ++ readRequest 1 10 (some 7) ++ performs 0 [.admitted false] ++
    leaveConsume ++ readRequest 0 10 none ++ performs 0 [.proceed] ++ leaveConsume ++
    performs 1 [.proceed, .proceed, .sent]

/-- The worker completes the request, takes the continuation lease, reads a request of domain 7, gives the
descriptor back and finds the domain busy. -/
def busyUnderLease : List (Nat × Choice) :=
  domainOccupied ++
    performs 1 (List.replicate 8 Choice.proceed ++ [Choice.request 20 true] ++ List.replicate 6 Choice.proceed ++
      [Choice.rearmed false, .serialized 7, .busy])

theorem idle_connection_released_busy : ∃ system,
    (machine roomy).Reached (fun system action => releasesOnce system action = true) system ∧
      (system.shared.connections 0).activeRegular = 0 ∧ 0 ∉ (close system.shared 0).table := by
  obtain ⟨system, hReached, hPrograms, hJobs, hSerialized⟩ := Machine.exists_reached_of_exec
    (fun system => system.programs = [[.runReactor], [.workerLoop]] ∧ system.shared.pendingJobs = [] ∧
      system.shared.pendingSerialized = [⟨1, 10, 7⟩]) releasesOnce
    (busyUnderLease ++ performs 1 (Choice.sent :: List.replicate 8 Choice.proceed ++
      [Choice.handOver, .proceed, .proceed, .rearmed false]))
    (M := machine roomy) oneWorker_initial (by decide)
  obtain ⟨hActive, -, -, -, hErased⟩ := idle_connection_released hReached 0 (by simp [hJobs]) (by simp [hSerialized])
    (by simp [Threads.pending, hPrograms, serves])
  exact ⟨system, hReached, hActive, hErased⟩

/-- The peer is gone when the busy answer is sent: nothing of the connection is in flight, but a request
stays accounted and the connection is not erased. -/
theorem busy_answer_leaks : ∃ system, (machine roomy).Reachable system ∧
    system.programs = [[.runReactor], [.workerLoop]] ∧ system.shared.pendingJobs = [] ∧
    system.shared.pendingSerialized = [⟨1, 10, 7⟩] ∧ (system.shared.connections 0).closing = true ∧
    (system.shared.connections 0).reservedRequestBytes = 0 ∧
    (system.shared.connections 0).activeRegular = 1 ∧ (system.shared.connections 0).inflightRequests = 1 ∧
    (system.shared.connections 0).inflightRequestBytes = 20 ∧ 0 ∈ (close system.shared 0).table :=
  Machine.exists_reachable_of_exec _ (busyUnderLease ++ performs 1 [.sendFailed, .proceed, .proceed, .proceed])
    oneWorker_initial (by decide)

end EasyUds.Server.Accounting

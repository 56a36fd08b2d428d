import Mathlib.Tactic.LinearCombination
import Mathlib.Tactic.Ring
import EasyUds.Lib.Totals
import EasyUds.Server.Accounting

/-! # The gauges of the server

What `total_inflight_request_bytes` and `active_streams` stand for while the threads run: the first one
is the sum over the connections, up to the bytes that are under way between two counters, and the second
one counts the streams that are about to be queued, queued or executed. Differences may wrap, so the
equations are those of `size_t`.
-/

namespace EasyUds.Server.Gauges

open Lib Server.Core Server.Steps Server.Outcomes Server.Footprint

open Threads (weigh)

/-- Bytes that the connection counts and the total does not yet, or not any more. -/
def lag : Op → UInt64
  | .reserveTotal _ _ n | .unreserveConnection _ _ n | .addTotal _ n _ => n
  | _ => 0

/-- Bytes that are taken from the connection and not yet from the total. -/
def trail : Op → UInt64
  | .subRequests _ n | .subTotal _ n => n
  | _ => 0

/-- A stream that has its slot and is not queued, or is executed. -/
def slot : Op → UInt64
  | .streamLease .. | .enqueueWorkerJob _ _ _ true | .runStreamExchange .. => 1
  | _ => 0

def streams (jobs : List PendingJob) : UInt64 := (jobs.map fun job => if job.isStream then 1 else 0).sum

def noisy : Op → Bool
  | .reserveTotal .. | .unreserveConnection .. | .addTotal .. | .subRequests .. | .subTotal .. => true
  | .streamLease .. | .enqueueWorkerJob _ _ _ true | .runStreamExchange .. => true
  | _ => false

def producer : Op → Bool
  | .releaseConnectionRequest .. | .releaseConnectionRequestBytes .. | .subRequests .. => true
  | .reserveConnection .. | .reserveTotal .. | .addBytes .. => true
  | .dispatchStream .. | .streamLease .. | .runStreamExchange .. => true
  | .workerLoop | .stopWorkers | .stopSerialized => true
  | _ => false

def Level (s t : State) : Prop :=
  t.activeStreams = s.activeStreams ∧ t.workersStopping = s.workersStopping ∧
    t.serializedStopping = s.serializedStopping

structure Quiet (s t : State) (ops : List Op) : Prop where
  level : Level s t
  ops : ∀ o ∈ ops, noisy o = false

variable {opts : Options} {s t : State} {op : Op} {choice : Choice} {ops : List Op}

theorem Level.trans {u : State} (h : Level s t) (hNext : Level t u) : Level s u :=
  ⟨hNext.1.trans h.1, hNext.2.1.trans h.2.1, hNext.2.2.trans h.2.2⟩

theorem refresh_level (s : State) (c : Nat) (modified : Bool) : Level s (refresh s c modified).1 := by
  obtain ⟨-, h⟩ | ⟨-, -, h⟩ | ⟨-, h⟩ | ⟨-, h⟩ := refresh_cases s c modified <;> rw [h] <;> exact ⟨rfl, rfl, rfl⟩

theorem account_level (opts : Options) (s : State) (c : Nat) (n : UInt64) :
    Level s (accountConnectionRequest opts s c n) := by
  unfold accountConnectionRequest
  split <;> exact ⟨rfl, rfl, rfl⟩

theorem exec_level (h : exec opts s op choice = some (t, ops)) (hPlain : producer op = false) : Level s t := by
  cases exec_outcome h with
  | @refreshConnectionEvents c site modified =>
    refine (refresh_level s c modified).trans ?_
    cases site with
    | pause r finish =>
      dsimp only [afterRefresh]
      split <;> exact ⟨rfl, rfl, rfl⟩
    | _ => exact ⟨rfl, rfl, rfl⟩
  | closeConnection =>
    unfold close
    split <;> exact ⟨rfl, rfl, rfl⟩
  | queueRequest => exact Level.trans ⟨rfl, rfl, rfl⟩ (account_level opts _ _ _)
  | accept c added hAccept =>
    obtain ⟨-, -, -, rfl⟩ := acceptConnection_cases hAccept
    exact ⟨rfl, rfl, rfl⟩
  | reactorDone =>
    unfold reactorDone
    dsimp only
    split <;> exact ⟨rfl, rfl, rfl⟩
  | leaseRefused hSame | continueLeaves hSame => obtain rfl | rfl := hSame <;> exact ⟨rfl, rfl, rfl⟩
  | @admitted c n route site latestWins =>
    cases site with
    | dispatch r => exact Level.trans ⟨rfl, rfl, rfl⟩ (account_level opts _ c n)
    | continuation => exact ⟨rfl, rfl, rfl⟩
  | _ => first | cases hPlain; done | exact ⟨rfl, rfl, rfl⟩

theorem exec_quiet (h : exec opts s op choice = some (t, ops)) (hPlain : producer op = false) : Quiet s t ops := by
  refine ⟨exec_level h hPlain, fun o ho => ?_⟩
  cases exec_next h o ho with
  | _ => first | rfl | cases hPlain

theorem weightless (h : noisy op = false) : lag op = 0 ∧ trail op = 0 ∧ slot op = 0 := by
  refine ⟨?_, ?_, ?_⟩
  · unfold lag
    split <;> first | rfl | cases h
  · unfold trail
    split <;> first | rfl | cases h
  · unfold slot
    split <;> first | rfl | cases h

theorem Quiet.bytes (h : Quiet s t ops) :
    weigh lag (ops : Multiset Op) = 0 ∧ weigh trail (ops : Multiset Op) = 0 :=
  ⟨Threads.weigh_eq_zero _ fun o ho => (weightless (h.ops o ho)).1,
    Threads.weigh_eq_zero _ fun o ho => (weightless (h.ops o ho)).2.1⟩

theorem Quiet.slots (h : Quiet s t ops) : weigh slot (ops : Multiset Op) = 0 :=
  Threads.weigh_eq_zero _ fun o ho => (weightless (h.ops o ho)).2.2

open scoped UInt64.CommRing

def inflight (s : State) (c : Nat) : UInt64 := (s.connections c).inflightRequestBytes

theorem inflight_update {c k : Nat} {f : Connection → Connection}
    (hf : ∀ l, (f l).inflightRequestBytes = l.inflightRequestBytes) :
    inflight (s.update c f) k = inflight s k := by
  rw [inflight, State.update_apply]
  split
  · exact hf _
  · rfl

/-- What an operation moves between the total, one connection and the operations under way. -/
structure Moves (s t : State) (op : Op) (ops : List Op) (k : Nat) : Prop where
  others : ∀ c, c ≠ k → inflight t c = inflight s c
  moved : t.totalInflightRequestBytes + weigh lag (ops : Multiset Op) + (inflight s k + trail op) =
    s.totalInflightRequestBytes + lag op + (inflight t k + weigh trail (ops : Multiset Op))

theorem Moves.update {k : Nat} {f : Connection → Connection}
    (hMoved : weigh lag (ops : Multiset Op) + (inflight s k + trail op) =
      lag op + ((f (s.connections k)).inflightRequestBytes + weigh trail (ops : Multiset Op))) :
    Moves s (s.update k f) op ops k := by
  refine ⟨fun c hc => by rw [inflight, State.update_other _ _ hc, inflight], ?_⟩
  rw [inflight, inflight, State.update_self, State.update_total]
  rw [inflight] at hMoved
  linear_combination hMoved

theorem Moves.still (hOps : weigh lag (ops : Multiset Op) = 0 ∧ weigh trail (ops : Multiset Op) = 0)
    (hOp : lag op = 0 ∧ trail op = 0) (hInflight : ∀ c, inflight t c = inflight s c)
    (hTotal : t.totalInflightRequestBytes = s.totalInflightRequestBytes) : Moves s t op ops 0 := by
  refine ⟨fun c _ => hInflight c, ?_⟩
  rw [hOps.1, hOps.2, hOp.1, hOp.2, hInflight, hTotal]

theorem account_moves (opts : Options) (s : State) (c : Nat) (n : UInt64) :
    (∀ k, k ≠ c → inflight (accountConnectionRequest opts s c n) k = inflight s k) ∧
      (accountConnectionRequest opts s c n).totalInflightRequestBytes + inflight s c =
        s.totalInflightRequestBytes + inflight (accountConnectionRequest opts s c n) c := by
  unfold accountConnectionRequest
  split
  · exact ⟨fun k hk => by rw [inflight, State.update_other _ _ hk, inflight], by simp [inflight]⟩
  · refine ⟨fun k hk => by rw [inflight, State.update_other _ _ hk, inflight], ?_⟩
    simp only [inflight, State.update_self, State.update_total]
    ring

theorem moves_kept (h : exec opts s op choice = some (t, ops))
    (hOps : weigh lag (ops : Multiset Op) = 0 ∧ weigh trail (ops : Multiset Op) = 0)
    (hOp : lag op = 0 ∧ trail op = 0) (hAccount : .account ∉ writes op) (hTotal : .total ∉ writes op) :
    ∃ k, Moves s t op ops k :=
  ⟨0, .still hOps hOp (fun c => ((exec_keeps h).account c hAccount).2.2.2) ((exec_keeps h).total hTotal)⟩

theorem Moves.account {before : State} {c : Nat} {n : UInt64}
    (hOps : weigh lag (ops : Multiset Op) = 0 ∧ weigh trail (ops : Multiset Op) = 0) (hOp : lag op = 0 ∧ trail op = 0)
    (hInflight : ∀ k, inflight before k = inflight s k)
    (hTotal : before.totalInflightRequestBytes = s.totalInflightRequestBytes) :
    Moves s (accountConnectionRequest opts before c n) op ops c := by
  obtain ⟨hOthers, hMoved⟩ := account_moves opts before c n
  refine ⟨fun k hk => (hOthers k hk).trans (hInflight k), ?_⟩
  rw [hOps.1, hOps.2, hOp.1, hOp.2]
  rw [hInflight, hTotal] at hMoved
  linear_combination hMoved

theorem exec_moves (h : exec opts s op choice = some (t, ops)) : ∃ k, Moves s t op ops k := by
  cases exec_outcome h with
  | releaseConnectionRequest | releaseConnectionRequestBytes | subRequests | unreserveConnection =>
    exact ⟨_, .update (by simp [lag, trail, inflight])⟩
  | reserveConnection | addBytes =>
    refine ⟨_, .update ?_⟩
    simp [lag, trail, inflight]
    ring
  | subTotal | reserveTotal => exact ⟨0, fun _ _ => rfl, by simp [lag, trail, inflight]⟩
  | releaseNothing | connectionFull | totalFull => exact ⟨0, fun _ _ => rfl, by simp [lag, trail]⟩
  | @addTotal c n session =>
    refine ⟨c, fun k hk => ?_, ?_⟩
    · rw [inflight, State.update_other _ _ hk, inflight]
    · simp [lag, trail, inflight]
  | completeRegularRequest | completeAdmitted | addActive | addRequests | subSerialized =>
    exact ⟨0, .still (exec_quiet h rfl).bytes ⟨rfl, rfl⟩ (fun _ => inflight_update fun _ => rfl) rfl⟩
  | jobRefused | jobFailed | queueStream | allocationFailed | serializedStopping | serializedBusy =>
    exact ⟨0, .still (exec_quiet h rfl).bytes ⟨rfl, rfl⟩ (fun _ => rfl) rfl⟩
  | queueRequest =>
    exact ⟨_, .account (exec_quiet h rfl).bytes ⟨rfl, rfl⟩ (fun _ => inflight_update fun _ => rfl) rfl⟩
  | @admitted c n route site =>
    have hOps := (exec_quiet h rfl).bytes
    cases site with
    | dispatch r => exact ⟨c, .account hOps ⟨rfl, rfl⟩ (fun _ => inflight_update fun _ => rfl) rfl⟩
    | continuation =>
      dsimp only [admitJob] at hOps ⊢
      exact ⟨0, .still hOps ⟨rfl, rfl⟩ (fun _ => inflight_update fun _ => rfl) rfl⟩
  | _ =>
    refine moves_kept h ?_ ⟨rfl, rfl⟩ (by simp [writes]) (by simp [writes])
    first | exact (exec_quiet h rfl).bytes | simp [lag, trail]

def Holds (s t : State) (op : Op) (ops : List Op) : Prop :=
  t.activeStreams + (slot op + streams s.pendingJobs) =
    s.activeStreams + (weigh slot (ops : Multiset Op) + streams t.pendingJobs)

theorem holds_kept (h : exec opts s op choice = some (t, ops)) (hActive : t.activeStreams = s.activeStreams)
    (hSlots : weigh slot (ops : Multiset Op) = slot op) (hJobs : .jobs ∉ writes op) : Holds s t op ops := by
  rw [Holds, hActive, hSlots, (exec_keeps h).jobs hJobs]

theorem account_jobs (opts : Options) (s : State) (c : Nat) (n : UInt64) :
    (accountConnectionRequest opts s c n).pendingJobs = s.pendingJobs := by
  unfold accountConnectionRequest
  split <;> rfl



@[simp] theorem update_activeStreams {c : Nat} {f : Connection → Connection} :
    (s.update c f).activeStreams = s.activeStreams := rfl

/-- Only a stream whose job is not queued loses its slot. -/
theorem exec_holds (h : exec opts s op choice = some (t, ops))
    (hQueued : ∀ c r n, op = .enqueueWorkerJob c r n true → t.pendingJobs ≠ s.pendingJobs) : Holds s t op ops := by
  cases exec_outcome h with
  | dispatchStream =>
    simp only [Holds, slot, update_activeStreams, State.update_pendingJobs, Threads.weigh_coe_cons, Threads.weigh_nil]
    ring
  | streamRefused => simp [Holds, slot, State.setClosing]
  | takeStream job rest hJobs hStream =>
    rw [Holds, hJobs]
    simp [slot, streams, hStream]
  | takeRequest job rest hJobs hRegular =>
    rw [Holds, hJobs]
    simp [slot, streams, hRegular]
  | exchangeReserved hSame | exchange hSame =>
    obtain rfl | rfl := hSame
    all_goals
      simp only [Holds, slot, State.setClosing, update_activeStreams, State.update_pendingJobs, Threads.weigh_coe_cons,
        Threads.weigh_nil]
      ring
  | @jobRefused c r n isStream =>
    cases isStream with
    | true => exact absurd rfl (hQueued c r n rfl)
    | false => rw [Holds, (exec_quiet h rfl).slots]; rfl
  | jobFailed => rw [Holds, (exec_quiet h rfl).slots]; rfl
  | queueStream =>
    simp [Holds, slot, streams]
    ring
  | queueRequest =>
    rw [Holds, (exec_quiet h rfl).slots, (exec_quiet h rfl).level.1]
    simp [slot, streams, account_jobs]
  | _ =>
    first
    | exact holds_kept h (exec_quiet h rfl).level.1 (exec_quiet h rfl).slots (by simp [writes])
    | simp [Holds, slot]

/-- Jobs may still come or are queued, so `worker_loop` has not ended in every worker. -/
def Demand (s : State) : Prop := s.workersStopping = false ∨ s.pendingJobs ≠ []

def SerializedDemand (s : State) : Prop := s.serializedStopping = false ∨ s.pendingSerialized ≠ []

theorem exec_stopping (h : exec opts s op choice = some (t, ops)) :
    (t.workersStopping = false → s.workersStopping = false) ∧
      (t.serializedStopping = false → s.serializedStopping = false) := by
  cases exec_outcome h with
  | stopWorkers => exact ⟨nofun, id⟩
  | stopSerialized => exact ⟨id, nofun⟩
  | exchangeReserved hSame | exchange hSame => obtain rfl | rfl := hSame <;> exact ⟨id, id⟩
  | _ =>
    first
    | exact ⟨(exec_level h rfl).2.1.symm.trans, (exec_level h rfl).2.2.symm.trans⟩
    | exact ⟨id, id⟩

theorem demand_of_next (h : exec opts s op choice = some (t, ops)) (hDemand : Demand t) : Demand s := by
  refine hDemand.elim (fun hOpen => .inl ((exec_stopping h).1 hOpen)) fun hJobs => ?_
  by_cases hField : .jobs ∈ writes op
  · cases op with
    | enqueueWorkerJob c r n isStream =>
      cases exec_outcome h with
      | jobRefused | jobFailed => exact .inr hJobs
      | queueStream hOpen | queueRequest hOpen => exact .inl hOpen
    | workerLoop =>
      obtain ⟨job, rest, hQueue, -, -⟩ | ⟨rfl, -⟩ := workerLoop_cases h
      · exact .inr (by simp [hQueue])
      · exact .inr hJobs
    | _ => simp [writes] at hField
  · exact .inr ((exec_keeps h).jobs hField ▸ hJobs)

theorem workerLoop_stays (h : workerLoop s choice = some (t, ops)) : .workerLoop ∈ ops ∨ ¬ Demand t := by
  unfold workerLoop at h
  split at h
  · split at h
    · cases h
    · rename_i job rest hJobs
      cases h
      refine .inl ?_
      unfold startJob
      split <;> simp
  · split at h
    · rename_i hLeave
      cases h
      exact .inr fun hDemand => hDemand.elim (fun hOpen => by simp [hLeave.1] at hOpen) fun hJobs => hJobs hLeave.2
    · cases h
  · cases h

theorem serializedWorkerLoop_stays (h : serializedWorkerLoop s choice = some (t, ops)) :
    .serializedWorkerLoop ∈ ops ∨ (t = s ∧ s.serializedStopping = true ∧ ∀ index, choice ≠ .take index) := by
  unfold serializedWorkerLoop at h
  split at h
  · obtain ⟨job, -, hNext⟩ := Option.map_eq_some_iff.mp h
    cases hNext
    exact .inl (by simp)
  · split at h
    · rename_i hStopping
      cases h
      exact .inr ⟨rfl, hStopping, nofun⟩
    · cases h
  · cases h

theorem admission_open {c route : Nat} {n : UInt64} {site : AdmissionSite}
    (h : enqueueSerializedJob opts s c n route site choice = some (t, ops)) : t = s ∨ s.serializedStopping = false := by
  unfold enqueueSerializedJob at h
  split at h
  · cases h
    exact .inl rfl
  · split at h
    · cases h
      exact .inl rfl
    · cases h
  · split at h
    · cases h
    · cases h
      exact .inl rfl
  · split at h
    · cases h
    · rename_i hRunning
      simp only [not_or, Bool.not_eq_true] at hRunning
      exact .inr hRunning.1
  · cases h

theorem serializedDemand_of_next (h : exec opts s op choice = some (t, ops)) (hDemand : SerializedDemand t) :
    SerializedDemand s := by
  refine hDemand.elim (fun hOpen => .inl ((exec_stopping h).2 hOpen)) fun hJobs => ?_
  by_cases hField : .serializedJobs ∈ writes op
  · cases op with
    | enqueueSerializedJob c n route site =>
      obtain rfl | hOpen := admission_open h
      · exact .inr hJobs
      · exact .inl hOpen
    | serializedWorkerLoop =>
      obtain ⟨index, job, hJob, -, -⟩ | ⟨rfl, -⟩ := serializedWorkerLoop_cases h
      · refine .inr fun hNil => ?_
        rw [hNil] at hJob
        cases hJob
      · exact .inr hJobs
    | _ => simp [writes] at hField
  · exact .inr ((exec_keeps h).serializedJobs hField ▸ hJobs)

def RequestBytes (system : Threads State Op) : Prop :=
  Totals (inflight system.shared)
    (system.shared.totalInflightRequestBytes + weigh lag system.pending - weigh trail system.pending)

def StreamSlots (system : Threads State Op) : Prop :=
  system.shared.activeStreams = weigh slot system.pending + streams system.shared.pendingJobs

section Next

variable {system later : Threads State Op} {others : Multiset Op} (hTurn : Turn opts system op choice ops others later)
include hTurn

theorem RequestBytes.next (h : RequestBytes system) : RequestBytes later := by
  obtain ⟨k, hMoves⟩ := exec_moves hTurn.exec
  have hLater := Totals.change h k hMoves.others
  unfold RequestBytes
  rw [hTurn.before, Threads.weigh_cons, Threads.weigh_cons] at hLater
  rw [hTurn.after, Threads.weigh_add, Threads.weigh_add]
  have hMoved := hMoves.moved
  convert hLater using 1
  linear_combination hMoved

theorem StreamSlots.next (h : StreamSlots system)
    (hQueued : ∀ c r n, op = .enqueueWorkerJob c r n true → later.shared.pendingJobs ≠ system.shared.pendingJobs) :
    StreamSlots later := by
  have hHolds := exec_holds hTurn.exec hQueued
  unfold StreamSlots at h ⊢
  unfold Holds at hHolds
  rw [hTurn.before, Threads.weigh_cons] at h
  rw [hTurn.after, Threads.weigh_add]
  linear_combination hHolds + h

theorem demand_next (h : Demand system.shared → .workerLoop ∈ system.pending) (hDemand : Demand later.shared) :
    .workerLoop ∈ later.pending := by
  rw [hTurn.after, Multiset.mem_add]
  have hLoop := h (demand_of_next hTurn.exec hDemand)
  rw [hTurn.before, Multiset.mem_cons] at hLoop
  obtain rfl | hOthers := hLoop
  · exact .inl ((workerLoop_stays hTurn.exec).resolve_right (not_not_intro hDemand))
  · exact .inr hOthers

end Next

end EasyUds.Server.Gauges

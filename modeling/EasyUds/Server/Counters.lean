import EasyUds.Server.Accounting

/-! # What a counter covers

`active_regular`, `pending_serialized` and `inflight_requests` of a connection are never below what its
requests still have to take from them. The exception of a busy answer under a lease leaves a counter too
high, and a worker's `close_connection` puts the bytes of a reservation in doubt, but nothing makes one of
these three too low. So a decrement never wraps, and a counter at zero means that nothing is in flight.
-/

namespace EasyUds.Server.Counters

open Lib Server.Core Server.Steps Server.Outcomes Server.Footprint
open Server.Ownership Server.Ledger

inductive Counter
  | active
  | serialized
  | requests
  deriving DecidableEq, Repr

variable {system : Threads State Op}

namespace Counter

def value (k : Connection) : Counter → UInt64
  | .active => k.activeRegular
  | .serialized => k.pendingSerialized
  | .requests => k.inflightRequests

def part (e : Entry) : Counter → Nat
  | .active => e.1
  | .serialized => e.2.1
  | .requests => e.2.2.1

@[simp] theorem part_add (counter : Counter) (x y : Entry) :
    counter.part (x + y) = counter.part x + counter.part y := by
  cases counter <;> rfl

@[simp] theorem part_zero (counter : Counter) : counter.part 0 = 0 := by
  cases counter <;> rfl

def spends : Counter → Op → Option Nat
  | .active, .completeRegularRequest c _ _ => some c
  | .serialized, .subSerialized c _ => some c
  | .requests, .subRequests c _ => some c
  | _, _ => none

def gains : Counter → Op → Option Nat
  | .active, .addActive c _ _ => some c
  | .active, .enqueueWorkerJob c _ _ false => some c
  | .serialized, .enqueueSerializedJob c _ _ _ => some c
  | .requests, .addRequests c _ _ => some c
  | .requests, .enqueueWorkerJob c _ _ false => some c
  | .requests, .enqueueSerializedJob c _ _ (.dispatch _) => some c
  | _, _ => none

end Counter

variable {opts : Options} {s t : State} {op : Op} {choice : Choice} {ops : List Op} {c : Nat} {counter : Counter}

theorem part_bytes (k : Nat) (n : UInt64) : counter.part (bytes k n c) = 0 := by
  unfold bytes
  rw [Pi.single_apply]
  split <;> cases counter <;> rfl

theorem part_charged (k : Nat) (n : UInt64) : counter.part (charged opts k n c) = 0 := by
  unfold charged
  split
  · exact counter.part_zero
  · exact part_bytes k n

theorem part_held (k : Nat) (n : UInt64) : counter.part (held opts k n c) = 0 := by
  unfold held
  split
  · exact part_bytes k n
  · exact counter.part_zero

theorem part_active (k : Nat) :
    counter.part (active k c) = if counter = .active ∧ k = c then 1 else 0 := by
  unfold active
  rw [Pi.single_apply]
  cases counter <;> by_cases hc : c = k <;> simp [hc, Counter.part, eq_comm]

theorem part_serialized (k : Nat) :
    counter.part (serialized k c) = if counter = .serialized ∧ k = c then 1 else 0 := by
  unfold serialized
  rw [Pi.single_apply]
  cases counter <;> by_cases hc : c = k <;> simp [hc, Counter.part, eq_comm]

theorem part_requests (k : Nat) :
    counter.part (requests k c) = if counter = .requests ∧ k = c then 1 else 0 := by
  unfold requests
  rw [Pi.single_apply]
  cases counter <;> by_cases hc : c = k <;> simp [hc, Counter.part, eq_comm]

theorem trade_part {gained spent : Debts} (h : Trade opts op gained spent) :
    (counter.part (gained c) = 0 ∧ counter.part (spent c) = 0) ∨
      (counter.spends op = some c ∧ counter.part (gained c) = 0 ∧ counter.part (spent c) = 1) ∨
      (counter.gains op = some c ∧ counter.part (gained c) = 1 ∧ counter.part (spent c) = 0) := by
  cases h <;> cases counter <;>
    simp [part_bytes, part_charged, part_active, part_serialized, part_requests, Counter.spends, Counter.gains,
      ← imp_iff_not_or, eq_comm]

theorem part_queued_set {k : Nat} {n : UInt64} (hJobs : t.pendingJobs = s.pendingJobs)
    (hSerialized : t.pendingSerialized = s.pendingSerialized)
    (hOther : ∀ c, c ≠ k → t.connections c = s.connections c)
    (hSet : (t.connections k).reservedRequestBytes = n) : counter.part (queued t c) = counter.part (queued s c) := by
  have hQueued := congrArg counter.part (congrFun (queued_set hJobs hSerialized hOther hSet) c)
  simpa [part_bytes] using hQueued

theorem value_of_counters (h : counters t = counters s) :
    counter.value (t.connections c) = counter.value (s.connections c) := by
  have hEntry := congrFun h c
  simp only [counters, entry, Prod.mk.injEq] at hEntry
  cases counter with
  | active => exact hEntry.1
  | serialized => exact hEntry.2.1
  | requests => exact hEntry.2.2.1

theorem inexact_part (h : exec opts s op choice = some (t, ops)) (hInexact : inexact op = true) :
    counter.value (t.connections c) = counter.value (s.connections c) ∧
      counter.part (Threads.weigh (debt opts) (ops : Multiset Op) c) = 0 ∧
      counter.part (queued t c) = counter.part (queued s c) := by
  cases op with
  | payloadReserved k r n =>
    refine ⟨value_of_counters (counters_kept h (by simp [writes])), ?_, ?_⟩ <;> cases h
    · simp [debt]
    · exact part_queued_set rfl rfl (fun _ hc => State.update_other _ _ hc) rfl
  | dispatchRequest k r serialized session =>
    refine ⟨value_of_counters (counters_kept h (by simp [writes])), ?_, ?_⟩ <;> cases serialized <;> cases h
    · simp [debt, part_held]
    · simp [debt, part_held]
    · exact part_queued_set rfl rfl (fun _ hc => State.update_other _ _ hc) rfl
    · exact part_queued_set rfl rfl (fun _ hc => State.update_other _ _ hc) rfl
  | dispatchStream k r =>
    refine ⟨value_of_counters (counters_kept h (by simp [writes])), ?_⟩
    simp only [exec, dispatchStream] at h
    split at h
    · cases h
      rw [queued_setClosing]
      simp [debt]
    · cases h
      refine ⟨by simp [debt, part_held], ?_⟩
      exact part_queued_set rfl rfl (fun _ hc => State.update_other _ _ hc) rfl
  | rearmLocked k mayReuse site =>
    refine ⟨value_of_counters (counters_kept h (by simp [writes])), ?_, ?_⟩
    · obtain ⟨more, -, rfl⟩ | ⟨-, rfl⟩ := rearmLocked_cases h
      · simp
      · simp [debt]
    · exact part_queued_set ((exec_keeps h).jobs (by simp [writes])) ((exec_keeps h).serializedJobs (by simp [writes]))
        (fun _ hc => rearmLocked_other h hc) rfl
  | threw k site =>
    refine ⟨value_of_counters (counters_kept h (by simp [writes])), ?_, ?_⟩
    · cases site <;> cases h <;> first | cases hInexact; done | simp [afterThrow, debt]
    · rw [queued_kept h (by simp [writes])]
  | _ => cases hInexact

theorem counter_moves (counter : Counter) (c : Nat) (h : exec opts s op choice = some (t, ops))
    (hSane : Sane opts s op) :
    ∃ gained spent, counter.value (t.connections c) + UInt64.ofNat spent =
        counter.value (s.connections c) + UInt64.ofNat gained ∧
      counter.part ((Threads.weigh (debt opts) (ops : Multiset Op) + queued t) c) + spent ≤
        counter.part ((debt opts op + queued s) c) + gained ∧
      (gained = 0 ∧ spent = 0 ∨ counter.spends op = some c ∧ gained = 0 ∧ spent = 1 ∨
        counter.gains op = some c ∧ gained = 1 ∧ spent = 0) := by
  cases hInexact : inexact op with
  | true =>
    obtain ⟨hValue, hOps, hQueued⟩ := inexact_part (c := c) h hInexact
    refine ⟨0, 0, by rw [hValue], ?_, .inl ⟨rfl, rfl⟩⟩
    simp only [Pi.add_apply, Counter.part_add]
    omega
  | false =>
    obtain ⟨gained, spent, hTrade, hFlow⟩ := exec_trade h hSane hInexact
    refine ⟨counter.part (gained c), counter.part (spent c), ?_, ?_, trade_part hTrade⟩
    · have hCounters := congrFun hFlow.counters c
      simp only [Pi.add_apply, counters, entry, wrap, Prod.mk_add_mk, Prod.mk.injEq] at hCounters
      cases counter with
      | active => exact hCounters.1
      | serialized => exact hCounters.2.1
      | requests => exact hCounters.2.2.1
    · have hBalance := congrArg counter.part (congrFun hFlow.balance c)
      rw [Pi.add_apply, Pi.add_apply _ gained, Counter.part_add, Counter.part_add] at hBalance
      exact hBalance.le

def outstanding (opts : Options) (counter : Counter) (system : Threads State Op) (c : Nat) : Nat :=
  counter.part (owed opts system c)

def Covers (opts : Options) (counter : Counter) (spare : Nat) (system : Threads State Op) (c : Nat) : Prop :=
  outstanding opts counter system c + spare ≤ (counter.value (system.shared.connections c)).toNat

section Step

variable {later : Threads State Op} {others : Multiset Op}

theorem outstanding_moves (counter : Counter) (c : Nat) (hSane : Sane opts system.shared op)
    (hTurn : Turn opts system op choice ops others later) :
    ∃ gained spent, counter.value (later.shared.connections c) + UInt64.ofNat spent =
        counter.value (system.shared.connections c) + UInt64.ofNat gained ∧
      outstanding opts counter later c + spent ≤ outstanding opts counter system c + gained ∧
      (gained = 0 ∧ spent = 0 ∨ counter.spends op = some c ∧ gained = 0 ∧ spent = 1 ∨
        counter.gains op = some c ∧ gained = 1 ∧ spent = 0) := by
  obtain ⟨gained, spent, hValue, hBalance, hMoves⟩ := counter_moves counter c hTurn.exec hSane
  refine ⟨gained, spent, hValue, ?_, hMoves⟩
  unfold outstanding owed
  rw [hTurn.before, hTurn.after]
  simp only [Threads.weigh_cons, Threads.weigh_add, Pi.add_apply, Counter.part_add] at hBalance ⊢
  omega

theorem value_next (counter : Counter) (c : Nat) (hSane : Sane opts system.shared op)
    (hTurn : Turn opts system op choice ops others later)
    (hCovers : Covers opts counter 0 system c) :
    counter.value (later.shared.connections c) ≤ counter.value (system.shared.connections c) ∨
      counter.gains op = some c ∧
        counter.value (later.shared.connections c) = counter.value (system.shared.connections c) + 1 := by
  obtain ⟨gained, spent, hValue, hOwed, ⟨rfl, rfl⟩ | ⟨-, rfl, rfl⟩ | ⟨hGains, rfl, rfl⟩⟩ :=
    outstanding_moves counter c hSane hTurn
  · exact .inl (UInt64.le_of_eq (by simpa using hValue))
  · have hNat := congrArg UInt64.toNat hValue
    simp only [UInt64.toNat_add, UInt64.toNat_ofNat'] at hNat
    have hLater := (counter.value (later.shared.connections c)).toNat_lt
    unfold Covers at hCovers
    rw [UInt64.le_iff_toNat_le]
    omega
  · exact .inr ⟨hGains, by simpa using hValue⟩

theorem covers_next {spare : Nat} (hSane : Sane opts system.shared op)
    (hTurn : Turn opts system op choice ops others later) (hCovers : Covers opts counter spare system c)
    (hFits : counter.gains op = some c → (counter.value (system.shared.connections c)).toNat + 1 < 2 ^ 64) :
    Covers opts counter spare later c := by
  unfold Covers at hCovers ⊢
  obtain ⟨gained, spent, hValue, hOwed, hMoves⟩ := outstanding_moves counter c hSane hTurn
  have hNat := congrArg UInt64.toNat hValue
  simp only [UInt64.toNat_add, UInt64.toNat_ofNat'] at hNat
  have hLater := (counter.value (later.shared.connections c)).toNat_lt
  have hNow := (counter.value (system.shared.connections c)).toNat_lt
  obtain ⟨rfl, rfl⟩ | ⟨-, rfl, rfl⟩ | ⟨hGains, rfl, rfl⟩ := hMoves
  · omega
  · omega
  · have hRoom := hFits hGains
    omega

end Step

theorem le_outstanding (h : op ∈ system.pending) :
    counter.part (debt opts op c) ≤ outstanding opts counter system c := by
  obtain ⟨others, hPending⟩ := Multiset.exists_cons_of_mem h
  unfold outstanding owed
  rw [hPending, Threads.weigh_cons]
  simp only [Pi.add_apply, Counter.part_add]
  omega

theorem part_le_sum {Job : Type} {f : Job → Debts} {jobs : List Job} {job : Job} (h : job ∈ jobs) :
    counter.part (f job c) ≤ counter.part ((jobs.map f).sum c) := by
  induction jobs with
  | nil => cases h
  | cons first rest ih =>
    rw [List.map_cons, List.sum_cons, Pi.add_apply, Counter.part_add]
    obtain rfl | hRest := List.mem_cons.mp h
    · omega
    · have hLe := ih hRest
      omega

theorem job_le_outstanding {job : PendingJob} (h : job ∈ system.shared.pendingJobs) :
    counter.part (jobDebt job c) ≤ outstanding opts counter system c := by
  have hLe := @part_le_sum c counter _ jobDebt _ job h
  unfold outstanding owed queued
  simp only [Pi.add_apply, Counter.part_add]
  omega

theorem serialized_le_outstanding {job : SerializedJob} (h : job ∈ system.shared.pendingSerialized) :
    counter.part (serializedDebt job c) ≤ outstanding opts counter system c := by
  have hLe := @part_le_sum c counter _ serializedDebt _ job h
  unfold outstanding owed queued
  simp only [Pi.add_apply, Counter.part_add]
  omega

/-- No step overflows `active_regular` or `pending_serialized`. -/
def countersFit (system : Threads State Op) (action : Nat × Choice) : Bool :=
  match system.next action.1 with
  | some op =>
    [Counter.active, .serialized].all fun counter =>
      (counter.gains op).all fun c => counter.value (system.shared.connections c) + 1 != 0
  | none => true

theorem fits_of_guard {action : Nat × Choice} (hGuard : countersFit system action = true)
    (hNext : system.next action.1 = some op) (hCounter : counter ≠ .requests) (hGains : counter.gains op = some c) :
    (counter.value (system.shared.connections c)).toNat + 1 < 2 ^ 64 := by
  simp only [countersFit, hNext, List.all_cons, List.all_nil, Bool.and_true, Bool.and_eq_true] at hGuard
  have hNonzero : counter.value (system.shared.connections c) + 1 ≠ 0 := by
    cases counter with
    | active => simpa [hGains] using hGuard.1
    | serialized => simpa [hGains] using hGuard.2
    | requests => exact absurd rfl hCounter
  have hLt := (counter.value (system.shared.connections c)).toNat_lt
  by_contra hFull
  refine hNonzero (UInt64.toNat_inj.mp ?_)
  rw [UInt64.toNat_add, UInt64.toNat_one, UInt64.toNat_zero]
  omega

theorem covers_start (h : Initial system) : Covers opts counter 0 system c := by
  have hPending : Threads.weigh (debt opts) system.pending = 0 := by
    refine Threads.weigh_eq_zero _ fun op hOp => ?_
    obtain rfl | rfl | rfl | rfl := initial_pending h hOp <;> rfl
  unfold Covers outstanding owed
  rw [hPending, h.1]
  cases counter <;> exact Nat.zero_le _

end EasyUds.Server.Counters

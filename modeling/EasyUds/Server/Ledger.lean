import Mathlib.Tactic.Abel
import EasyUds.Server.Reservation

/-! # The ledger of a connection

What the counters of a connection stand for: every queued job and every operation on behalf of a request
owes the connection what it will still take from them, and the parser owes what it has reserved. An
operation moves debts, or creates and settles them together with the counters.
-/

namespace EasyUds.Server.Ledger

open Lib Server.Core Server.Steps Server.Outcomes Server.Footprint
open Server.Ownership Server.Reservation

/-- `active_regular`, `pending_serialized`, `inflight_requests` and `inflight_request_bytes`. -/
abbrev Entry := ℕ × ℕ × ℕ × ℕ

abbrev Debts := Nat → Entry

abbrev Counters := Nat → UInt64 × UInt64 × UInt64 × UInt64

def active (c : Nat) : Debts := Pi.single c (1, 0, 0, 0)

def serialized (c : Nat) : Debts := Pi.single c (0, 1, 0, 0)

def requests (c : Nat) : Debts := Pi.single c (0, 0, 1, 0)

def bytes (c : Nat) (n : UInt64) : Debts := Pi.single c (0, 0, 0, n.toNat)

def held (opts : Options) (c : Nat) (n : UInt64) : Debts := if opts.strictBudget then bytes c n else 0

def debt (opts : Options) : Op → Debts
  | .releaseConnectionRequest c n => requests c + bytes c n
  | .releaseConnectionRequestBytes c n | .reserveTotal c _ n | .unreserveConnection c _ n => bytes c n
  | .payloadReserved c _ n => bytes c n
  | .subRequests c _ => requests c
  | .streamLease c _ n | .enqueueWorkerJob c _ n _ | .enqueueSerializedJob c n _ (.dispatch _) => held opts c n
  | .addRequests c _ _ | .completeRegularRequest c _ false => active c
  | .addBytes c _ _ => active c + requests c
  | .addTotal c n _ | .serveFixedRequest c n | .enqueueSerializedJob c n _ .continuation =>
    active c + requests c + bytes c n
  | .writeFixedResponse c (.continuation n) | .refreshConnectionEvents c (.write (.continuation n)) =>
    active c + requests c + bytes c n
  | .threw c (.continuation n) | .completeRegularRequest c n true => active c + requests c + bytes c n
  | .runStreamExchange c n release => if release then bytes c n else 0
  | .subSerialized c n => serialized c + requests c + bytes c n
  | _ => 0

def jobDebt (job : PendingJob) : Debts :=
  if job.isStream then if job.releaseStreamRequestBytes then bytes job.connection job.requestBytes else 0
  else active job.connection + requests job.connection + bytes job.connection job.requestBytes

def serializedDebt (job : SerializedJob) : Debts :=
  serialized job.connection + requests job.connection + bytes job.connection job.requestBytes

def reserved (s : State) : Debts := fun c => (0, 0, 0, (s.connections c).reservedRequestBytes.toNat)

def queued (s : State) : Debts :=
  (s.pendingJobs.map jobDebt).sum + (s.pendingSerialized.map serializedDebt).sum + reserved s

def owed (opts : Options) (system : Threads State Op) : Debts :=
  Threads.weigh (debt opts) system.pending + queued system.shared

def entry (k : Connection) : UInt64 × UInt64 × UInt64 × UInt64 :=
  (k.activeRegular, k.pendingSerialized, k.inflightRequests, k.inflightRequestBytes)

def counters (s : State) : Counters := fun c => entry (s.connections c)

def wrap (debts : Debts) : Counters := fun c =>
  (UInt64.ofNat (debts c).1, UInt64.ofNat (debts c).2.1, UInt64.ofNat (debts c).2.2.1,
    UInt64.ofNat (debts c).2.2.2)

theorem wrap_add (x y : Debts) : wrap (x + y) = wrap x + wrap y := by
  funext c
  simp [wrap]

theorem wrap_zero : wrap 0 = 0 := by
  funext c
  simp [wrap]

variable {opts : Options} {s t : State} {op : Op} {choice : Choice} {ops : List Op} {c : Nat}

theorem counters_add {k : Nat} {f : Connection → Connection} {x : Debts} (hx : ∀ c, c ≠ k → x c = 0)
    (hf : ∀ l, entry (f l) = entry l + wrap x k) : counters (s.update k f) = counters s + wrap x := by
  funext c
  by_cases hc : c = k
  · subst hc
    simp only [counters, State.update_self, Pi.add_apply, hf]
  · rw [Pi.add_apply, counters, State.update_other s f hc, wrap, hx c hc]
    simp [counters]

theorem counters_sub {k : Nat} {f : Connection → Connection} {y : Debts} (hy : ∀ c, c ≠ k → y c = 0)
    (hf : ∀ l, entry (f l) + wrap y k = entry l) : counters (s.update k f) + wrap y = counters s := by
  funext c
  by_cases hc : c = k
  · subst hc
    simp only [counters, State.update_self, Pi.add_apply, hf]
  · rw [Pi.add_apply, counters, State.update_other s f hc, wrap, hy c hc]
    simp [counters]

/-- An operation adds `gained` to the counters and takes `spent` from them, and the debts follow. Under an
aggregate budget bytes are gained by a reservation only. -/
structure Flow (opts : Options) (s t : State) (op : Op) (ops : List Op) (gained spent : Debts) : Prop where
  counters : counters t + wrap spent = counters s + wrap gained
  balance : Threads.weigh (debt opts) (ops : Multiset Op) + queued t + spent = debt opts op + queued s + gained
  grows : opts.strictBudget = true → ∀ c, (gained c).2.2.2 ≠ 0 → ∃ r n, op = .reserveConnection c r n ∧
    n ≤ opts.maxInflightRequestBytesPerConnection -
      min (s.connections c).inflightRequestBytes opts.maxInflightRequestBytesPerConnection ∧
    (gained c).2.2.2 = n.toNat

theorem reserved_kept (h : ∀ c, (t.connections c).reservedRequestBytes = (s.connections c).reservedRequestBytes) :
    reserved t = reserved s := by
  funext c
  rw [reserved, h c]
  rfl

theorem queued_kept (h : exec opts s op choice = some (t, ops))
    (hKept : .jobs ∉ writes op ∧ .serializedJobs ∉ writes op ∧ .reservation ∉ writes op) : queued t = queued s := by
  obtain ⟨hJobs, hSerialized, hReservation⟩ := hKept
  unfold queued
  rw [(exec_keeps h).jobs hJobs, (exec_keeps h).serializedJobs hSerialized,
    reserved_kept fun c => (exec_keeps h).reservation c hReservation]

theorem counters_kept (h : exec opts s op choice = some (t, ops)) (hAccount : .account ∉ writes op) :
    counters t = counters s := by
  funext c
  obtain ⟨hActive, hSerialized, hRequests, hBytes⟩ := (exec_keeps h).account c hAccount
  simp only [counters, entry, hActive, hSerialized, hRequests, hBytes]

theorem Flow.still (hCounters : Ledger.counters t = Ledger.counters s)
    (hBalance : Threads.weigh (debt opts) (ops : Multiset Op) + queued t = debt opts op + queued s) :
    Flow opts s t op ops 0 0 where
  counters := by rw [hCounters]
  balance := by rw [hBalance]
  grows := fun _ c hGained => absurd rfl hGained

theorem Flow.gain {x : Debts} (hCounters : Ledger.counters t = Ledger.counters s + wrap x)
    (hBalance : Threads.weigh (debt opts) (ops : Multiset Op) + queued t = debt opts op + queued s + x)
    (hGrows : opts.strictBudget = true → ∀ c, (x c).2.2.2 = 0) : Flow opts s t op ops x 0 where
  counters := by rw [hCounters, wrap_zero, add_zero]
  balance := by rw [hBalance, add_zero]
  grows := fun hStrict c hGained => absurd (hGrows hStrict c) hGained

theorem Flow.spend {y : Debts} (hCounters : Ledger.counters t + wrap y = Ledger.counters s)
    (hBalance : Threads.weigh (debt opts) (ops : Multiset Op) + queued t + y = debt opts op + queued s) :
    Flow opts s t op ops 0 y where
  counters := by rw [hCounters, wrap_zero, add_zero]
  balance := by rw [hBalance, add_zero]
  grows := fun _ c hGained => absurd rfl hGained

theorem weigh_of_free (h : ∀ o ∈ ops, debt opts o = 0) : Threads.weigh (debt opts) (ops : Multiset Op) = 0 :=
  Threads.weigh_eq_zero _ h

theorem weigh_giveBack {n : UInt64} : Threads.weigh (debt opts) (giveBack opts c n : Multiset Op) = held opts c n := by
  unfold giveBack held
  split
  · simp [debt]
  · simp

theorem single_other {x : Entry} {k : Nat} : ∀ c, c ≠ k → (Pi.single k x : Debts) c = 0 :=
  fun c hc => by rw [Pi.single_apply, if_neg hc]

theorem weigh_finishSuperseded {jobs : List SerializedJob} :
    Threads.weigh (debt opts) (jobs.flatMap finishSuperseded : Multiset Op) = (jobs.map serializedDebt).sum := by
  induction jobs with
  | nil => simp
  | cons job rest ih =>
    rw [List.flatMap_cons, Threads.weigh_coe_append, ih]
    simp [finishSuperseded, debt, serializedDebt]

theorem sum_filter_add (jobs : List SerializedJob) (p : SerializedJob → Bool) :
    ((jobs.filter p).map serializedDebt).sum + ((jobs.filter fun job => !p job).map serializedDebt).sum =
      (jobs.map serializedDebt).sum := by
  induction jobs with
  | nil => simp
  | cons job rest ih =>
    rw [List.map_cons, List.sum_cons, ← ih]
    cases hp : p job with
    | true => simp [hp, add_assoc]
    | false => simp [hp, add_left_comm]

theorem weigh_afterWrite {site : WriteSite} :
    Threads.weigh (debt opts) (afterWrite c site : Multiset Op) = debt opts (.writeFixedResponse c site) := by
  cases site <;> simp [afterWrite, debt]

theorem weigh_threw {site : WriteSite} :
    Threads.weigh (debt opts) ([.threw c site] : List Op) = debt opts (.writeFixedResponse c site) := by
  cases site <;> simp [debt]

def passes : Op → Bool
  | .releaseConnectionRequest .. | .releaseConnectionRequestBytes .. | .subRequests .. => false
  | .reserveConnection .. | .unreserveConnection .. | .payloadReserved .. | .rearmLocked .. => false
  | .closeConnection .. | .dispatchRequest .. | .dispatchStream .. | .enqueueWorkerJob .. => false
  | .workerLoop | .completeRegularRequest .. | .addActive .. | .addRequests .. | .addBytes .. => false
  | .enqueueSerializedJob .. | .serializedWorkerLoop | .subSerialized .. => false
  | .threw _ (.continuation _) => false
  | _ => true

def free : Op → Bool
  | .releaseConnectionRequest .. | .releaseConnectionRequestBytes .. | .subRequests .. => false
  | .reserveTotal .. | .unreserveConnection .. | .payloadReserved .. | .streamLease .. => false
  | .enqueueWorkerJob .. | .enqueueSerializedJob .. | .completeRegularRequest .. => false
  | .addRequests .. | .addBytes .. | .addTotal .. | .serveFixedRequest .. | .runStreamExchange .. => false
  | .writeFixedResponse _ (.continuation _) | .refreshConnectionEvents _ (.write (.continuation _)) => false
  | .threw _ (.continuation _) | .subSerialized .. => false
  | _ => true

theorem debt_of_free (h : free op = true) : debt opts op = 0 := by
  unfold debt
  split
  all_goals first | rfl | cases h

theorem free_next (h : exec opts s op choice = some (t, ops)) (hPasses : passes op = true)
    (hFree : free op = true) (hBudget : ∀ c r, op ≠ .beginPayload c r) : ∀ o ∈ ops, free o = true := by
  intro o ho
  cases exec_next h o ho with
  | beginEmpty | reserve => exact absurd rfl (hBudget _ _)
  | @threw c site | @queued c site | @refreshFailed c site => cases site <;> first | rfl | cases hFree
  | _ => first | rfl | cases hPasses; done | cases hFree

theorem passes_debt (h : exec opts s op choice = some (t, ops)) (hPasses : passes op = true) :
    Threads.weigh (debt opts) (ops : Multiset Op) = debt opts op := by
  by_cases hFree : free op = true ∧ ∀ c r, op ≠ .beginPayload c r
  · rw [debt_of_free hFree.1]
    exact weigh_of_free fun o ho => debt_of_free (free_next h hPasses hFree.1 hFree.2 o ho)
  · cases op with
    | beginPayload k r =>
      simp only [exec, beginPayload] at h
      split at h
      · cases h
        split
        · rename_i hZero
          simp [debt, hZero, bytes]
        · simp [debt]
      · cases h; simp [debt]
    | reserveTotal k r n =>
      simp only [exec, reserveTotal] at h
      split at h
      · cases h; simp [debt]
      · cases h; simp [debt]
    | refreshConnectionEvents k site =>
      obtain ⟨modified, hNext⟩ := refreshConnectionEvents_cases h
      obtain rfl : _ = ops := congrArg Prod.snd hNext
      cases site with
      | write site =>
        have hDebt : debt opts (.refreshConnectionEvents k (.write site)) = debt opts (.writeFixedResponse k site) := by
          cases site <;> rfl
        simp only [afterRefresh]
        split
        · rw [weigh_afterWrite, hDebt]
        · rw [weigh_threw, hDebt]
      | _ => exact absurd ⟨rfl, by simp⟩ hFree
    | writeFixedResponse k site =>
      obtain ⟨-, ⟨-, rfl⟩ | ⟨-, rfl⟩ | rfl⟩ | ⟨-, rfl⟩ | ⟨m, -, -, -, -, rfl⟩ := writeFixedResponse_cases h
      · exact weigh_threw
      · exact weigh_afterWrite
      · rw [Threads.weigh_coe_cons, Threads.weigh_coe_cons, weigh_threw]
        simp [debt]
      · exact weigh_threw
      · cases site <;> simp [debt]
    | streamLease k r n | addTotal k n session => cases h; simp [debt]
    | serveFixedRequest k n =>
      obtain ⟨-, rfl | ⟨route, rfl⟩⟩ := serveFixedRequest_cases h
      · simp [debt]
      · simp [debt]
    | runStreamExchange k n release =>
      obtain ⟨-, rfl⟩ := runStreamExchange_cases h
      cases release <;> simp [debt]
    | threw k site =>
      cases site with
      | continuation n => cases hPasses
      | _ => exact absurd ⟨rfl, by simp⟩ hFree
    | _ => first | cases hPasses; done | exact absurd ⟨rfl, by simp⟩ hFree

theorem passes_writes (hPasses : passes op = true) :
    .account ∉ writes op ∧ .jobs ∉ writes op ∧ .serializedJobs ∉ writes op ∧ .reservation ∉ writes op := by
  cases op with
  | threw k site => simp [writes]
  | _ => first | cases hPasses; done | simp [writes]

theorem bytes_zero : bytes c 0 = 0 := by
  simp [bytes]

theorem queued_set {k : Nat} {n : UInt64} (hJobs : t.pendingJobs = s.pendingJobs)
    (hSerialized : t.pendingSerialized = s.pendingSerialized)
    (hOther : ∀ c, c ≠ k → t.connections c = s.connections c)
    (hSet : (t.connections k).reservedRequestBytes = n) :
    queued t + bytes k (s.connections k).reservedRequestBytes = queued s + bytes k n := by
  have hReserved : reserved t + bytes k (s.connections k).reservedRequestBytes = reserved s + bytes k n := by
    funext c
    simp only [Pi.add_apply, reserved]
    by_cases hc : c = k
    · subst hc
      rw [hSet]
      simp [bytes, add_comm]
    · rw [hOther c hc]
      simp [bytes, hc]
  unfold queued
  rw [hJobs, hSerialized, add_assoc, hReserved]
  abel

theorem queued_update {k : Nat} {f : Connection → Connection}
    (hf : ∀ l, (f l).reservedRequestBytes = l.reservedRequestBytes) : queued (s.update k f) = queued s := by
  have hReserved : reserved (s.update k f) = reserved s := by
    refine reserved_kept fun c => ?_
    rw [State.update_apply]
    split
    · exact hf _
    · rfl
  unfold queued
  rw [hReserved]
  rfl

theorem queued_setClosing : queued (s.setClosing c) = queued s :=
  queued_update fun _ => rfl

theorem queued_close (hTable : c ∈ s.table) :
    queued (close s c) + bytes c (s.connections c).reservedRequestBytes = queued s := by
  rw [← add_zero (queued s), ← bytes_zero (c := c), close, if_pos hTable]
  exact queued_set rfl rfl (fun _ hc => State.update_other _ _ hc)
    (congrArg Connection.reservedRequestBytes (State.update_self _ c _))

theorem bytes_phase {k : Connection} {n : UInt64} (hSettled : Settled opts k)
    (hPhase : k.phase = .requestPayload ∧ n = k.payloadTotal ∨ k.phase = .streamRoute ∧ n = k.arg1) :
    bytes c k.reservedRequestBytes = held opts c n := by
  rw [hSettled]
  unfold phaseBytes held
  split
  · obtain ⟨hPhase, rfl⟩ | ⟨hPhase, rfl⟩ := hPhase
    · rw [hPhase]
    · rw [hPhase]
  · exact bytes_zero

theorem startJob_debt (job : PendingJob) :
    Threads.weigh (debt opts) (startJob job : Multiset Op) = jobDebt job := by
  unfold startJob jobDebt
  split
  · simp [debt]
  · simp [debt]

theorem sum_eraseIdx {jobs : List SerializedJob} {index : Nat} {job : SerializedJob} (h : jobs[index]? = some job) :
    ((jobs.eraseIdx index).map serializedDebt).sum + serializedDebt job = (jobs.map serializedDebt).sum := by
  obtain ⟨hIndex, rfl⟩ := List.getElem?_eq_some_iff.mp h
  have hPerm := (List.getElem_cons_eraseIdx_perm hIndex).map serializedDebt
  rw [← hPerm.sum_eq, List.map_cons, List.sum_cons, add_comm]

/-- What the operations that serve requests rely on: the parser holds what they take from it, and no
exception of a busy answer under a lease gets past its handler. -/
def Accounts (opts : Options) (s : State) (op : Op) : Prop :=
  Parsing opts s op ∧ Sane opts s op ∧ ∀ c n, op ≠ .threw c (.continuation n)

theorem dispatchRequest_flow {r : Nat} {serialized : Option Nat} {session : Bool}
    (h : exec opts s (.dispatchRequest c r serialized session) choice = some (t, ops))
    (hParsing : Parsing opts s (.dispatchRequest c r serialized session)) :
    Flow opts s t (.dispatchRequest c r serialized session) ops 0 0 := by
  have hQueued : queued t + bytes c (s.connections c).reservedRequestBytes = queued s + bytes c 0 := by
    cases serialized <;> cases h <;>
      exact queued_set rfl rfl (fun _ hc => State.update_other _ _ hc)
        (congrArg Connection.reservedRequestBytes (State.update_self _ c _))
  rw [bytes_zero, add_zero, bytes_phase hParsing.2 (.inl ⟨hParsing.1, rfl⟩)] at hQueued
  have hDebt : Threads.weigh (debt opts) (ops : Multiset Op) = held opts c (s.connections c).payloadTotal := by
    cases serialized <;> cases h <;> simp [debt]
  refine .still (counters_kept h (by simp [writes])) ?_
  rw [hDebt, ← hQueued]
  simp [debt, add_comm]

theorem dispatchStream_flow {r : Nat} (h : exec opts s (.dispatchStream c r) choice = some (t, ops))
    (hParsing : Parsing opts s (.dispatchStream c r)) : Flow opts s t (.dispatchStream c r) ops 0 0 := by
  refine .still (counters_kept h (by simp [writes])) ?_
  have hHeld : bytes c _ = held opts c (s.connections c).arg1 := bytes_phase hParsing.2 (.inr ⟨hParsing.1, rfl⟩)
  simp only [exec, dispatchStream] at h
  split at h
  · cases h
    rw [queued_setClosing]
    simp [debt]
  · have hQueued : queued t + bytes c (s.connections c).reservedRequestBytes = queued s + bytes c 0 := by
      cases h
      exact queued_set rfl rfl (fun _ hc => State.update_other _ _ hc)
        (congrArg Connection.reservedRequestBytes (State.update_self _ c _))
    rw [bytes_zero, add_zero, hHeld] at hQueued
    cases h
    rw [← hQueued]
    simp [debt, add_comm]

theorem closeConnection_flow {reactor : Bool} (h : exec opts s (.closeConnection c reactor) choice = some (t, ops)) :
    Flow opts s t (.closeConnection c reactor) ops 0 0 := by
  have hCounters := counters_kept h (by simp [writes])
  obtain ⟨rfl, rfl⟩ := outcome_eq h
  refine .still hCounters ?_
  have hDebt : Threads.weigh (debt opts) ((closeConnection s c reactor).2 : Multiset Op) =
      bytes c (parserBytes s c) := by
    unfold closeConnection
    rw [Threads.weigh_coe_append]
    have hRest : Threads.weigh (debt opts) ((if reactor then [.runReactor] else [] : List Op) : Multiset Op) = 0 := by
      cases reactor <;> simp [debt]
    rw [hRest, add_zero]
    split
    · simp [debt]
    · rename_i hZero
      simp [not_not.mp hZero, bytes_zero]
  rw [hDebt]
  unfold parserBytes
  split
  · rename_i hTable
    rw [add_comm, closeConnection, queued_close hTable]
    simp [debt]
  · rename_i hTable
    rw [closeConnection, close, if_neg hTable]
    simp [debt, bytes_zero]

/-- The bytes that an admission adds to the counters itself. -/
def charged (opts : Options) (c : Nat) (n : UInt64) : Debts := if opts.strictBudget then 0 else bytes c n

theorem held_add_charged {n : UInt64} : held opts c n + charged opts c n = bytes c n := by
  unfold held charged
  split
  · exact add_zero _
  · exact zero_add _

theorem counters_account {n : UInt64} :
    counters (accountConnectionRequest opts s c n) = counters s + wrap (requests c + charged opts c n) := by
  unfold accountConnectionRequest charged
  split
  · rw [add_zero]
    refine counters_add single_other fun l => ?_
    simp [entry, wrap, requests]
  · refine counters_add (fun k hk => ?_) fun l => ?_
    · simp [requests, bytes, hk]
    · simp [entry, wrap, requests, bytes]

theorem queued_account {n : UInt64} : queued (accountConnectionRequest opts s c n) = queued s := by
  unfold accountConnectionRequest
  split
  · exact queued_update fun _ => rfl
  · exact queued_update fun _ => rfl

@[simp] theorem active_bytes (k : Nat) : (active c k).2.2.2 = 0 := by
  unfold active
  rw [Pi.single_apply]
  split <;> rfl

@[simp] theorem serialized_bytes (k : Nat) : (serialized c k).2.2.2 = 0 := by
  unfold serialized
  rw [Pi.single_apply]
  split <;> rfl

@[simp] theorem requests_bytes (k : Nat) : (requests c k).2.2.2 = 0 := by
  unfold requests
  rw [Pi.single_apply]
  split <;> rfl

theorem charged_loose {n : UInt64} (hStrict : opts.strictBudget = true) (k : Nat) :
    (charged opts c n k).2.2.2 = 0 := by
  rw [charged, if_pos hStrict]
  rfl

theorem queued_push {jobs : List PendingJob} :
    queued { s with pendingJobs := s.pendingJobs ++ jobs } = queued s + (jobs.map jobDebt).sum := by
  have hReserved : reserved { s with pendingJobs := s.pendingJobs ++ jobs } = reserved s := rfl
  simp only [queued, hReserved, List.map_append, List.sum_append]
  abel

/-- What an operation adds to the counters and takes from them. -/
inductive Trade (opts : Options) : Op → Debts → Debts → Prop
  | still (op : Op) : Trade opts op 0 0
  | reserve (c r : Nat) (n : UInt64) : Trade opts (.reserveConnection c r n) (bytes c n) 0
  | unreserve (c r : Nat) (n : UInt64) : Trade opts (.unreserveConnection c r n) 0 (bytes c n)
  | enqueue (c r : Nat) (n : UInt64) :
      Trade opts (.enqueueWorkerJob c r n false) (active c + requests c + charged opts c n) 0
  | serialize (c : Nat) (n : UInt64) (route r : Nat) :
      Trade opts (.enqueueSerializedJob c n route (.dispatch r)) (serialized c + requests c + charged opts c n) 0
  | handOn (c : Nat) (n : UInt64) (route : Nat) :
      Trade opts (.enqueueSerializedJob c n route .continuation) (serialized c) 0
  | addActive (c : Nat) (n : UInt64) (session : Bool) : Trade opts (.addActive c n session) (active c) 0
  | addRequests (c : Nat) (n : UInt64) (session : Bool) : Trade opts (.addRequests c n session) (requests c) 0
  | addBytes (c : Nat) (n : UInt64) (session : Bool) : Trade opts (.addBytes c n session) (bytes c n) 0
  | complete (c : Nat) (n : UInt64) (release : Bool) : Trade opts (.completeRegularRequest c n release) 0 (active c)
  | subSerialized (c : Nat) (n : UInt64) : Trade opts (.subSerialized c n) 0 (serialized c)
  | subRequests (c : Nat) (n : UInt64) : Trade opts (.subRequests c n) 0 (requests c)
  | release (c : Nat) (n : UInt64) : Trade opts (.releaseConnectionRequest c n) 0 (bytes c n)
  | releaseBytes (c : Nat) (n : UInt64) : Trade opts (.releaseConnectionRequestBytes c n) 0 (bytes c n)

theorem enqueueWorkerJob_flow {r : Nat} {n : UInt64} {isStream : Bool}
    (h : exec opts s (.enqueueWorkerJob c r n isStream) choice = some (t, ops)) :
    ∃ gained, Trade opts (.enqueueWorkerJob c r n isStream) gained 0 ∧
      Flow opts s t (.enqueueWorkerJob c r n isStream) ops gained 0 := by
  cases exec_outcome h with
  | jobRefused =>
    refine ⟨0, .still _, .still rfl ?_⟩
    rw [Threads.weigh_coe_append, weigh_giveBack]
    cases isStream <;> simp [debt]
  | jobFailed =>
    refine ⟨0, .still _, .still rfl ?_⟩
    rw [Threads.weigh_coe_append, weigh_giveBack]
    simp [debt]
  | queueStream =>
    refine ⟨0, .still _, .still rfl ?_⟩
    rw [queued_push]
    cases hStrict : opts.strictBudget with
    | true => simp [debt, jobDebt, held, hStrict, add_comm]
    | false => simp [debt, jobDebt, held, hStrict]
  | queueRequest =>
    refine ⟨active c + requests c + charged opts c n, .enqueue c r n, .gain ?_ ?_ ?_⟩
    · rw [counters_account, counters_add (x := active c) single_other fun l => ?_]
      · change counters s + wrap (active c) + _ = _
        simp only [wrap_add]
        abel
      · simp [entry, wrap, active]
    · rw [queued_account, queued_update, queued_push, debt, add_right_comm (held opts c n)]
      · simp only [jobDebt, Multiset.coe_singleton, Threads.weigh_singleton, debt, List.map_singleton,
          List.sum_singleton, Bool.false_eq_true, if_false, ← @held_add_charged opts c n]
        abel
      · exact fun _ => rfl
    · intro hStrict k
      simp [charged_loose hStrict]

theorem queued_serialized {jobs : List SerializedJob} :
    queued { s with pendingSerialized := jobs } + (s.pendingSerialized.map serializedDebt).sum =
      queued s + (jobs.map serializedDebt).sum := by
  have hReserved : reserved { s with pendingSerialized := jobs } = reserved s := rfl
  simp only [queued, hReserved]
  abel

theorem queued_admission {n : UInt64} {route : Nat} {replaced : SerializedJob → Bool} :
    queued { s with pendingSerialized := s.pendingSerialized.filter (fun job => !replaced job) ++ [⟨c, n, route⟩] } +
        ((s.pendingSerialized.filter replaced).map serializedDebt).sum =
      queued s + (serialized c + requests c + bytes c n) := by
  have hQueued := @queued_serialized s
    (s.pendingSerialized.filter (fun job => !replaced job) ++ [⟨c, n, route⟩])
  rw [← sum_filter_add s.pendingSerialized replaced, List.map_append, List.sum_append, ← add_assoc, ← add_assoc,
    add_right_comm _ _ (List.map serializedDebt [⟨c, n, route⟩]).sum] at hQueued
  have hSame := add_right_cancel hQueued
  rw [hSame]
  simp [serializedDebt]

theorem enqueueSerializedJob_flow {n : UInt64} {route : Nat} {site : AdmissionSite}
    (h : exec opts s (.enqueueSerializedJob c n route site) choice = some (t, ops)) :
    ∃ gained, Trade opts (.enqueueSerializedJob c n route site) gained 0 ∧
      Flow opts s t (.enqueueSerializedJob c n route site) ops gained 0 := by
  obtain ⟨rfl, hOps⟩ | ⟨latestWins, hNext⟩ := enqueueSerializedJob_cases h
  · refine ⟨0, .still _, .still rfl (congrArg (· + queued t) ?_)⟩
    cases site with
    | dispatch r =>
      obtain rfl | rfl | rfl := hOps
      · rw [afterAllocationFailed, Threads.weigh_coe_append, weigh_giveBack]
        simp [debt]
      · rw [afterStopping, Threads.weigh_coe_append, weigh_giveBack]
        simp [debt]
      · rw [afterBusy, Threads.weigh_coe_append, weigh_giveBack]
        simp [debt]
    | continuation =>
      obtain rfl | rfl | rfl := hOps
      · simp [afterAllocationFailed, debt]
      · simp [afterStopping, debt]
      · simp [afterBusy, debt]
  · obtain ⟨rfl, rfl⟩ := Prod.mk.inj hNext
    have hAdmit := @queued_admission s c n route fun job => latestWins && job.route == route
    have hCounted : ∀ q : State,
        counters (q.update c fun k => { k with pendingSerialized := k.pendingSerialized + 1 }) =
          counters q + wrap (serialized c) :=
      fun q => counters_add single_other fun l => by simp [entry, wrap, serialized]
    cases site with
    | dispatch r =>
      refine ⟨serialized c + requests c + charged opts c n, .serialize c n route r, .gain ?_ ?_ ?_⟩
      · rw [counters_account, hCounted]
        change counters s + wrap (serialized c) + _ = _
        simp only [wrap_add]
        abel
      · rw [queued_account, queued_update, Threads.weigh_coe_append, weigh_finishSuperseded]
        · rw [← @held_add_charged opts c n] at hAdmit
          have hZero : Threads.weigh (debt opts) (afterAdmitted c n (.dispatch r) : Multiset Op) = 0 := by
            simp [afterAdmitted, debt]
          rw [hZero, add_zero, add_comm, hAdmit, debt]
          abel
        · exact fun _ => rfl
      · intro hStrict k
        simp [charged_loose hStrict]
    | continuation =>
      refine ⟨serialized c, .handOn c n route, .gain (hCounted _) ?_ ?_⟩
      · rw [queued_update, Threads.weigh_coe_append, weigh_finishSuperseded]
        · have hActive : Threads.weigh (debt opts) (afterAdmitted c n .continuation : Multiset Op) = active c := by
            simp [afterAdmitted, debt]
          rw [hActive, add_right_comm, add_comm _ (queued _), hAdmit, debt]
          abel
        · exact fun _ => rfl
      · intro _ k
        exact serialized_bytes k

theorem reserveConnection_flow {r : Nat} {n : UInt64}
    (h : exec opts s (.reserveConnection c r n) choice = some (t, ops)) :
    ∃ gained, Trade opts (.reserveConnection c r n) gained 0 ∧
      Flow opts s t (.reserveConnection c r n) ops gained 0 := by
  have hQueued := queued_kept h (by simp [writes])
  simp only [exec, reserveConnection] at h
  split at h
  · rename_i hFits
    cases h
    refine ⟨bytes c n, .reserve c r n, ?_, ?_, ?_⟩
    · rw [wrap_zero, add_zero]
      refine counters_add single_other fun l => ?_
      simp [entry, wrap, bytes]
    · rw [hQueued]
      simp [debt, add_comm]
    · intro _ k hGained
      obtain rfl : k = c := by
        by_contra hOther
        rw [bytes, Pi.single_apply, if_neg hOther] at hGained
        exact hGained rfl
      exact ⟨r, n, rfl, hFits, by simp [bytes]⟩
  · cases h
    exact ⟨0, .still _, .still rfl (by simp [debt])⟩

/-- The operations that keep the ledger only if the parser holds what they take from it, and the exception
that drops a request. -/
def inexact : Op → Bool
  | .payloadReserved .. | .dispatchRequest .. | .dispatchStream .. | .rearmLocked .. => true
  | .threw _ (.continuation _) => true
  | _ => false

theorem exec_trade (h : exec opts s op choice = some (t, ops)) (hSane : Sane opts s op)
    (hExact : inexact op = false) :
    ∃ gained spent, Trade opts op gained spent ∧ Flow opts s t op ops gained spent := by
  cases hPasses : passes op with
  | true =>
    obtain ⟨hAccount, hJobs, hSerialized, hReservation⟩ := passes_writes hPasses
    refine ⟨0, 0, .still _, .still (counters_kept h hAccount) ?_⟩
    rw [passes_debt h hPasses, queued_kept h ⟨hJobs, hSerialized, hReservation⟩]
  | false =>
    cases op with
    | releaseConnectionRequest k n =>
      have hQueued := queued_kept h (by simp [writes])
      cases h
      refine ⟨0, bytes k n, .release k n, .spend (counters_sub single_other fun l => ?_) ?_⟩
      · simp [entry, wrap, bytes]
      · rw [hQueued]
        simp only [debt, Multiset.coe_singleton, Threads.weigh_singleton]
        abel
    | releaseConnectionRequestBytes k n =>
      have hQueued := queued_kept h (by simp [writes])
      simp only [exec] at h
      split at h
      · rename_i hZero
        cases h
        refine ⟨0, 0, .still _, .still rfl ?_⟩
        simp [debt, hZero, bytes_zero]
      · cases h
        refine ⟨0, bytes k n, .releaseBytes k n, .spend (counters_sub single_other fun l => ?_) ?_⟩
        · simp [entry, wrap, bytes]
        · rw [hQueued]
          simp [debt, add_comm]
    | subRequests k n =>
      have hQueued := queued_kept h (by simp [writes])
      cases h
      refine ⟨0, requests k, .subRequests k n, .spend (counters_sub single_other fun l => ?_) ?_⟩
      · simp [entry, wrap, requests]
      · rw [hQueued]
        simp [debt, add_comm]
    | reserveConnection k r n =>
      obtain ⟨gained, hTrade, hFlow⟩ := reserveConnection_flow h
      exact ⟨gained, 0, hTrade, hFlow⟩
    | unreserveConnection k r n =>
      have hQueued := queued_kept h (by simp [writes])
      cases h
      refine ⟨0, bytes k n, .unreserve k r n, .spend (counters_sub single_other fun l => ?_) ?_⟩
      · simp [entry, wrap, bytes]
      · rw [hQueued]
        simp [debt, add_comm]
    | closeConnection k reactor => exact ⟨0, 0, .still _, closeConnection_flow h⟩
    | enqueueWorkerJob k r n isStream =>
      obtain ⟨gained, hTrade, hFlow⟩ := enqueueWorkerJob_flow h
      exact ⟨gained, 0, hTrade, hFlow⟩
    | workerLoop =>
      refine ⟨0, 0, .still _, .still (counters_kept h (by simp [writes])) ?_⟩
      obtain ⟨job, rest, hJobs, rfl, rfl⟩ | ⟨rfl, rfl⟩ := workerLoop_cases h
      · have hReserved : reserved { s with pendingJobs := rest } = reserved s := rfl
        rw [startJob_debt]
        simp only [debt, queued, hReserved, hJobs, List.map_cons, List.sum_cons]
        abel
      · simp [debt]
    | completeRegularRequest k n release =>
      have hQueued := queued_kept h (by simp [writes])
      cases h
      refine ⟨0, active k, .complete k n release, .spend (counters_sub single_other fun l => ?_) ?_⟩
      · simp [entry, wrap, active]
      · rw [hQueued]
        cases release with
        | true =>
          simp [debt]
          abel
        | false => simp [debt, add_comm]
    | addActive k n session =>
      have hQueued := queued_kept h (by simp [writes])
      cases h
      refine ⟨active k, 0, .addActive k n session, .gain (counters_add single_other fun l => ?_) ?_ fun _ =>
        active_bytes⟩
      · simp [entry, wrap, active]
      · rw [hQueued]
        simp [debt, add_comm]
    | addRequests k n session =>
      have hQueued := queued_kept h (by simp [writes])
      cases h
      refine ⟨requests k, 0, .addRequests k n session, .gain (counters_add single_other fun l => ?_) ?_ fun _ =>
        requests_bytes⟩
      · simp [entry, wrap, requests]
      · rw [hQueued]
        simp only [debt, Multiset.coe_singleton, Threads.weigh_singleton]
        abel
    | addBytes k n session =>
      have hQueued := queued_kept h (by simp [writes])
      cases h
      refine ⟨bytes k n, 0, .addBytes k n session, .gain (counters_add single_other fun l => ?_) ?_ fun hStrict => ?_⟩
      · simp [entry, wrap, bytes]
      · rw [hQueued]
        simp only [debt, Multiset.coe_singleton, Threads.weigh_singleton]
        abel
      · cases (hSane.of_worker rfl).symm.trans hStrict
    | enqueueSerializedJob k n route site =>
      obtain ⟨gained, hTrade, hFlow⟩ := enqueueSerializedJob_flow h
      exact ⟨gained, 0, hTrade, hFlow⟩
    | serializedWorkerLoop =>
      refine ⟨0, 0, .still _, .still (counters_kept h (by simp [writes])) ?_⟩
      obtain ⟨index, job, hJob, rfl, rfl⟩ | ⟨rfl, rfl⟩ := serializedWorkerLoop_cases h
      · have hReserved : reserved { s with pendingSerialized := s.pendingSerialized.eraseIdx index } = reserved s := rfl
        simp only [queued, hReserved, ← sum_eraseIdx hJob]
        simp [debt, serializedDebt]
        abel
      · simp [debt]
    | subSerialized k n =>
      have hQueued := queued_kept h (by simp [writes])
      cases h
      refine ⟨0, serialized k, .subSerialized k n, .spend (counters_sub single_other fun l => ?_) ?_⟩
      · simp [entry, wrap, serialized]
      · rw [hQueued]
        simp only [debt, Multiset.coe_singleton, Threads.weigh_singleton]
        abel
    | threw k site => cases site <;> first | cases hPasses; done | cases hExact
    | _ => first | cases hPasses; done | cases hExact

theorem exec_flow (h : exec opts s op choice = some (t, ops)) (hAccounts : Accounts opts s op) :
    ∃ gained spent, Flow opts s t op ops gained spent := by
  obtain ⟨hParsing, hSane, hThrew⟩ := hAccounts
  cases hInexact : inexact op with
  | true =>
    cases op with
    | payloadReserved k r n =>
      have hQueued : queued t + bytes k (s.connections k).reservedRequestBytes = queued s + bytes k n := by
        cases h
        exact queued_set rfl rfl (fun _ hc => State.update_other _ _ hc)
          (congrArg Connection.reservedRequestBytes (State.update_self _ k _))
      rw [hParsing.2.1.2, bytes_zero, add_zero] at hQueued
      refine ⟨0, 0, .still (counters_kept h (by simp [writes])) ?_⟩
      obtain ⟨-, rfl⟩ := outcome_eq h
      rw [hQueued]
      simp [payloadReserved, debt, add_comm]
    | dispatchRequest k r serialized session => exact ⟨0, 0, dispatchRequest_flow h hParsing⟩
    | dispatchStream k r => exact ⟨0, 0, dispatchStream_flow h hParsing⟩
    | rearmLocked k mayReuse site =>
      have hZero : (s.connections k).reservedRequestBytes = 0 := by
        cases site with
        | continuation => exact (parsing_of_lease (.inl rfl)).mp hParsing
        | stream => exact (parsing_of_lease (.inr rfl)).mp hParsing
        | failed => exact hSane.elim
      have hReset : (t.connections k).reservedRequestBytes = 0 := by
        obtain ⟨more, rfl, -⟩ | ⟨rfl, -⟩ := rearmLocked_cases h
        · rw [rearm, State.update_self]
        · rw [rearm, State.update_self]
      have hQueued := queued_set ((exec_keeps h).jobs (by simp [writes]))
        ((exec_keeps h).serializedJobs (by simp [writes])) (fun _ hc => rearmLocked_other h hc) hReset
      rw [hZero] at hQueued
      refine ⟨0, 0, .still (counters_kept h (by simp [writes])) ?_⟩
      rw [add_right_cancel hQueued]
      obtain ⟨more, -, rfl⟩ | ⟨-, rfl⟩ := rearmLocked_cases h
      · simp [debt]
      · simp [debt]
    | threw k site =>
      cases site with
      | continuation n => exact absurd rfl (hThrew k n)
      | _ => cases hInexact
    | _ => cases hInexact
  | false =>
    obtain ⟨gained, spent, -, hFlow⟩ := exec_trade h hSane hInexact
    exact ⟨gained, spent, hFlow⟩

end EasyUds.Server.Ledger

import EasyUds.Server.Budget
import EasyUds.Server.Gauges

/-! # The end of `run()`

`run()` waits for the reactor, stops the pools, waits for the workers and drops what is left in the
connection table. The threads are those of the server; thread 1 is `run()` itself while it is in `stop_state`.
The workers drain their queues, so what they have taken is given back. What a connection of the dropped
table still holds is not: neither the reservation of a partly received frame nor the output that could not
be sent.

The model adds what the shared state of the server leaves out: `total_queued_output_bytes`, and the
`SerializedDomainGuard` of every serialized worker with `active_serialized_domain_count`. The serialized
workers stand ready from the beginning; `enqueue_serialized_job` starts them before the first job is queued.
-/

namespace EasyUds.Server.Shutdown

open Lib Server.Core Server.Steps Server.Outcomes Server.Footprint
open Server.Accounting Server.Gauges
open Server.Budget (strict reserveRequest)

open Threads (weigh)

/-- Where `run()` stands. -/
inductive Main
  | joinReactor
  | stopping
  | returned
  deriving DecidableEq, Repr

structure Run where
  server : Threads State Op
  totalQueuedOutputBytes : UInt64 := 0
  activeSerializedDomainCount : UInt64 := 0
  /-- The threads that hold a `SerializedDomainGuard`, with the domain that is active through it. -/
  guards : List (Nat × Nat) := []
  /-- `run_reactor` has thrown. -/
  reactorFailed : Bool := false
  main : Main := .joinReactor

inductive Action
  | thread (thread : Nat) (choice : Choice)
  /-- the destructor of the `SerializedDomainGuard` of a thread -/
  | deactivate (thread : Nat)
  | reactorFails
  | main
  deriving DecidableEq, Repr

def runner : Nat := 1

section Steps

variable (opts : Options) (maxTotalOutputBytes : UInt64) (domain : Nat → Nat) (r : Run)

/-- `total_queued_output_bytes` after an operation; the reservation may fail. -/
def settleOutput (s : State) (total : UInt64) : Op → Choice → Option UInt64
  | .writeFixedResponse .., .queued n =>
    if maxTotalOutputBytes = 0 ∨ (total ≤ maxTotalOutputBytes ∧ n ≤ maxTotalOutputBytes - total) then some (total + n)
    else none
  | .flushConnectionOutput .., .flushed n => some (total - n)
  | .closeConnection c _, _ => some (if c ∈ s.table then total - (s.connections c).queuedOutputBytes else total)
  | _, _ => some total

def runnable (job : SerializedJob) : Bool := r.guards.all fun guard => guard.2 != domain job.route

/-- The reactor that has thrown goes no further, and `run()` is in `stop_state` after the reactor's end. -/
def scheduled (thread : Nat) : Bool := !(thread == 0 && r.reactorFailed) && (thread != runner || r.main == .stopping)

def enabled (thread : Nat) : Op → Choice → Bool
  | .serializedWorkerLoop, .take index =>
    r.guards.all (·.1 != thread) && r.server.shared.pendingSerialized.findIdx? (runnable domain r) == some index
  | .serializedWorkerLoop, _ =>
    r.guards.all (·.1 != thread) && !r.server.shared.pendingSerialized.any (runnable domain r)
  | _, _ => true

def activate (thread : Nat) : Op → Choice → Run
  | .serializedWorkerLoop, .take index =>
    match r.server.shared.pendingSerialized[index]? with
    | some job =>
      { r with
        activeSerializedDomainCount := r.activeSerializedDomainCount + 1
        guards := (thread, domain job.route) :: r.guards }
    | none => r
  | _, _ => r

def threadStep (thread : Nat) (choice : Choice) : Option Run :=
  match r.server.next thread with
  | none => none
  | some op =>
    if scheduled r thread && enabled domain r thread op choice then
      (Threads.step (exec opts) r.server (thread, choice)).bind fun server =>
        (settleOutput maxTotalOutputBytes r.server.shared r.totalQueuedOutputBytes op choice).map fun total =>
          { activate domain r thread op choice with server := server, totalQueuedOutputBytes := total }
    else none

def deactivate (thread : Nat) : Option Run :=
  if r.server.next thread = some .serializedWorkerLoop ∧ r.guards.any (·.1 == thread) then
    some
      { r with
        activeSerializedDomainCount := r.activeSerializedDomainCount - 1
        guards := r.guards.eraseP (·.1 == thread) }
  else none

def stops : Op → Bool
  | .stopRunning | .stopWorkers | .stopSerialized => true
  | _ => false

def reactorEnded : Bool := r.reactorFailed || r.server.programs.head? == some []

/-- `stop_state` has returned to `run()` and every worker has ended; another caller of `stop()` may be on
its way. -/
def joined : Bool :=
  r.server.programs[runner]? == some [] && r.server.programs.tail.all fun program => program.all stops

/-- The remaining connections are closed and the table is cleared. -/
def clear (s : State) : State :=
  { s with
    table := []
    connections := fun c => if c ∈ s.table then { s.connections c with closing := true } else s.connections c }

def mainStep : Option Run :=
  match r.main with
  | .joinReactor => if reactorEnded r then some { r with main := .stopping } else none
  | .stopping =>
    if joined r then some { r with server := ⟨clear r.server.shared, r.server.programs⟩, main := .returned } else none
  | .returned => none

def step : Action → Option Run
  | .thread thread choice => threadStep opts maxTotalOutputBytes domain r thread choice
  | .deactivate thread => deactivate r thread
  | .reactorFails =>
    if r.server.programs.head? = some [.runReactor] then some { r with reactorFailed := true } else none
  | .main => mainStep r

def Initial (r : Run) : Prop :=
  ∃ others : List Op, (∀ op ∈ others, idle op) ∧ .workerLoop ∈ others ∧ .serializedWorkerLoop ∈ others ∧
    r = { server := ⟨{}, [.runReactor] :: [.stopRunning] :: others.map fun op => [op]⟩ }

def machine : Machine Run Action where
  initial := Initial
  step := step opts maxTotalOutputBytes domain

end Steps

variable {opts : Options} {maxTotalOutputBytes : UInt64} {domain : Nat → Nat} {r later : Run}

def queuedOutput (s : State) (c : Nat) : UInt64 := (s.connections c).queuedOutputBytes

section Output

variable {s t : State} {total after : UInt64} {op : Op} {choice : Choice} {ops : List Op}

theorem queuedOutput_update {c k : Nat} {f : Connection → Connection}
    (hf : ∀ l, (f l).queuedOutputBytes = l.queuedOutputBytes) : queuedOutput (s.update c f) k = queuedOutput s k := by
  rw [queuedOutput, State.update_apply]
  split
  · exact hf _
  · rfl

theorem queuedOutput_other {c k : Nat} {f : Connection → Connection} (hk : k ≠ c) :
    queuedOutput (s.update c f) k = queuedOutput s k := by
  rw [queuedOutput, State.update_other _ _ hk, queuedOutput]

structure Settles (s t : State) (total after : UInt64) (k : Nat) : Prop where
  others : ∀ c, c ≠ k → queuedOutput t c = queuedOutput s c
  settled : after = total + (queuedOutput t k - queuedOutput s k)

theorem Settles.still (h : ∀ c, queuedOutput t c = queuedOutput s c) : Settles s t total total 0 :=
  ⟨fun c _ => h c, by rw [h, sub_self, add_zero]⟩

theorem writeFixedResponse_settles {c : Nat} {site : WriteSite}
    (h : writeFixedResponse opts s c site choice = some (t, ops))
    (hOutput : settleOutput maxTotalOutputBytes s total (.writeFixedResponse c site) choice = some after) :
    ∃ k, Settles s t total after k := by
  cases choice with
  | queued n =>
    unfold settleOutput at hOutput
    unfold writeFixedResponse at h
    dsimp only at h hOutput
    split at h
    · cases h
      split at hOutput
      · cases hOutput
        refine ⟨c, fun k hk => queuedOutput_other hk, ?_⟩
        simp [queuedOutput]
      · cases hOutput
    · cases h
  | refused | sent =>
    cases hOutput
    unfold writeFixedResponse at h
    dsimp only at h
    split at h
    · cases h
      exact ⟨0, .still fun _ => rfl⟩
    · cases h
  | sendFailed =>
    cases hOutput
    unfold writeFixedResponse at h
    dsimp only at h
    split at h
    · cases h
      exact ⟨0, .still fun _ => queuedOutput_update fun _ => rfl⟩
    · cases h
  | overflow =>
    cases hOutput
    cases h
    exact ⟨0, .still fun _ => rfl⟩
  | _ => cases h

theorem flushConnectionOutput_settles {c object : Nat} {readAllowed : Bool}
    (h : flushConnectionOutput s c object readAllowed choice = some (t, ops))
    (hOutput :
      settleOutput maxTotalOutputBytes s total (.flushConnectionOutput c object readAllowed) choice = some after) :
    ∃ k, Settles s t total after k := by
  cases choice with
  | flushed n =>
    cases hOutput
    unfold flushConnectionOutput at h
    dsimp only at h
    split at h
    · cases h
      refine ⟨c, fun k hk => queuedOutput_other hk, ?_⟩
      simp [queuedOutput, sub_eq_add_neg]
    · cases h
  | refused =>
    cases hOutput
    unfold flushConnectionOutput at h
    dsimp only at h
    split at h
    · cases h
    · cases h
      exact ⟨0, .still fun _ => queuedOutput_update fun _ => rfl⟩
  | _ => cases h

theorem exec_settles (h : exec opts s op choice = some (t, ops))
    (hOutput : settleOutput maxTotalOutputBytes s total op choice = some after) : ∃ k, Settles s t total after k := by
  by_cases hField : .output ∈ writes op
  · cases op with
    | writeFixedResponse c site => exact writeFixedResponse_settles h hOutput
    | flushConnectionOutput c object readAllowed => exact flushConnectionOutput_settles h hOutput
    | closeConnection c reactor =>
      obtain ⟨rfl, -⟩ := outcome_eq h
      simp only [settleOutput, Option.some.injEq] at hOutput
      subst hOutput
      simp only [closeConnection, close]
      split
      · refine ⟨c, fun k hk => queuedOutput_other hk, ?_⟩
        simp [queuedOutput, sub_eq_add_neg]
      · exact ⟨0, .still fun _ => rfl⟩
    | _ => simp [writes] at hField
  · have hSame : after = total := by
      cases op <;> first | exact (Option.some.inj hOutput).symm | simp [writes] at hField
    rw [hSame]
    exact ⟨0, .still fun c => (exec_keeps h).output c hField⟩

end Output

def leavesNothing (r : Run) : Action → Prop
  | .thread thread choice =>
    releasesOnce r.server (thread, choice) = true ∧
      ∀ c object n, r.server.next thread = some (.enqueueWorkerJob c object n true) →
        r.server.shared.workersStopping = false ∧ choice ≠ .allocationFailed
  | .main =>
    r.main = .stopping →
      ∀ c, (r.server.shared.connections c).reservedRequestBytes = 0 ∧ queuedOutput r.server.shared c = 0
  | _ => True

structure Live (opts : Options) (r : Run) : Prop where
  reached : (Steps.machine opts).Reached (fun system action => releasesOnce system action = true) r.server
  bytes : RequestBytes r.server
  output : Totals (queuedOutput r.server.shared) r.totalQueuedOutputBytes
  streams : StreamSlots r.server
  demand : Demand r.server.shared → .workerLoop ∈ r.server.pending
  serializedDemand : SerializedDemand r.server.shared → .serializedWorkerLoop ∈ r.server.pending
  guards : ∀ guard ∈ r.guards, ∃ program, r.server.programs[guard.1]? = some program ∧ .serializedWorkerLoop ∈ program
  count : r.activeSerializedDomainCount = UInt64.ofNat r.guards.length
  reactor : r.reactorFailed = true → r.server.programs.head? = some [.runReactor]
  ended : r.main ≠ .joinReactor → reactorEnded r = true

/-- What holds when `run()` has returned: the gauges are zero, and only callers of `stop()` are left. -/
structure Final (r : Run) : Prop where
  total : r.server.shared.totalInflightRequestBytes = 0
  output : r.totalQueuedOutputBytes = 0
  streams : r.server.shared.activeStreams = 0
  domains : r.activeSerializedDomainCount = 0
  jobs : r.server.shared.pendingJobs = []
  serializedJobs : r.server.shared.pendingSerialized = []
  table : r.server.shared.table = []
  guards : r.guards = []
  ended : reactorEnded r = true
  joined : ∀ thread program, 0 < thread → r.server.programs[thread]? = some program → ∀ op ∈ program, stops op = true

theorem threadStep_cases {thread : Nat} {choice : Choice}
    (h : threadStep opts maxTotalOutputBytes domain r thread choice = some later) :
    ∃ op, r.server.next thread = some op ∧ scheduled r thread = true ∧ enabled domain r thread op choice = true ∧
      Threads.step (exec opts) r.server (thread, choice) = some later.server ∧
      settleOutput maxTotalOutputBytes r.server.shared r.totalQueuedOutputBytes op choice =
        some later.totalQueuedOutputBytes ∧
      later = { activate domain r thread op choice with
        server := later.server, totalQueuedOutputBytes := later.totalQueuedOutputBytes } := by
  unfold threadStep at h
  split at h
  · cases h
  · rename_i op hNext
    split at h
    · rename_i hEnabled
      obtain ⟨server, hStep, hRest⟩ := Option.bind_eq_some_iff.mp h
      obtain ⟨total, hOutput, rfl⟩ := Option.map_eq_some_iff.mp hRest
      rw [Bool.and_eq_true] at hEnabled
      exact ⟨op, hNext, hEnabled.1, hEnabled.2, hStep, hOutput, rfl⟩
    · cases h

theorem activate_position (domain : Nat → Nat) (r : Run) (thread : Nat) (op : Op) (choice : Choice) :
    (activate domain r thread op choice).main = r.main ∧
      (activate domain r thread op choice).reactorFailed = r.reactorFailed := by
  unfold activate
  split
  · split <;> exact ⟨rfl, rfl⟩
  · exact ⟨rfl, rfl⟩

theorem activate_cases (domain : Nat → Nat) (r : Run) (thread : Nat) (op : Op) (choice : Choice) :
    ((activate domain r thread op choice).guards = r.guards ∧
        (activate domain r thread op choice).activeSerializedDomainCount = r.activeSerializedDomainCount) ∨
      ∃ d index, op = .serializedWorkerLoop ∧ choice = .take index ∧
        (activate domain r thread op choice).guards = (thread, d) :: r.guards ∧
        (activate domain r thread op choice).activeSerializedDomainCount = r.activeSerializedDomainCount + 1 := by
  unfold activate
  split
  · split
    · rename_i job hJob
      exact .inr ⟨domain job.route, _, rfl, rfl, rfl, rfl⟩
    · exact .inl ⟨rfl, rfl⟩
  · exact .inl ⟨rfl, rfl⟩

theorem enabled_loop {thread : Nat} {choice : Choice}
    (h : enabled domain r thread .serializedWorkerLoop choice = true) :
    (∀ guard ∈ r.guards, guard.1 ≠ thread) ∧
      ((∃ index, choice = .take index) ∨ ∀ job ∈ r.server.shared.pendingSerialized, runnable domain r job = false) := by
  unfold enabled at h
  split at h
  · rw [Bool.and_eq_true, List.all_eq_true] at h
    exact ⟨fun guard hGuard => by simpa using h.1 guard hGuard, .inl ⟨_, rfl⟩⟩
  · rw [Bool.and_eq_true, List.all_eq_true] at h
    refine ⟨fun guard hGuard => by simpa using h.1 guard hGuard, .inr fun job hJob => ?_⟩
    have hNone := h.2
    simp only [Bool.not_eq_true', List.any_eq_false] at hNone
    simpa using hNone job hJob
  · rename_i hLoop _
    exact (hLoop rfl).elim

section Thread

variable {thread : Nat} {choice : Choice} {op : Op} {ops rest : List Op}
  (hProgram : r.server.programs[thread]? = some (op :: rest))
  (hPrograms : later.server.programs = r.server.programs.set thread (ops ++ rest))
include hPrograms

theorem program_of_ne {i : Nat} (hi : i ≠ thread) : later.server.programs[i]? = r.server.programs[i]? := by
  rw [hPrograms, List.getElem?_set_ne (Ne.symm hi)]

theorem Live.reactor_next (hLive : Live opts r) (hScheduled : scheduled r thread = true)
    (hFailed : r.reactorFailed = true) : later.server.programs.head? = some [.runReactor] := by
  have hHead := hLive.reactor hFailed
  rw [List.head?_eq_getElem?] at hHead ⊢
  by_cases hThread : 0 = thread
  · subst hThread
    simp [scheduled, hFailed] at hScheduled
  · rw [program_of_ne hPrograms hThread, hHead]

include hProgram

theorem program_self : later.server.programs[thread]? = some (ops ++ rest) := by
  obtain ⟨hLength, -⟩ := List.getElem?_eq_some_iff.mp hProgram
  rw [hPrograms, List.getElem?_set_self hLength]

theorem Live.guard_next (hLive : Live opts r)
    (hLoop : op = .serializedWorkerLoop → ∀ guard ∈ r.guards, guard.1 ≠ thread) :
    ∀ guard ∈ r.guards, ∃ program, later.server.programs[guard.1]? = some program ∧
      .serializedWorkerLoop ∈ program := by
  intro guard hGuard
  obtain ⟨program, hOld, hMem⟩ := hLive.guards guard hGuard
  by_cases hThread : guard.1 = thread
  · rw [hThread, hProgram] at hOld
    cases hOld
    refine ⟨ops ++ rest, hThread ▸ program_self hProgram hPrograms, List.mem_append_right _ ?_⟩
    rcases List.mem_cons.mp hMem with hFirst | hRest
    · exact absurd hThread (hLoop hFirst.symm guard hGuard)
    · exact hRest
  · exact ⟨program, (program_of_ne hPrograms hThread).trans hOld, hMem⟩

/-- A serialized worker that finds no job to take leaves the jobs of an active domain to its holder. -/
theorem Live.serializedDemand_next (hLive : Live opts r) (hEnabled : enabled domain r thread op choice = true)
    {others : Multiset Op} (hTurn : Turn opts r.server op choice ops others later.server)
    (hDemand : SerializedDemand later.server.shared) : .serializedWorkerLoop ∈ later.server.pending := by
  have hLoop := hLive.serializedDemand (serializedDemand_of_next hTurn.exec hDemand)
  rw [hTurn.before, Multiset.mem_cons] at hLoop
  rcases hLoop with rfl | hOthers
  · obtain ⟨hFree, hChoice⟩ := enabled_loop hEnabled
    obtain hAgain | ⟨hShared, hStopping, hLeave⟩ := serializedWorkerLoop_stays hTurn.exec
    · rw [hTurn.after]
      exact Multiset.mem_add.mpr (.inl hAgain)
    · -- some job is left, and the holder of its domain is another thread
      rw [SerializedDemand, hShared, hStopping] at hDemand
      obtain ⟨job, hJob⟩ := List.exists_mem_of_ne_nil _ (hDemand.resolve_left nofun)
      have hBusy := hChoice.resolve_left (fun ⟨index, hTake⟩ => hLeave index hTake) job hJob
      simp only [runnable, List.all_eq_false, bne_iff_ne, Decidable.not_not] at hBusy
      obtain ⟨guard, hGuard, -⟩ := hBusy
      obtain ⟨program, hHolder, hMem⟩ := hLive.guards guard hGuard
      rw [← program_of_ne hPrograms (hFree guard hGuard)] at hHolder
      exact Threads.mem_pending.mpr ⟨program, List.mem_of_getElem? hHolder, hMem⟩
  · rw [hTurn.after]
    exact Multiset.mem_add.mpr (.inr hOthers)

theorem ended_next (hSame : later.reactorFailed = r.reactorFailed) (hEnded : reactorEnded r = true) :
    reactorEnded later = true := by
  rw [reactorEnded, Bool.or_eq_true, beq_iff_eq] at hEnded ⊢
  rw [hSame]
  refine hEnded.imp_right fun hHead => ?_
  rw [List.head?_eq_getElem?] at hHead ⊢
  rw [program_of_ne hPrograms, hHead]
  rintro rfl
  rw [hProgram] at hHead
  cases hHead

end Thread

theorem Live.thread {thread : Nat} {choice : Choice} (hLive : Live opts r)
    (hGuard : leavesNothing r (.thread thread choice))
    (hStep : threadStep opts maxTotalOutputBytes domain r thread choice = some later) : Live opts later := by
  obtain ⟨op, hNext, hScheduled, hEnabled, hServer, hOutput, hLater⟩ := threadStep_cases hStep
  obtain ⟨o, ops, rest, others, hProgram, hPrograms, hTurn⟩ := Threads.step_programs hServer
  obtain rfl : op = o := Option.some.inj (hNext.symm.trans (Threads.next_of_program hProgram))
  obtain ⟨hMain, hFailed⟩ := activate_position domain r thread op choice
  have hLoop : op = .serializedWorkerLoop → ∀ guard ∈ r.guards, guard.1 ≠ thread := by
    rintro rfl
    exact (enabled_loop hEnabled).1
  have hFailedLater : later.reactorFailed = r.reactorFailed := by rw [hLater, hFailed]
  refine ⟨.next hLive.reached hGuard.1 hServer, hLive.bytes.next hTurn, ?_, ?_, ?_, ?_, ?_, ?_, ?_, ?_⟩
  · obtain ⟨k, hSettles⟩ := exec_settles hTurn.exec hOutput
    rw [hSettles.settled]
    exact hLive.output.change k hSettles.others
  · refine hLive.streams.next hTurn fun c object n hOp => ?_
    obtain ⟨hOpen, hChoice⟩ := hGuard.2 c object n (hOp ▸ hNext)
    have hExec := hTurn.exec
    subst hOp
    simp only [exec, enqueueWorkerJob, hOpen, hChoice, Bool.false_eq_true, if_false, if_true] at hExec
    have hJobs := congrArg (fun next => next.1.pendingJobs) (Option.some.inj hExec)
    intro hSame
    simp [hSame] at hJobs
  · exact demand_next hTurn hLive.demand
  · exact hLive.serializedDemand_next hProgram hPrograms hEnabled hTurn
  · have hKept := hLive.guard_next hProgram hPrograms hLoop
    rw [hLater]
    obtain ⟨hGuards, -⟩ | ⟨d, index, rfl, rfl, hGuards, -⟩ := activate_cases domain r thread op choice
    · rw [hGuards]
      exact hKept
    · rw [hGuards]
      have hTake : serializedWorkerLoop r.server.shared (.take index) = some (later.server.shared, ops) := hTurn.exec
      have hAgain := (serializedWorkerLoop_stays hTake).resolve_right fun hLeaves => hLeaves.2.2 index rfl
      refine List.forall_mem_cons.mpr ⟨?_, hKept⟩
      exact ⟨ops ++ rest, program_self hProgram hPrograms, List.mem_append_left _ hAgain⟩
  · rw [hLater]
    obtain ⟨hGuards, hCount⟩ | ⟨d, index, -, -, hGuards, hCount⟩ := activate_cases domain r thread op choice
    · rw [hGuards, hCount, hLive.count]
    · rw [hGuards, hCount, hLive.count, List.length_cons, UInt64.ofNat_add]
      rfl
  · rw [hFailedLater]
    exact hLive.reactor_next hPrograms hScheduled
  · intro hMainLater
    refine ended_next hProgram hPrograms hFailedLater (hLive.ended ?_)
    rwa [hLater, hMain] at hMainLater

theorem Live.deactivate {thread : Nat} (hLive : Live opts r) (hStep : Shutdown.deactivate r thread = some later) :
    Live opts later := by
  unfold Shutdown.deactivate at hStep
  split at hStep
  · rename_i hHeld
    cases hStep
    refine { hLive with guards := fun guard hGuard => hLive.guards guard (List.mem_of_mem_eraseP hGuard), count := ?_ }
    obtain ⟨guard, hGuard, hThread⟩ := List.any_eq_true.mp hHeld.2
    have hLength : (r.guards.eraseP (·.1 == thread)).length + 1 = r.guards.length := by
      rw [List.length_eraseP_of_mem (p := fun guard => guard.1 == thread) hGuard hThread]
      exact Nat.sub_add_cancel (List.length_pos_of_mem hGuard)
    rw [hLive.count, ← hLength, UInt64.ofNat_add]
    exact add_sub_cancel_right _ _
  · cases hStep

theorem Live.reactorFails (hLive : Live opts r) (hHead : r.server.programs.head? = some [.runReactor]) :
    Live opts { r with reactorFailed := true } :=
  { hLive with
    reactor := fun _ => hHead
    ended := fun _ => by rw [reactorEnded, Bool.true_or] }

theorem Live.joinReactor (hLive : Live opts r) (hEnded : reactorEnded r = true) :
    Live opts { r with main := .stopping } :=
  { hLive with ended := fun _ => hEnded }

theorem Live.pending_joined (hLive : Live opts r) (hMain : r.main ≠ .joinReactor) (hJoined : joined r = true) :
    ∀ op ∈ r.server.pending, op = .runReactor ∨ stops op = true := by
  intro op hOp
  obtain ⟨program, hProgram, hMem⟩ := Threads.mem_pending.mp hOp
  rw [joined, Bool.and_eq_true] at hJoined
  have hWorkers := List.all_eq_true.mp hJoined.2
  obtain ⟨first, others, hPrograms⟩ := List.exists_cons_of_ne_nil (List.ne_nil_of_mem hProgram)
  rw [hPrograms, List.mem_cons] at hProgram
  rw [hPrograms, List.tail_cons] at hWorkers
  rcases hProgram with rfl | hOther
  · have hHead : r.server.programs.head? = some program := by rw [hPrograms, List.head?_cons]
    have hEnded := hLive.ended hMain
    rw [reactorEnded, Bool.or_eq_true, beq_iff_eq] at hEnded
    rcases hEnded with hFailed | hEmpty
    · have hFirst := hHead.symm.trans (hLive.reactor hFailed)
      cases hFirst
      exact .inl (List.mem_singleton.mp hMem)
    · have hFirst := hHead.symm.trans hEmpty
      cases hFirst
      cases hMem
  · exact .inr (List.all_eq_true.mp (hWorkers program hOther) op hMem)

theorem stops_weightless {op : Op} (h : op = .runReactor ∨ stops op = true) :
    noisy op = false ∧ op ≠ .workerLoop ∧ op ≠ .serializedWorkerLoop ∧ ∀ c, serves c op = false := by
  rcases h with rfl | hStop
  · exact ⟨rfl, nofun, nofun, fun _ => rfl⟩
  · cases op with
    | stopRunning | stopWorkers | stopSerialized => exact ⟨rfl, nofun, nofun, fun _ => rfl⟩
    | _ => cases hStop

/-- The workers have given everything back; with nothing left on a connection the gauges are zero. -/
theorem Live.final (hLive : Live opts r) (hMain : r.main = .stopping) (hJoined : joined r = true)
    (hGuard : leavesNothing r .main) :
    Final { r with server := ⟨clear r.server.shared, r.server.programs⟩, main := .returned } := by
  have hPending := hLive.pending_joined (by simp [hMain]) hJoined
  have hLight := fun op hOp => stops_weightless (hPending op hOp)
  have hJobs : ¬ Demand r.server.shared := fun hDemand => (hLight _ (hLive.demand hDemand)).2.1 rfl
  have hSerialized : ¬ SerializedDemand r.server.shared := fun hDemand =>
    (hLight _ (hLive.serializedDemand hDemand)).2.2.1 rfl
  simp only [Demand, SerializedDemand, not_or, ne_eq, Decidable.not_not] at hJobs hSerialized
  have hBytes := hLive.bytes
  have hStreams := hLive.streams
  unfold RequestBytes at hBytes
  unfold StreamSlots at hStreams
  rw [Threads.weigh_eq_zero lag fun op hOp => (weightless (hLight op hOp).1).1,
    Threads.weigh_eq_zero trail fun op hOp => (weightless (hLight op hOp).1).2.1, add_zero, sub_zero] at hBytes
  rw [Threads.weigh_eq_zero slot fun op hOp => (weightless (hLight op hOp).1).2.2, hJobs.2] at hStreams
  have hGuards : r.guards = [] := by
    refine List.eq_nil_iff_forall_not_mem.mpr fun guard hMem => ?_
    obtain ⟨program, hProgram, hLoop⟩ := hLive.guards guard hMem
    exact (hLight _ (Threads.mem_pending.mpr ⟨program, List.mem_of_getElem? hProgram, hLoop⟩)).2.2.1 rfl
  refine ⟨hBytes.eq_zero fun c => ?_, hLive.output.eq_zero fun c => (hGuard hMain c).2, ?_, ?_, hJobs.2, hSerialized.2,
    rfl, hGuards, hLive.ended (by simp [hMain]), ?_⟩
  · obtain ⟨-, -, -, hIdle, -⟩ := idle_connection_released hLive.reached c (by simp [hJobs.2]) (by simp [hSerialized.2])
      fun op hOp => (hLight op hOp).2.2.2 c
    exact hIdle.trans (hGuard hMain c).1
  · exact hStreams
  · exact hLive.count.trans (by rw [hGuards]; rfl)
  · intro thread program hPos hProgram
    rw [joined, Bool.and_eq_true] at hJoined
    obtain ⟨i, rfl⟩ := Nat.exists_eq_add_of_lt hPos
    have hTail : program ∈ r.server.programs.tail := by
      refine List.mem_of_getElem? (i := i) ?_
      rw [List.getElem?_tail, ← hProgram, Nat.zero_add]
    exact List.all_eq_true.mp (List.all_eq_true.mp hJoined.2 program hTail)

theorem stops_exec {s t : State} {op : Op} {choice : Choice} {ops : List Op} (h : exec opts s op choice = some (t, ops))
    (hStops : stops op = true) : t.activeStreams = s.activeStreams ∧ Keeps [] s t ∧ ∀ o ∈ ops, stops o = true := by
  cases op with
  | stopRunning | stopWorkers => cases h; exact ⟨rfl, ⟨fun _ => rfl, rfl⟩, by simp [stops]⟩
  | stopSerialized => cases h; exact ⟨rfl, ⟨fun _ => rfl, rfl⟩, by simp⟩
  | _ => cases hStops

theorem stops_settled {s : State} {total : UInt64} {thread : Nat} {op : Op} (choice : Choice)
    (hStops : stops op = true) :
    settleOutput maxTotalOutputBytes s total op choice = some total ∧ activate domain r thread op choice = r := by
  cases op with
  | stopRunning | stopWorkers | stopSerialized => exact ⟨rfl, rfl⟩
  | _ => cases hStops

theorem Final.next_stops {thread : Nat} {op : Op} {rest : List Op} (hFinal : Final r)
    (hScheduled : scheduled r thread = true) (hProgram : r.server.programs[thread]? = some (op :: rest)) :
    0 < thread ∧ ∀ o ∈ op :: rest, stops o = true := by
  have hPos : 0 < thread := by
    refine Nat.pos_of_ne_zero ?_
    rintro rfl
    have hEnded := hFinal.ended
    rw [reactorEnded, Bool.or_eq_true, beq_iff_eq, List.head?_eq_getElem?, hProgram] at hEnded
    rcases hEnded with hFailed | hEmpty
    · simp [scheduled, hFailed] at hScheduled
    · cases hEmpty
  exact ⟨hPos, hFinal.joined thread _ hPos hProgram⟩

theorem Final.thread {thread : Nat} {choice : Choice} (hFinal : Final r)
    (hStep : threadStep opts maxTotalOutputBytes domain r thread choice = some later) : Final later := by
  obtain ⟨op, hNext, hScheduled, -, hServer, hOutput, hLater⟩ := threadStep_cases hStep
  obtain ⟨o, ops, rest, others, hProgram, hPrograms, hTurn⟩ := Threads.step_programs hServer
  obtain rfl : op = o := Option.some.inj (hNext.symm.trans (Threads.next_of_program hProgram))
  obtain ⟨hPos, hStops⟩ := hFinal.next_stops hScheduled hProgram
  obtain ⟨hFirst, hRest⟩ := List.forall_mem_cons.mp hStops
  obtain ⟨hActive, hKeeps, hOps⟩ := stops_exec hTurn.exec hFirst
  obtain ⟨hSettled, hActivate⟩ := stops_settled (r := r) choice hFirst
  rw [hSettled, Option.some.injEq] at hOutput
  rw [hActivate] at hLater
  refine ⟨(hKeeps.total (by simp)).trans hFinal.total, hOutput ▸ hFinal.output, hActive.trans hFinal.streams, ?_,
    (hKeeps.jobs (by simp)).trans hFinal.jobs, (hKeeps.serializedJobs (by simp)).trans hFinal.serializedJobs,
    (hKeeps.table (by simp)).trans hFinal.table, ?_, ?_, ?_⟩
  · rw [hLater]
    exact hFinal.domains
  · rw [hLater]
    exact hFinal.guards
  · exact ended_next hProgram hPrograms (by rw [hLater]) hFinal.ended
  · intro i program hi hOld
    by_cases hThread : i = thread
    · subst hThread
      rw [program_self hProgram hPrograms, Option.some.injEq] at hOld
      rw [← hOld]
      exact List.forall_mem_append.mpr ⟨hOps, hRest⟩
    · rw [program_of_ne hPrograms hThread] at hOld
      exact hFinal.joined i program hi hOld

theorem Live.start (h : Initial r) : Live opts r := by
  obtain ⟨others, hIdle, hWorker, hSerialized, rfl⟩ := h
  have hStart : Steps.Initial ⟨{}, [.runReactor] :: [.stopRunning] :: others.map fun op => [op]⟩ :=
    ⟨rfl, .stopRunning :: others, List.forall_mem_cons.mpr ⟨rfl, hIdle⟩, rfl⟩
  have hLight : ∀ op ∈ (⟨{}, [.runReactor] :: [.stopRunning] :: others.map fun op => [op]⟩ : Threads State Op).pending,
      noisy op = false := by
    intro op hOp
    obtain rfl | rfl | rfl | rfl := initial_pending hStart hOp <;> rfl
  have hMem : ∀ op ∈ others,
      op ∈ (⟨{}, [.runReactor] :: [.stopRunning] :: others.map fun op => [op]⟩ : Threads State Op).pending := by
    intro op hOp
    exact Threads.mem_pending.mpr ⟨[op], by simp [hOp], List.mem_singleton_self op⟩
  refine ⟨.start hStart, ?_, totals_zero fun _ => rfl, ?_, fun _ => hMem _ hWorker, fun _ => hMem _ hSerialized,
    nofun, rfl, nofun, fun hMain => absurd rfl hMain⟩
  · unfold RequestBytes
    rw [Threads.weigh_eq_zero lag fun op hOp => (weightless (hLight op hOp)).1,
      Threads.weigh_eq_zero trail fun op hOp => (weightless (hLight op hOp)).2.1, add_zero, sub_zero]
    exact (totals_zero fun _ => rfl : Totals (inflight {}) 0)
  · unfold StreamSlots
    rw [Threads.weigh_eq_zero slot fun op hOp => (weightless (hLight op hOp)).2.2]
    rfl

def Inv (opts : Options) (r : Run) : Prop := (r.main ≠ .returned ∧ Live opts r) ∨ (r.main = .returned ∧ Final r)

theorem Inv.step {action : Action} (h : Inv opts r) (hGuard : leavesNothing r action)
    (hStep : Shutdown.step opts maxTotalOutputBytes domain r action = some later) : Inv opts later := by
  cases action with
  | thread thread choice =>
    have hMain : later.main = r.main := by
      obtain ⟨op, -, -, -, -, -, hLater⟩ := threadStep_cases hStep
      rw [hLater]
      exact (activate_position domain r thread op choice).1
    rw [Inv, hMain]
    exact h.imp (.imp_right fun hLive => hLive.thread hGuard hStep) (.imp_right fun hFinal => hFinal.thread hStep)
  | deactivate thread =>
    rcases h with ⟨hMain, hLive⟩ | ⟨hMain, hFinal⟩
    · have hLater := hLive.deactivate hStep
      simp only [Shutdown.step, Shutdown.deactivate] at hStep
      split at hStep
      · cases hStep
        exact .inl ⟨hMain, hLater⟩
      · cases hStep
    · simp [Shutdown.step, Shutdown.deactivate, hFinal.guards] at hStep
  | reactorFails =>
    simp only [Shutdown.step] at hStep
    split at hStep
    · rename_i hHead
      cases hStep
      refine h.imp (.imp_right fun hLive => hLive.reactorFails hHead) (.imp_right fun hFinal => ?_)
      exact { hFinal with ended := by rw [reactorEnded, Bool.true_or] }
    · cases hStep
  | main =>
    simp only [Shutdown.step, mainStep] at hStep
    split at hStep
    · rename_i hMain
      split at hStep
      · rename_i hEnded
        cases hStep
        exact .inl ⟨nofun, (h.resolve_right (by simp [hMain])).2.joinReactor hEnded⟩
      · cases hStep
    · rename_i hMain
      split at hStep
      · rename_i hJoined
        cases hStep
        exact .inr ⟨rfl, (h.resolve_right (by simp [hMain])).2.final hMain hJoined hGuard⟩
      · cases hStep
    · cases hStep

/-- In a run whose steps leave nothing behind, every gauge is zero and the table is empty when `run()` has
returned. -/
theorem gauges_settled (h : (machine opts maxTotalOutputBytes domain).Reached leavesNothing r)
    (hReturned : r.main = .returned) :
    r.server.shared.totalInflightRequestBytes = 0 ∧ r.totalQueuedOutputBytes = 0 ∧
      r.server.shared.activeStreams = 0 ∧ r.activeSerializedDomainCount = 0 ∧ r.server.shared.pendingJobs = [] ∧
      r.server.shared.pendingSerialized = [] ∧ r.server.shared.table = [] := by
  have hInv : Inv opts r := by
    refine h.invariant (I := Inv opts) (fun s hInit => .inl ⟨?_, .start hInit⟩) fun _ _ _ _ hInv hGuard hStep =>
      hInv.step hGuard hStep
    obtain ⟨others, -, -, -, rfl⟩ := hInit
    exact nofun
  obtain ⟨-, hFinal⟩ := hInv.resolve_left fun hLive => hLive.1 hReturned
  exact ⟨hFinal.total, hFinal.output, hFinal.streams, hFinal.domains, hFinal.jobs, hFinal.serializedJobs, hFinal.table⟩

/-- The guard for all steps but the last one, as a test. -/
def settled (r : Run) : Action → Bool
  | .thread thread choice =>
    releasesOnce r.server (thread, choice) &&
      match r.server.next thread with
      | some (.enqueueWorkerJob _ _ _ true) => !r.server.shared.workersStopping && choice != .allocationFailed
      | _ => true
  | .main => r.main != .stopping
  | _ => true

theorem leavesNothing_of_settled {action : Action} (h : settled r action = true) : leavesNothing r action := by
  cases action with
  | thread thread choice =>
    simp only [settled, Bool.and_eq_true] at h
    refine ⟨h.1, fun c object n hNext => ?_⟩
    simpa [hNext] using h.2
  | main =>
    intro hMain
    simp [settled, hMain] at h
  | _ => trivial

def threads (actions : List (Nat × Choice)) : List Action := actions.map fun action => .thread action.1 action.2

def started : Run :=
  { server := ⟨{}, [.runReactor] :: [.stopRunning] ::
      [.workerLoop, .serializedWorkerLoop, .stopRunning].map fun op => [op]⟩ }

theorem started_initial : Initial started := ⟨_, by decide, by decide, by decide, rfl⟩

def proceeds (thread count : Nat) : List (Nat × Choice) := performs thread (List.replicate count .proceed)

def requestRead : List (Nat × Choice) :=
  performs 0 [.accept 0 true, .event 0 true false false, .proceed] ++ reserveRequest 10 ++ proceeds 0 4 ++
    performs 0 [.input .exhausted, .proceed, .proceed] ++ proceeds 2 2

def stopped : List Action :=
  threads (proceeds 4 3 ++ performs 0 [.leave]) ++ [Action.main] ++
    threads (proceeds 1 3 ++ performs 2 [.leave] ++ performs 3 [.leave])

def answered : List Action :=
  threads (requestRead ++ performs 2 [.sent] ++ proceeds 2 7) ++ stopped

theorem gauges_settled_answered : ∃ r, (machine strict 0 id).Reached leavesNothing r ∧ r.main = .returned ∧
    r.server.shared.objects = 1 ∧ r.server.shared.totalInflightRequestBytes = 0 ∧ r.server.shared.table = [] := by
  cases hRun : (machine strict 0 id).exec settled started answered with
  | none =>
    have hDefined : ((machine strict 0 id).exec settled started answered).isSome = true := by decide
    rw [hRun] at hDefined
    cases hDefined
  | some r =>
    have hLast : ((machine strict 0 id).exec settled started answered).all (fun r =>
        r.main == .stopping && joined r && r.server.shared.objects == 1) = true := by decide
    have hIdle : ∀ c, ((machine strict 0 id).exec settled started answered).all (fun r =>
        (r.server.shared.connections c).reservedRequestBytes == 0 && queuedOutput r.server.shared c == 0) = true := by
      intro c
      cases c with
      | zero => decide
      | succ c => rfl
    simp only [hRun, Option.all_some, Bool.and_eq_true, beq_iff_eq] at hLast hIdle
    obtain ⟨⟨hMain, hJoined⟩, hObjects⟩ := hLast
    have hReached := (Machine.reached_of_exec answered started_initial hRun).mono fun _ _ => leavesNothing_of_settled
    have hGuard : leavesNothing r .main := fun _ => hIdle
    have hStep : (machine strict 0 id).step r .main =
        some { r with server := ⟨clear r.server.shared, r.server.programs⟩, main := .returned } := by
      simp only [machine, step, mainStep, hMain, hJoined, if_true]
    have hReturned := hReached.next hGuard hStep
    obtain ⟨hTotal, -, -, -, -, -, hTable⟩ := gauges_settled hReturned rfl
    exact ⟨_, hReturned, rfl, hObjects, hTotal, hTable⟩

def headerRead : List (Nat × Choice) :=
  performs 0 [.event 0 true false false, .proceed, .input (.request 20 false)] ++ proceeds 0 4 ++
    performs 0 [.input .exhausted, .proceed, .proceed]

def interrupted : List Action :=
  threads (requestRead ++ performs 2 [.queued 7] ++ proceeds 2 8 ++ headerRead) ++ stopped ++ [Action.main]

/-- The table is empty, but both totals keep what the dropped connection held. -/
theorem gauges_left : ∃ r, (machine strict 0 id).Reachable r ∧ r.main = .returned ∧
    r.server.shared.totalInflightRequestBytes = 20 ∧ r.totalQueuedOutputBytes = 7 ∧ r.server.shared.table = [] :=
  Machine.exists_reachable_of_exec _ interrupted started_initial (by decide)

end EasyUds.Server.Shutdown

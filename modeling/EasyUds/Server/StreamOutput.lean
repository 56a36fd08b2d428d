import EasyUds.Server.Closing

/-! # A stream has the descriptor for itself

`run_stream_exchange` writes to the descriptor without looking at the output queue. What keeps other bytes
away is that `dispatch_stream` starts a stream on a connection without regular and serialized jobs only. A
job ends when its response has been handed to the output queue, though, not when the response has been sent,
so the queue itself has to be empty at that time.
-/

namespace EasyUds.Server.StreamOutput

open Lib Server.Core Server.Steps Server.Outcomes Server.Footprint
open Server.Ownership Server.Pausing Server.Ledger Server.Counters
open Server.Visits Server.Closing

variable {opts : Options} {s t : State} {op : Op} {choice : Choice} {ops : List Op} {c r : Nat}

def admitsStream (opts : Options) (s : State) (c : Nat) : Bool :=
  (s.connections c).activeRegular == 0 && (s.connections c).pendingSerialized == 0 &&
    s.activeStreams < opts.maxConcurrentStreams

/-- A stream is admitted only when the output queue of its connection is empty. -/
def startsDrained (opts : Options) (system : Threads State Op) (action : Nat × Choice) : Bool :=
  match system.next action.1 with
  | some (.dispatchStream c _) =>
    !admitsStream opts system.shared c || (system.shared.connections c).queuedOutputBytes == 0
  | _ => true

def streams (op : Op) : Option Nat :=
  match op with
  | .streamLease c _ _ => some c
  | op =>
    match owner op with
    | .stream c => some c
    | _ => none

def Streaming (system : Threads State Op) (c : Nat) : Prop :=
  (∃ op ∈ system.pending, streams op = some c) ∨
    ∃ job ∈ system.shared.pendingJobs, job.isStream = true ∧ job.connection = c

theorem streams_of_owner (h : owner op = .stream c) : streams op = some c := by
  unfold streams
  split
  · cases h
  · rw [h]

theorem owner_of_streams (h : streams op = some c) : owner op = .stream c ∨ ∃ r n, op = .streamLease c r n := by
  unfold streams at h
  split at h
  · cases h
    exact .inr ⟨_, _, rfl⟩
  · split at h
    · rename_i hOwner
      cases h
      exact .inl hOwner
    · cases h

theorem claim_of_streams (h : streams op = some c) : claim c op = 1 := by
  obtain hOwner | ⟨r, n, rfl⟩ := owner_of_streams h
  · rw [claim, hOwner]
    exact if_pos rfl
  · exact if_pos rfl

/-- A job of the connection that is taken from a queue or read under a lease, up to its completion. -/
def inFlight : Op → Option Nat
  | .execute c | .serveFixedRequest c _ | .enqueueSerializedJob c _ _ _ => some c
  | .completeRegularRequest c _ _ | .subSerialized c _ => some c
  | _ => none

def sends : Op → Option Nat
  | .writeFixedResponse c _ | .flushConnectionOutput c _ _ => some c
  | _ => none

section Step

variable {system later : Threads State Op} {others : Multiset Op}

theorem streaming_next (hTurn : Turn opts system op choice ops others later) (h : Streaming later c) :
    Streaming system c ∨ ∃ r, op = .dispatchStream c r ∧ admitsStream opts system.shared c = true := by
  have hOp := hTurn.mem
  obtain ⟨o, ho, hStreams⟩ | ⟨job, hJob, hIs, rfl⟩ := h
  · obtain hNew | hOther := hTurn.mem_later ho
    · cases exec_next hTurn.exec o hNew with
      | @dispatchStream k r hActive hSerialized hFree =>
        cases hStreams
        exact .inr ⟨r, rfl, by simp [admitsStream, hActive, hSerialized, hFree]⟩
      | takeStream hJob hIs =>
        cases hStreams
        exact .inl (.inr ⟨_, hJob, hIs, rfl⟩)
      | @rearmRunning k site | @rearmLocked k mayReuse site =>
        cases site <;> first | cases hStreams; done | exact .inl (.inl ⟨_, hOp, hStreams⟩)
      | @threw k site | @queued k site | @refreshFailed k site => cases site <;> cases hStreams
      | _ => first | cases hStreams; done | exact .inl (.inl ⟨_, hOp, hStreams⟩)
    · exact .inl (.inl ⟨o, hTurn.mem_other hOther, hStreams⟩)
  · obtain hOld | ⟨k, r, n, isStream, rfl, rfl⟩ := exec_jobs hTurn.exec hJob
    · exact .inl (.inr ⟨job, hOld, hIs, rfl⟩)
    · obtain rfl : isStream = true := hIs
      exact .inl (.inl ⟨_, hOp, rfl⟩)

theorem Streaming.unclaimed (hOwners : Ownership.Inv opts system) (h : Streaming system c) (hOp : op ∈ system.pending)
    (hOther : streams op ≠ some c) : claim c op = 0 := by
  obtain ⟨o, ho, hStreams⟩ | ⟨job, hJob, hIs, rfl⟩ := h
  · obtain ⟨others, hBefore⟩ := Multiset.exists_cons_of_mem hOp
    rw [hBefore] at ho
    obtain rfl | hRest := Multiset.mem_cons.mp ho
    · exact absurd hStreams hOther
    · exact hOwners.claim_unique hBefore hRest (claim_of_streams hStreams)
  · exact hOwners.job_unclaimed hOp hJob hIs

def Quiet (opts : Options) (system : Threads State Op) (c : Nat) : Prop :=
  outstanding opts .active system c = 0 ∧ outstanding opts .serialized system c = 0 ∧
    (system.shared.connections c).queuedOutputBytes = 0

structure Inv (opts : Options) (system : Threads State Op) : Prop where
  closing : Closing.Inv opts system
  quiet : ∀ c, Streaming system c → Quiet opts system c

theorem part_zero_of_outstanding {counter : Counter} (h : outstanding opts counter system c = 0)
    (hOp : op ∈ system.pending) : counter.part (debt opts op c) = 0 := by
  have hLe := @le_outstanding system opts op c counter hOp
  omega

theorem Inv.unserved (hInv : Inv opts system) (hQuiet : Quiet opts system c) (hOp : op ∈ system.pending) :
    served op ≠ some c ∧ settles op ≠ some c := by
  have hUnsettled : ∀ o ∈ system.pending, settles o ≠ some c := by
    intro o ho hSettles
    cases o with
    | completeRegularRequest k n release =>
      cases hSettles
      have hZero := part_zero_of_outstanding hQuiet.1 ho
      cases release <;> simp [debt, part_active] at hZero
    | subSerialized k n =>
      cases hSettles
      have hZero := part_zero_of_outstanding hQuiet.2.1 ho
      simp [debt, part_serialized] at hZero
    | _ => cases hSettles
  refine ⟨fun hServed => ?_, hUnsettled op hOp⟩
  obtain ⟨program, hProgram, hMem⟩ := Threads.mem_pending.mp hOp
  obtain ⟨o, ho, hSettles⟩ := (hInv.closing.programs program hProgram).settled hMem hServed
  exact hUnsettled o (Threads.mem_pending.mpr ⟨program, hProgram, ho⟩) hSettles

theorem Inv.idle (hInv : Inv opts system) (h : admitsStream opts system.shared c = true) :
    outstanding opts .active system c = 0 ∧ outstanding opts .serialized system c = 0 := by
  simp only [admitsStream, Bool.and_eq_true, beq_iff_eq] at h
  obtain ⟨⟨hActive, hSerialized⟩, -⟩ := h
  have hFirst := hInv.closing.active c
  have hSecond := hInv.closing.serialized c
  simp only [Covers, Counter.value, hActive, hSerialized, UInt64.toNat_zero] at hFirst hSecond
  omega

theorem outstanding_stays {counter : Counter} (hSane : Sane opts system.shared op)
    (hTurn : Turn opts system op choice ops others later) (hGains : counter.gains op ≠ some c)
    (h : outstanding opts counter system c = 0) : outstanding opts counter later c = 0 := by
  obtain ⟨gained, spent, -, hOwed, ⟨rfl, rfl⟩ | ⟨-, rfl, rfl⟩ | ⟨hGain, -⟩⟩ :=
    outstanding_moves counter c hSane hTurn
  · omega
  · omega
  · exact absurd hGain hGains

section Invariant

variable (hInv : Inv opts system) (hOwners : Ownership.Inv opts system)
include hInv hOwners

theorem Inv.alone (hStreaming : Streaming system c) (hOp : op ∈ system.pending) :
    inFlight op ≠ some c ∧ sends op ≠ some c := by
  have hQuiet := hInv.quiet c hStreaming
  have hUnserved := hInv.unserved hQuiet hOp
  have hZero := part_zero_of_outstanding hQuiet.1 hOp
  have hClaimed (hOther : streams op ≠ some c) : claim c op = 0 := hStreaming.unclaimed hOwners hOp hOther
  cases op with
  | execute k => exact ⟨fun hc => hUnserved.1 hc, by simp [sends]⟩
  | completeRegularRequest k n release | subSerialized k n => exact ⟨fun hc => hUnserved.2 hc, by simp [sends]⟩
  | serveFixedRequest k n =>
    refine ⟨fun hc => ?_, by simp [sends]⟩
    cases hc
    simp [debt, part_active] at hZero
  | enqueueSerializedJob k n route site =>
    refine ⟨fun hc => ?_, by simp [sends]⟩
    cases hc
    cases site with
    | dispatch r => cases (hClaimed (by simp [streams, owner])).symm.trans (if_pos rfl)
    | continuation => simp [debt, part_active] at hZero
  | writeFixedResponse k site =>
    refine ⟨by simp [inFlight], fun hc => ?_⟩
    cases hc
    cases site with
    | guarded => exact hUnserved.1 rfl
    | consume r => cases (hClaimed (by simp [streams, owner])).symm.trans (if_pos rfl)
    | continuation n => simp [debt, part_active] at hZero
  | flushConnectionOutput k r readAllowed =>
    refine ⟨by simp [inFlight], fun hc => ?_⟩
    cases hc
    cases (hClaimed (by simp [streams, owner])).symm.trans (if_pos rfl)
  | _ => exact ⟨by simp [inFlight], by simp [sends]⟩

theorem Inv.no_gain (hStreaming : Streaming system c) (hOp : op ∈ system.pending) :
    Counter.active.gains op ≠ some c ∧ Counter.serialized.gains op ≠ some c := by
  have hClaimed (hOther : streams op ≠ some c) : claim c op = 0 := hStreaming.unclaimed hOwners hOp hOther
  have hAlone := hInv.alone hOwners hStreaming hOp
  cases op with
  | addActive k n session =>
    refine ⟨fun hGains => ?_, nofun⟩
    cases hGains
    cases (hClaimed nofun).symm.trans (if_pos rfl)
  | enqueueWorkerJob k r n isStream =>
    cases isStream with
    | true => exact ⟨nofun, nofun⟩
    | false =>
      refine ⟨fun hGains => ?_, nofun⟩
      cases hGains
      cases (hClaimed nofun).symm.trans (if_pos rfl)
  | enqueueSerializedJob k n route site => exact ⟨nofun, fun hGains => hAlone.1 hGains⟩
  | _ => exact ⟨nofun, nofun⟩

theorem Inv.output_stays (hStreaming : Streaming system c) (hOp : op ∈ system.pending)
    (hExec : exec opts system.shared op choice = some (t, ops)) : (t.connections c).queuedOutputBytes = 0 := by
  have hEmpty := (hInv.quiet c hStreaming).2.2
  have hAlone := (hInv.alone hOwners hStreaming hOp).2
  by_cases hField : .output ∈ writes op
  · cases op with
    | writeFixedResponse k site =>
      have hc : c ≠ k := fun hEq => hAlone (congrArg some hEq.symm)
      obtain ⟨rfl, -⟩ | ⟨rfl, -⟩ | ⟨n, -, -, -, rfl, -⟩ := writeFixedResponse_cases hExec
      · exact hEmpty
      · exact (congrArg Connection.queuedOutputBytes (State.update_other _ _ hc)).trans hEmpty
      · exact (congrArg Connection.queuedOutputBytes (State.update_other _ _ hc)).trans hEmpty
    | flushConnectionOutput k r readAllowed =>
      have hc : c ≠ k := fun hEq => hAlone (congrArg some hEq.symm)
      obtain ⟨n, -, rfl, -⟩ | ⟨rfl, -⟩ := flushConnectionOutput_cases hExec <;>
        exact (congrArg Connection.queuedOutputBytes (State.update_other _ _ hc)).trans hEmpty
    | closeConnection k reactor =>
      obtain ⟨rfl, -⟩ := outcome_eq hExec
      simp only [closeConnection, close]
      split
      · rw [State.update_apply]
        split
        · rfl
        · exact hEmpty
      · exact hEmpty
    | _ => simp [writes] at hField
  · exact ((exec_keeps hExec).output c hField).trans hEmpty

theorem Inv.quiet_next (hDrained : ∀ r, op = .dispatchStream c r → admitsStream opts system.shared c = true →
      (system.shared.connections c).queuedOutputBytes = 0) (hTurn : Turn opts system op choice ops others later)
    (hStreaming : Streaming later c) : Quiet opts later c := by
  have hOp := hTurn.mem
  have hSane := hOwners.sane op hOp
  obtain hWas | ⟨r, rfl, hAdmits⟩ := streaming_next hTurn hStreaming
  · obtain ⟨hActive, hSerialized, -⟩ := hInv.quiet c hWas
    obtain ⟨hNoActive, hNoSerialized⟩ := hInv.no_gain hOwners hWas hOp
    exact ⟨outstanding_stays hSane hTurn hNoActive hActive,
      outstanding_stays hSane hTurn hNoSerialized hSerialized,
      hInv.output_stays hOwners hWas hOp hTurn.exec⟩
  · obtain ⟨hActive, hSerialized⟩ := hInv.idle hAdmits
    refine ⟨outstanding_stays hSane hTurn nofun hActive,
      outstanding_stays hSane hTurn nofun hSerialized, ?_⟩
    rw [(exec_keeps hTurn.exec).output c (by simp [writes])]
    exact hDrained r rfl hAdmits

theorem Inv.next {action : Nat × Choice}
    (hGuard : (startsDrained opts system action && countersFit system action) = true)
    (hStep : (machine opts).step system action = some later) : Inv opts later := by
  obtain ⟨hDrained, hFits⟩ := Bool.and_eq_true_iff.mp hGuard
  refine ⟨hInv.closing.next hOwners hFits hStep, fun c => ?_⟩
  obtain ⟨op, ops, others, hNext, hTurn⟩ := Threads.step_cases hStep
  refine hInv.quiet_next hOwners ?_ hTurn
  rintro r rfl hAdmits
  simpa [startsDrained, hNext, hAdmits] using hDrained

end Invariant

end Step

theorem Inv.start {system : Threads State Op} (h : Initial system) : Inv opts system := by
  refine ⟨.start h, fun c hStreaming => ?_⟩
  obtain ⟨op, hOp, hStreams⟩ | ⟨job, hJob, -⟩ := hStreaming
  · obtain rfl | rfl | rfl | rfl := initial_pending h hOp <;> cases hStreams
  · rw [h.1] at hJob
    cases hJob

/-- If streams start with an empty output queue and the two counters do not overflow, then while a stream is
queued or executed its connection has nothing queued for output, no other job, and no thread about to write
a fixed response. -/
theorem stream_alone {system : Threads State Op}
    (h : (machine opts).Reached
      (fun system action => (startsDrained opts system action && countersFit system action) = true) system) (c : Nat)
    (hStream : (∃ job ∈ system.shared.pendingJobs, job.isStream = true ∧ job.connection = c) ∨
      ∃ op ∈ system.pending, owner op = .stream c) :
    (system.shared.connections c).queuedOutputBytes = 0 ∧
      (∀ job ∈ system.shared.pendingJobs, job.connection = c → job.isStream = true) ∧
      (∀ job ∈ system.shared.pendingSerialized, job.connection ≠ c) ∧
      ∀ op ∈ system.pending, inFlight op ≠ some c ∧ sends op ≠ some c := by
  have hOwners := reached_inv h
  have hInv : Inv opts system :=
    h.invariant (fun _ => Inv.start) fun _ _ _ hReached hInv hGuard hStep =>
      hInv.next (reached_inv hReached) hGuard hStep
  have hStreaming : Streaming system c := by
    obtain hJob | ⟨op, hOp, hOwner⟩ := hStream
    · exact .inr hJob
    · exact .inl ⟨op, hOp, streams_of_owner hOwner⟩
  have hQuiet := hInv.quiet c hStreaming
  refine ⟨hQuiet.2.2, ?_, ?_, fun op hOp => hInv.alone hOwners hStreaming hOp⟩
  · rintro job hJob rfl
    by_contra hRegular
    have hOwed := @job_le_outstanding system opts job.connection .active job hJob
    rw [hQuiet.1] at hOwed
    simp [jobDebt, hRegular, part_active] at hOwed
  · rintro job hJob rfl
    have hOwed := @serialized_le_outstanding system opts job.connection .serialized job hJob
    rw [hQuiet.2.1] at hOwed
    simp [serializedDebt, part_serialized] at hOwed

def answers (written : Choice) : List (Nat × Choice) :=
  performs 0 [.accept 0 true, .event 0 true false false, .proceed, .input (.request 10 false), .proceed,
    .input (.payload none false false), .proceed, .proceed] ++ leaveConsume ++
    performs 1 [.proceed, .proceed, written]

def queuesStream : List (Nat × Choice) :=
  performs 0 [.event 0 true false false, .proceed, .input (.stream 5 false), .proceed,
    .input (.payload none false false), .proceed, .proceed, .proceed]

theorem stream_alone_started : ∃ system,
    (machine roomy).Reached
        (fun system action => (startsDrained roomy system action && countersFit system action) = true) system ∧
      .runStreamExchange 0 5 false ∈ system.pending ∧ (system.shared.connections 0).queuedOutputBytes = 0 ∧
      ∀ op ∈ system.pending, inFlight op ≠ some 0 ∧ sends op ≠ some 0 := by
  obtain ⟨system, hReached, hRuns⟩ := Machine.exists_reached_of_exec
    (fun system => .runStreamExchange 0 5 false ∈ system.pending)
    (fun system action => startsDrained roomy system action && countersFit system action)
    (answers .sent ++ performs 1 (List.replicate 7 .proceed) ++ queuesStream ++ performs 1 [.proceed])
    (M := machine roomy) oneWorker_initial (by decide)
  obtain ⟨hEmpty, -, -, hAlone⟩ := stream_alone hReached 0 (.inr ⟨_, hRuns, rfl⟩)
  exact ⟨system, hReached, hRuns, hEmpty, hAlone⟩

/-- The peer takes nothing of the response, and the request is completed all the same. The stream is
executed with 24 bytes of a fixed response in the output queue. -/
theorem stream_with_queued_output : ∃ system, (machine roomy).Reachable system ∧
    .runStreamExchange 0 5 false ∈ system.pending ∧ (system.shared.connections 0).streamActive = true ∧
    (system.shared.connections 0).closing = false ∧ (system.shared.connections 0).queuedOutputBytes = 24 :=
  Machine.exists_reachable_of_exec _
    (answers (.queued 24) ++ performs 1 (List.replicate 8 .proceed) ++ queuesStream ++ performs 1 [.proceed])
    oneWorker_initial (by decide)

end EasyUds.Server.StreamOutput

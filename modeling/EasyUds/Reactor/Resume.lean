import EasyUds.Reactor.Wakeup
import EasyUds.Server.Steps

/-! # Resumed connections and the sleeping reactor

`resume_paused_connections` queues the connections that may be read again and then wakes the reactor
once; `process_resumed_connections` takes at most a batch of them in each turn of the loop. The
wakeup and the loop are those of the module on wakeups, with the calls of `process_resumed_connections`
inside its scan. A producer is a thread that runs `resume_paused_connections` or any other caller of
`wake_reactor`. The rest of the server may change everything but the queue.
-/

namespace EasyUds.Reactor.Resume

open Lib Reactor Reactor.Wakeup Server Server.Steps

def maxBatch : Nat := 64

/-- `waking` are the producers that have queued connections and have yet to call `wake_reactor`. `batch`
is the number of entries that the running call of `process_resumed_connections` has taken. -/
structure State where
  server : Core.State
  wake : Wakeup.State
  waking : List Nat
  batch : Option Nat

inductive Action
  | resume (producer released : Nat)
  | processResumed
  | wake (action : Wakeup.Action)
  | server (server : Core.State)

variable (opts : Core.Options) (s : State)

def resume (producer released : Nat) : Option State :=
  if s.wake.producers[producer]? = some .idle ∧ producer ∉ s.waking then
    let result := resumePausedConnections opts s.server released
    some { s with
      server := result.1
      waking := if result.2 = [] then s.waking else producer :: s.waking }
  else none

def processRound : Option State :=
  match s.wake.reactor, s.batch with
  | .scan, some taken =>
    if taken < maxBatch then
      match processResumed s.server with
      | none => some { s with batch := none }
      | some result => some { s with server := result.1, batch := some (taken + 1) }
    else some { s with batch := none }
  | _, _ => none

/-- The producers that still have to call `wake_reactor` after a step of the wakeup. -/
def stillWaking : Wakeup.Action → List Nat
  | .producer index => if s.wake.producers[index]? = some .idle then s.waking.filter (· ≠ index) else s.waking
  | _ => s.waking

def starts : Wakeup.Action → Bool
  | .reactor => s.wake.reactor == .loopHead
  | _ => false

def wakeStep (action : Wakeup.Action) : Option State :=
  if action = .reactor ∧ s.wake.reactor = .scan ∧ s.batch ≠ none then none
  else
    (Wakeup.step s.wake action).map fun wake =>
      { s with wake, waking := stillWaking s action, batch := if starts s action then some 0 else s.batch }

def step : Action → Option State
  | .resume producer released => resume opts s producer released
  | .processResumed => processRound s
  | .wake action => wakeStep s action
  | .server server =>
    if server.resumedConnections = s.server.resumedConnections then some { s with server } else none

structure Initial (s : State) : Prop where
  wake : Wakeup.Initial s.wake
  resumed : s.server.resumedConnections = []
  waking : s.waking = []

def machine : Machine State Action where
  initial := Initial
  step := step opts

/-- The reactor sleeps in `readiness::wait`, nothing is to be read from the eventfd, and no producer is
inside or on its way to `wake_reactor`. -/
def Asleep (s : State) : Prop :=
  s.wake.reactor = .wait ∧ s.wake.counter = 0 ∧ (∀ pc ∈ s.wake.producers, pc = .idle) ∧ s.waking = []

instance (s : State) : Decidable (Asleep s) := inferInstanceAs (Decidable (_ ∧ _ ∧ _ ∧ _))

/-- The loop never starts a turn with more queued connections than a batch. -/
def shortQueue (s : State) : Action → Bool
  | .wake action => !starts s action || s.server.resumedConnections.length ≤ maxBatch
  | _ => true

def keepsWake (s : State) : Action → Bool
  | .wake action => drainKeepsWake s.wake action
  | _ => true

/-- Somebody has queued connections or called `wake_reactor` since the scan began, or is about to. -/
def Announced (s : State) : Prop :=
  s.waking ≠ [] ∨ (∃ pc ∈ s.wake.producers, pc ≠ .idle) ∨ s.wake.wokenSinceScan = true

def afterScan : ReactorPc → Bool
  | .wait | .events _ | .consume => true
  | _ => false

structure Inv (s : State) : Prop where
  covered : Covered s.wake
  scanning : ∀ taken, s.wake.reactor = .scan → s.batch = some taken →
    s.server.resumedConnections.length + taken ≤ maxBatch ∨ Announced s
  scanned : s.wake.reactor = .scan → s.batch = none → s.server.resumedConnections = [] ∨ Announced s
  waiting : afterScan s.wake.reactor = true → s.server.resumedConnections = [] ∨ Announced s

inductive Turn (action : Wakeup.Action) (w w' : Wakeup.State) : Prop
  | start : action = .reactor → w.reactor = .loopHead → w'.reactor = .scan → Turn action w w'
  | rest : action = .reactor → w.reactor = .scan → w'.reactor = .wait → w'.wokenSinceScan = w.wokenSinceScan →
    Turn action w w'
  | stay : w'.reactor = w.reactor → w'.wokenSinceScan = w.wokenSinceScan → Turn action w w'
  | onward : afterScan w.reactor = true → w'.reactor ≠ .scan → w'.wokenSinceScan = w.wokenSinceScan → Turn action w w'
  | exit : w'.reactor = .exited → Turn action w w'

theorem runReactor_turn {w w' : Wakeup.State} (h : Wakeup.runReactor w = some w') : Turn .reactor w w' := by
  rw [Wakeup.runReactor] at h
  split at h
  · rename_i hPc
    split at h <;> cases h
    · exact .start rfl hPc rfl
    · exact .exit rfl
  · rename_i hPc
    cases h
    exact .rest rfl hPc rfl rfl
  case h_8 hPc =>
    split at h <;> cases h
    · exact .onward (by rw [hPc]; rfl) (by simp) rfl
    · exact .stay rfl rfl
  -- A batch ends, or goes on with the event after its first one.
  all_goals
    rename_i hPc
    cases h
  all_goals exact .onward (by rw [hPc]; rfl) (by simp) rfl

theorem waitReturns_turn {w w' : Wakeup.State} {result : WaitResult} (h : Wakeup.waitReturns w result = some w') :
    Turn (.waitReturns result) w w' := by
  unfold Wakeup.waitReturns at h
  split at h
  · rename_i hPc
    have hAfter : afterScan w.reactor = true := by rw [hPc]; rfl
    cases result with
    | ready tokens =>
      dsimp only at h
      split at h <;> cases h
      exact .onward hAfter nofun rfl
    | interrupted | failed | timedOut =>
      cases h
      exact .onward hAfter nofun rfl
  · cases h

theorem step_turn {w w' : Wakeup.State} {action : Wakeup.Action} (hAction : ∀ index, action ≠ .producer index)
    (h : Wakeup.step w action = some w') : Turn action w w' := by
  cases action with
  | producer index => exact absurd rfl (hAction index)
  | reactor => exact runReactor_turn h
  | waitReturns result => exact waitReturns_turn h
  | reactorThrows =>
    dsimp only [Wakeup.step] at h
    split at h <;> cases h
    exact .exit rfl
  | stopRunning =>
    cases h
    exact .stay rfl rfl
  | stopSignal =>
    cases h
    unfold signal
    split <;> exact .stay rfl rfl

theorem step_producers {w w' : Wakeup.State} {action : Wakeup.Action} (hAction : ∀ index, action ≠ .producer index)
    (h : Wakeup.step w action = some w') : w'.producers = w.producers := by
  cases action with
  | producer index => exact absurd rfl (hAction index)
  | reactor =>
    dsimp only [Wakeup.step, Wakeup.runReactor] at h
    split at h
    case h_1 | h_8 => split at h <;> cases h <;> rfl
    all_goals
      cases h
      try rfl
  | waitReturns result =>
    dsimp only [Wakeup.step, Wakeup.waitReturns] at h
    split at h
    · cases result with
      | ready tokens =>
        dsimp only at h
        split at h <;> cases h
        rfl
      | interrupted | failed | timedOut =>
        cases h
        rfl
    · cases h
  | reactorThrows =>
    dsimp only [Wakeup.step] at h
    split at h <;> cases h
    rfl
  | stopRunning =>
    cases h
    rfl
  | stopSignal =>
    cases h
    unfold signal
    split <;> rfl

theorem producer_announces {w w' : Wakeup.State} {index : Nat} (hFd : 0 ≤ w.wakeupFd)
    (h : wakeReactor w index = some w') :
    ((∃ pc ∈ w'.producers, pc ≠ .idle) ∨ w'.wokenSinceScan = true) ∧ w'.reactor = w.reactor := by
  rw [wakeReactor] at h
  split at h
  · cases h
  · rename_i hPc
    rw [if_neg (by omega)] at h
    cases h
    exact ⟨.inl ⟨_, Pool.mem_set_self hPc _, by simp⟩, rfl⟩
  · rename_i hPc
    split at h <;> cases h
    · exact ⟨.inr rfl, rfl⟩
    · exact ⟨.inl ⟨_, Pool.mem_set_self hPc _, by simp⟩, rfl⟩
  · rw [signal_eq hFd] at h
    cases h
    exact ⟨.inr rfl, rfl⟩

section Step

variable {opts : Core.Options} {s t : State}

theorem Inv.resume {producer released : Nat} (hInv : Inv s) (h : resume opts s producer released = some t) : Inv t := by
  unfold Resume.resume at h
  split at h
  · cases h
    -- the queue is as before, or the producer that has made it longer is yet to wake the reactor
    have hGrown : ∀ (P : List (Nat × Nat) → Prop) {t : State},
        t.server = (resumePausedConnections opts s.server released).1 → t.wake = s.wake →
        t.waking = (if (resumePausedConnections opts s.server released).2 = [] then s.waking
          else producer :: s.waking) →
        (P s.server.resumedConnections ∨ Announced s) → P t.server.resumedConnections ∨ Announced t := by
      intro P t hServer hWake hWaking hBefore
      by_cases hNone : (resumePausedConnections opts s.server released).2 = []
      · rw [if_pos hNone] at hWaking
        have hSame : t.server.resumedConnections = s.server.resumedConnections := by
          have hEmpty : resumable opts s.server released = [] := List.map_eq_nil_iff.mp hNone
          rw [hServer, resumePausedConnections]
          simp [hEmpty]
        rw [hSame, Announced, hWaking, hWake]
        exact hBefore
      · rw [if_neg hNone] at hWaking
        exact .inr (.inl (by rw [hWaking]; exact nofun))
    refine ⟨hInv.covered, ?_, ?_, ?_⟩
    · intro taken hPc hBatch
      exact hGrown (fun queue => queue.length + taken ≤ maxBatch) rfl rfl rfl (hInv.scanning taken hPc hBatch)
    · intro hPc hBatch
      exact hGrown (· = []) rfl rfl rfl (hInv.scanned hPc hBatch)
    · intro hPc
      exact hGrown (· = []) rfl rfl rfl (hInv.waiting hPc)
  · cases h

theorem processResumed_queue {server : Core.State} {result : Result} (h : processResumed server = some result) :
    server.resumedConnections.length = result.1.resumedConnections.length + 1 := by
  unfold processResumed at h
  split at h
  · cases h
  · rename_i hQueue
    dsimp only at h
    split at h <;> cases h <;> rw [hQueue] <;> rfl

theorem processResumed_none {server : Core.State} (h : processResumed server = none) :
    server.resumedConnections = [] := by
  unfold processResumed at h
  split at h
  · assumption
  · dsimp only at h
    split at h <;> cases h

theorem Inv.processRound (hInv : Inv s) (h : processRound s = some t) : Inv t := by
  unfold Resume.processRound at h
  split at h
  · rename_i taken hPc hBatch
    have hScanning := hInv.scanning taken hPc hBatch
    have hAfter : afterScan s.wake.reactor = true → False := by
      rw [hPc]
      exact nofun
    split at h
    · split at h
      · rename_i hNone
        cases h
        exact ⟨hInv.covered, nofun, fun _ _ => .inl (processResumed_none hNone), fun hTrue => (hAfter hTrue).elim⟩
      · rename_i result hSome
        have hQueue := processResumed_queue hSome
        cases h
        refine ⟨hInv.covered, ?_, nofun, fun hTrue => (hAfter hTrue).elim⟩
        intro taken' _ hTaken
        cases hTaken
        refine hScanning.imp_left fun hShort => ?_
        dsimp only
        omega
    · rename_i hFull
      cases h
      refine ⟨hInv.covered, nofun, fun _ _ => ?_, fun hTrue => (hAfter hTrue).elim⟩
      refine hScanning.imp_left fun hShort => List.length_eq_zero_iff.mp ?_
      dsimp only
      omega
  · cases h

theorem announced_kept {w : Wakeup.State} {action : Wakeup.Action} {batch : Option Nat}
    (hAction : ∀ index, action ≠ .producer index) (hProducers : w.producers = s.wake.producers)
    (hWoken : w.wokenSinceScan = s.wake.wokenSinceScan) (h : Announced s) :
    Announced { s with wake := w, waking := stillWaking s action, batch } := by
  have hWaking : stillWaking s action = s.waking := by
    cases action with
    | producer index => exact absurd rfl (hAction index)
    | _ => rfl
  unfold Announced
  rw [hWaking, hProducers, hWoken]
  exact h

theorem starts_false {action : Wakeup.Action} (h : s.wake.reactor ≠ .loopHead) : starts s action = false := by
  cases action with
  | reactor => exact beq_eq_false_iff_ne.mpr h
  | _ => rfl

theorem Inv.wakeStep {action : Wakeup.Action} (hInv : Inv s) (hShort : shortQueue s (.wake action) = true)
    (hKeeps : drainKeepsWake s.wake action = true) (h : wakeStep s action = some t) : Inv t := by
  unfold Resume.wakeStep at h
  split at h
  · cases h
  · rename_i hLeaves
    obtain ⟨w, hStep, rfl⟩ := Option.map_eq_some_iff.mp h
    have hCovered := step_covered hInv.covered hKeeps hStep
    by_cases hProducer : ∃ index, action = .producer index
    · obtain ⟨index, rfl⟩ := hProducer
      obtain ⟨hAnnounced, _⟩ := producer_announces hInv.covered.wakeupFd hStep
      exact ⟨hCovered, fun _ _ _ => .inr (.inr hAnnounced), fun _ _ => .inr (.inr hAnnounced),
        fun _ => .inr (.inr hAnnounced)⟩
    · have hAction : ∀ index, action ≠ .producer index := fun index hEq => hProducer ⟨index, hEq⟩
      have hProducers := step_producers hAction hStep
      cases step_turn hAction hStep with
      | start hReactor hPc hNext =>
        subst hReactor
        have hStarts : starts s .reactor = true := beq_iff_eq.mpr hPc
        have hLength : s.server.resumedConnections.length ≤ maxBatch := by
          simpa [shortQueue, hStarts] using hShort
        refine ⟨hCovered, ?_, ?_, ?_⟩
        · intro taken _ hBatch
          rw [if_pos hStarts] at hBatch
          cases hBatch
          exact .inl hLength
        · intro _ hBatch
          rw [if_pos hStarts] at hBatch
          cases hBatch
        · dsimp only
          rw [hNext]
          exact nofun
      | rest hReactor hPc hNext hWoken =>
        have hBatch : s.batch = none := by
          by_contra hSome
          exact hLeaves ⟨hReactor, hPc, hSome⟩
        refine ⟨hCovered, ?_, ?_, ?_⟩
        · dsimp only
          rw [hNext]
          exact nofun
        · dsimp only
          rw [hNext]
          exact nofun
        · intro _
          exact (hInv.scanned hPc hBatch).imp_right (announced_kept hAction hProducers hWoken)
      | stay hSame hWoken =>
        have hKept := @announced_kept s w action (if starts s action then some 0 else s.batch) hAction hProducers hWoken
        refine ⟨hCovered, ?_, ?_, ?_⟩
        · intro taken hPc hBatch
          rw [hSame] at hPc
          rw [starts_false (by rw [hPc]; exact nofun)] at hBatch
          exact (hInv.scanning taken hPc hBatch).imp_right hKept
        · intro hPc hBatch
          rw [hSame] at hPc
          rw [starts_false (by rw [hPc]; exact nofun)] at hBatch
          exact (hInv.scanned hPc hBatch).imp_right hKept
        · intro hPc
          rw [hSame] at hPc
          exact (hInv.waiting hPc).imp_right hKept
      | onward hAfter hNext hWoken =>
        refine ⟨hCovered, fun _ hPc => absurd hPc hNext, fun hPc => absurd hPc hNext, fun _ => ?_⟩
        exact (hInv.waiting hAfter).imp_right (announced_kept hAction hProducers hWoken)
      | exit hExit =>
        refine ⟨hCovered, ?_, ?_, ?_⟩
        all_goals
          dsimp only
          rw [hExit]
          exact nofun

theorem Inv.next {action : Action} (hInv : Inv s) (hShort : shortQueue s action = true)
    (hKeeps : keepsWake s action = true) (h : step opts s action = some t) : Inv t := by
  cases action with
  | resume producer released => exact hInv.resume h
  | processResumed => exact hInv.processRound h
  | wake action => exact hInv.wakeStep hShort hKeeps h
  | server server =>
    dsimp only [step] at h
    split at h <;> cases h
    rename_i hSame
    refine ⟨hInv.covered, ?_, ?_, ?_⟩
    all_goals
      dsimp only
      rw [hSame]
    · exact hInv.scanning
    · exact hInv.scanned
    · exact hInv.waiting

end Step

theorem Inv.start {s : State} (hInit : Initial s) : Inv s := by
  obtain ⟨hWake, hResumed, _⟩ := hInit
  refine ⟨⟨hWake.wakeupFd, by simp [hWake.wakePending], by simp [hWake.wokenSinceScan]⟩, ?_, ?_, ?_⟩
  all_goals
    rw [hWake.reactor]
    exact nofun

/-- In every run whose drains keep the wakes that they do not answer and whose turns start with at most a
batch of queued connections, a sleeping reactor has left none behind. -/
theorem sleeping_queue_empty (opts : Core.Options) (s : State)
    (h : (machine opts).Reached (fun s a => (keepsWake s a && shortQueue s a) = true) s) (hAsleep : Asleep s) :
    s.server.resumedConnections = [] := by
  have hInv : Inv s := h.invariant (I := Inv) (fun _ => Inv.start) fun _ _ _ _ hInv hGuard hStep => by
    obtain ⟨hKeeps, hShort⟩ := Bool.and_eq_true_iff.mp hGuard
    exact hInv.next hShort hKeeps hStep
  obtain ⟨hWait, hCounter, hIdle, hWaking⟩ := hAsleep
  have hPending : s.wake.wakePending = true → False := by
    intro hTrue
    obtain hNonzero | hSignal := hInv.covered.pending hTrue
    · exact hNonzero hCounter
    · cases hIdle _ hSignal
  obtain hEmpty | hWaiting | ⟨pc, hMem, hBusy⟩ | hWoken := hInv.waiting (by rw [hWait]; rfl)
  · exact hEmpty
  · exact absurd hWaking hWaiting
  · exact absurd (hIdle pc hMem) hBusy
  · obtain hTrue | hNonzero | hPc := hInv.covered.woken hWoken
    · exact (hPending hTrue).elim
    · exact absurd hCounter hNonzero
    · rw [hWait] at hPc
      simp at hPc

def budgeted : Core.Options :=
  { Steps.frugal with maxConnections := 100, connections_pos := by decide, streams_fit := by decide }

def pausedServer (count : Nat) : Core.State where
  objects := count
  table := List.range count
  connections k :=
    { object := k, phase := .requestBudget, payloadTotal := 64, pendingInput := true, readPaused := true,
      registeredEvents := ⟨false, false⟩, watched := some ⟨false, false⟩ }

def sleeper : State where
  server := {}
  wake := startState
  waking := []
  batch := none

theorem sleeper_initial : (machine budgeted).initial sleeper :=
  ⟨startState_initial, rfl, rfl⟩

/-- While the reactor sleeps, `count` connections are paused and one release resumes them all; its next turn
has `rounds` rounds of `process_resumed_connections`. -/
def resumeAll (count rounds : Nat) : List Action :=
  [Action.wake .reactor, .processResumed, .wake .reactor, .server (pausedServer count), .resume 0 0,
    .wake (.producer 0),
    .wake (.producer 0), .wake (.producer 0), .wake (.waitReturns (.ready [.wake])), .wake .reactor, .wake .reactor,
    .wake .reactor, .wake .reactor] ++ List.replicate rounds Action.processResumed ++ [Action.wake .reactor]

theorem sleeping_queue_empty_two : ∃ s,
    (machine budgeted).Reached (fun s a => (keepsWake s a && shortQueue s a) = true) s ∧ Asleep s ∧
      s.server.table.length = 2 ∧ s.server.resumedConnections = [] := by
  obtain ⟨s, hReached, hAsleep, hTable⟩ := Machine.exists_reached_of_exec
    (fun s => Asleep s ∧ s.server.table.length = 2) (fun s a => keepsWake s a && shortQueue s a) (resumeAll 2 3)
    sleeper_initial (by decide +kernel)
  exact ⟨s, hReached, hAsleep, hTable, sleeping_queue_empty budgeted s hReached hAsleep⟩

/-- One connection more than a batch: the last one is left in the queue, and nobody wakes the reactor for it. -/
theorem resumed_connection_left : ∃ s, (machine budgeted).Reached (fun s a => keepsWake s a = true) s ∧ Asleep s ∧
    s.server.resumedConnections = [(64, 64)] :=
  Machine.exists_reached_of_exec _ keepsWake (resumeAll 65 65) sleeper_initial (by decide +kernel)

end EasyUds.Reactor.Resume

import EasyUds.Lib.Machine
import EasyUds.Lib.Pool

/-! # One `run()` call against concurrent `stop()` calls

`Server::run`, `stop_state` and the destructor of `RunActiveGuard`, with every atomic store and
every section under `lifecycle_mutex` as one step. The reactor thread is part of the run: between
its start and its join, `run` only waits for it. `stop_state` is called by `Server::stop` and by
the destructor (the list `stops`) and by `run` itself.
-/

namespace EasyUds.Runtime.Lifecycle

open Lib

/-- The next step of a `stop_state` call. The flag is its local `close_without_run`. -/
inductive StopPc
  | storeRunning
  | lockStopped
  | unlinkSocket (closeWithoutRun : Bool)
  | shutdownConnections (closeWithoutRun : Bool)
  | stopWorkers (closeWithoutRun : Bool)
  | stopSerialized (closeWithoutRun : Bool)
  | closeDescriptors (closeWithoutRun : Bool)
  | returned
  deriving DecidableEq, Repr

/-- The next step of the `run` call; `loopHead` and `loopBody` are the reactor thread's. -/
inductive RunPc
  | entry
  | createPoller
  | registerListener
  | registerWakeup
  | publish
  | startThreads
  | loopHead
  | loopBody
  | stopping (pc : StopPc)
  | joinWorkers
  | clearConnections
  | guardStoreRunning
  | guardUnlinkSocket
  | guardClose
  | finished
  deriving DecidableEq, Repr

structure State where
  running : Bool
  stopped : Bool
  runStarted : Bool
  runActive : Bool
  workersStopping : Bool
  serializedStopping : Bool
  listenerFd : Int
  wakeupFd : Int
  wakeups : Nat
  run : RunPc
  stops : List StopPc
  deriving DecidableEq, Repr

/-- `run succeeds` is the next step of the run; the flag is the outcome of the system call or the
thread start at that place, where there is one. -/
inductive Action
  | callStop
  | stop (index : Nat)
  | run (succeeds : Bool)
  deriving DecidableEq, Repr

def closeLifecycleFdsLocked (s : State) : State := { s with listenerFd := -1, wakeupFd := -1 }

def stopState (s : State) : StopPc → Option (State × StopPc)
  | .storeRunning => some ({ s with running := false }, .lockStopped)
  | .lockStopped =>
    some ({ s with stopped := true, wakeups := if s.wakeupFd < 0 then s.wakeups else s.wakeups + 1 },
      .unlinkSocket (!s.runActive))
  | .unlinkSocket closeWithoutRun => some (s, .shutdownConnections closeWithoutRun)
  | .shutdownConnections closeWithoutRun => some (s, .stopWorkers closeWithoutRun)
  | .stopWorkers closeWithoutRun =>
    some ({ s with workersStopping := true }, .stopSerialized closeWithoutRun)
  | .stopSerialized closeWithoutRun =>
    some ({ s with serializedStopping := true }, .closeDescriptors closeWithoutRun)
  | .closeDescriptors closeWithoutRun =>
    some (if closeWithoutRun && !s.runActive then closeLifecycleFdsLocked s else s, .returned)
  | .returned => none

def runStep (s : State) (succeeds : Bool) : Option State :=
  match s.run with
  | .entry =>
    if s.runStarted then some { s with run := .finished }
    else if s.stopped || s.listenerFd < 0 || s.wakeupFd < 0 then
      some { s with runStarted := true, run := .finished }
    else some { s with runStarted := true, runActive := true, run := .createPoller }
  | .createPoller =>
    some { s with run := if succeeds then .registerListener else .guardStoreRunning }
  | .registerListener =>
    some { s with run := if succeeds then .registerWakeup else .guardStoreRunning }
  | .registerWakeup =>
    some { s with run := if succeeds then .publish else .guardStoreRunning }
  -- The second section under `lifecycle_mutex`: the test of `stopped` and the store of `running`.
  | .publish =>
    if s.stopped then some { s with run := .guardStoreRunning }
    else some { s with running := true, run := .startThreads }
  | .startThreads =>
    some { s with run := if succeeds then .loopHead else .stopping .storeRunning }
  | .loopHead =>
    some { s with run := if s.running then .loopBody else .stopping .storeRunning }
  | .loopBody => some { s with run := if succeeds then .loopHead else .stopping .storeRunning }
  | .stopping .returned => some { s with run := .joinWorkers }
  | .stopping pc => (stopState s pc).map fun next => { next.1 with run := .stopping next.2 }
  | .joinWorkers => some { s with run := .clearConnections }
  | .clearConnections => some { s with run := .guardStoreRunning }
  | .guardStoreRunning => some { s with running := false, run := .guardUnlinkSocket }
  | .guardUnlinkSocket => some { s with run := .guardClose }
  | .guardClose =>
    some { closeLifecycleFdsLocked s with runActive := false, run := .finished }
  | .finished => none

def step (s : State) : Action → Option State
  | .callStop => some { s with stops := s.stops ++ [.storeRunning] }
  | .stop index =>
    match s.stops[index]? with
    | none => none
    | some pc =>
      (stopState s pc).map fun next => { next.1 with stops := s.stops.set index next.2 }
  | .run succeeds => runStep s succeeds

structure Initial (s : State) : Prop where
  running : s.running = false
  stopped : s.stopped = false
  runStarted : s.runStarted = false
  runActive : s.runActive = false
  listenerFd : 0 ≤ s.listenerFd
  wakeupFd : 0 ≤ s.wakeupFd
  run : s.run = .entry
  stops : s.stops = []

def machine : Machine State Action where
  initial := Initial
  step := step

/-- The run does not store `running = true` while a `stop_state` call stands between its own
store of `running` and its section under `lifecycle_mutex`. -/
def publishOutsideStop (s : State) (a : Action) : Bool :=
  match a with
  | .run _ => !(s.run == .publish) || !s.stops.contains .lockStopped
  | _ => true

def AllStopsReturned (s : State) : Prop := ∀ pc ∈ s.stops, pc = .returned

/-- While the server is running no `stop_state` call has taken its first step. -/
structure Fresh (s : State) : Prop where
  running : s.running = true → s.stopped = false ∧ ∀ pc ∈ s.stops, pc = .storeRunning
  -- A call that is past its locked section has left `stopped` set.
  stopped : ∀ pc ∈ s.stops, pc = .storeRunning ∨ pc = .lockStopped ∨ s.stopped = true
  run : ∀ pc, s.run = .stopping pc → pc = .storeRunning ∨ s.running = false

theorem stopState_flags {s : State} {pc : StopPc} {next : State × StopPc}
    (h : stopState s pc = some next) :
    next.1.running = (if pc = .storeRunning then false else s.running) ∧
      next.1.stopped = (if pc = .lockStopped then true else s.stopped) ∧
      next.1.stops = s.stops ∧ next.1.run = s.run ∧ next.2 ≠ .storeRunning ∧
      (next.2 = .lockStopped ↔ pc = .storeRunning) := by
  cases pc with
  | closeDescriptors closeWithoutRun =>
    cases h
    cases closeWithoutRun <;> cases hActive : s.runActive <;> simp [closeLifecycleFdsLocked]
  | returned => cases h
  | _ =>
    cases h
    simp

theorem stop_fresh {s t : State} {index : Nat} (h : Fresh s) (hStep : step s (.stop index) = some t) :
    Fresh t := by
  simp only [step] at hStep
  split at hStep
  · cases hStep
  · rename_i pc hPc
    obtain ⟨next, hNext, rfl⟩ := Option.map_eq_some_iff.mp hStep
    obtain ⟨hRunning, hStopped, hStops, hRun, hFirst, hSecond⟩ := stopState_flags hNext
    have hMem := Pool.mem_of_getElem? hPc
    constructor
    · intro hTrue
      -- A running server has only calls that have not begun, and the first step clears `running`.
      have hNe : pc ≠ .storeRunning := by
        rintro rfl
        simp [hRunning] at hTrue
      rw [hRunning, if_neg hNe] at hTrue
      exact absurd ((h.running hTrue).2 pc hMem) hNe
    · intro other hOther
      rcases Pool.mem_set_cases hOther with hOld | rfl
      · rcases h.stopped other hOld with hCase | hCase | hCase
        · exact .inl hCase
        · exact .inr (.inl hCase)
        · exact .inr (.inr (by simp [hStopped, hCase]))
      · rcases h.stopped pc hMem with hCase | hCase | hCase
        · exact .inr (.inl (hSecond.mpr hCase))
        · exact .inr (.inr (by simp [hStopped, hCase]))
        · exact .inr (.inr (by simp [hStopped, hCase]))
    · intro own hOwn
      have hOld : s.run = .stopping own := hRun.symm.trans hOwn
      rcases h.run own hOld with hCase | hCase
      · exact .inl hCase
      · exact .inr (by simp [hRunning, hCase])

theorem runStopping_fresh {s : State} {pc : StopPc} {next : State × StopPc} (h : Fresh s)
    (hPc : s.run = .stopping pc) (hNext : stopState s pc = some next) :
    Fresh { next.1 with run := .stopping next.2 } := by
  obtain ⟨hRunning, hStopped, hStops, _, _, _⟩ := stopState_flags hNext
  have hFalse : next.1.running = false := by
    rcases h.run pc hPc with hCase | hCase
    · simp [hRunning, hCase]
    · simp [hRunning, hCase]
  refine ⟨fun hTrue => absurd (hFalse.symm.trans hTrue) Bool.false_ne_true, ?_, fun _ _ => .inr hFalse⟩
  intro other hOther
  rw [show ({ next.1 with run := .stopping next.2 } : State).stops = s.stops from hStops] at hOther
  rcases h.stopped other hOther with hCase | hCase | hCase
  · exact .inl hCase
  · exact .inr (.inl hCase)
  · exact .inr (.inr (by simp [hStopped, hCase]))

theorem Fresh.frame {s t : State} (h : Fresh s) (hRunning : t.running = true → s.running = true)
    (hStopped : t.stopped = s.stopped) (hStops : t.stops = s.stops)
    (hRun : ∀ pc, t.run = .stopping pc → pc = .storeRunning) : Fresh t where
  running hTrue := by
    rw [hStopped, hStops]
    exact h.running (hRunning hTrue)
  stopped := by
    rw [hStopped, hStops]
    exact h.stopped
  run pc hPc := .inl (hRun pc hPc)

theorem run_fresh {s t : State} {succeeds : Bool} (h : Fresh s)
    (hGuard : publishOutsideStop s (.run succeeds) = true)
    (hStep : step s (.run succeeds) = some t) : Fresh t := by
  simp only [step] at hStep
  unfold runStep at hStep
  split at hStep
  · split at hStep
    · cases hStep
      exact h.frame id rfl rfl (by simp)
    · split at hStep
      · cases hStep
        exact h.frame id rfl rfl (by simp)
      · cases hStep
        exact h.frame id rfl rfl (by simp)
  · cases hStep
    exact h.frame id rfl rfl (by cases succeeds <;> simp)
  · cases hStep
    exact h.frame id rfl rfl (by cases succeeds <;> simp)
  · cases hStep
    exact h.frame id rfl rfl (by cases succeeds <;> simp)
  · rename_i hPc
    split at hStep
    · cases hStep
      exact h.frame id rfl rfl (by simp)
    · rename_i hStopped
      cases hStep
      have hOutside : StopPc.lockStopped ∉ s.stops := by
        simpa [publishOutsideStop, hPc] using hGuard
      refine ⟨fun _ => ⟨by simpa using hStopped, fun pc hMem => ?_⟩, h.stopped, by simp⟩
      rcases h.stopped pc hMem with hCase | hCase | hCase
      · exact hCase
      · exact absurd (hCase ▸ hMem) hOutside
      · exact absurd hCase hStopped
  · cases hStep
    exact h.frame id rfl rfl (by cases succeeds <;> simp [eq_comm])
  · cases hStep
    exact h.frame id rfl rfl (by cases hRunning : s.running <;> simp [eq_comm])
  · cases hStep
    exact h.frame id rfl rfl (by cases succeeds <;> simp [eq_comm])
  · cases hStep
    exact h.frame id rfl rfl (by simp)
  · rename_i pc _ hPc
    obtain ⟨next, hNext, rfl⟩ := Option.map_eq_some_iff.mp hStep
    exact runStopping_fresh h hPc hNext
  · cases hStep
    exact h.frame id rfl rfl (by simp)
  · cases hStep
    exact h.frame id rfl rfl (by simp)
  · cases hStep
    exact h.frame (by simp) rfl rfl (by simp)
  · cases hStep
    exact h.frame id rfl rfl (by simp)
  · cases hStep
    exact h.frame id rfl rfl (by simp)
  · cases hStep

theorem step_fresh {s t : State} {a : Action} (h : Fresh s) (hGuard : publishOutsideStop s a = true)
    (hStep : step s a = some t) : Fresh t := by
  cases a with
  | callStop =>
    cases hStep
    refine ⟨fun hTrue => ?_, fun pc hPc => ?_, h.run⟩
    · obtain ⟨hStopped, hStops⟩ := h.running hTrue
      refine ⟨hStopped, fun pc hPc => ?_⟩
      rcases List.mem_append.mp hPc with hOld | hNew
      · exact hStops pc hOld
      · exact List.mem_singleton.mp hNew
    · rcases List.mem_append.mp hPc with hOld | hNew
      · exact h.stopped pc hOld
      · exact .inl (List.mem_singleton.mp hNew)
  | stop index => exact stop_fresh h hStep
  | run succeeds => exact run_fresh h hGuard hStep

theorem fresh_of_reached {s : State}
    (h : machine.Reached (fun s a => publishOutsideStop s a = true) s) : Fresh s := by
  refine Machine.Reached.invariant (fun s hInit => ?_) (fun s a t _ hFresh hGuard hStep => ?_) h
  · exact ⟨by simp [hInit.running], by simp [hInit.stops], by simp [hInit.run]⟩
  · exact step_fresh hFresh hGuard hStep

theorem runStep_stops {s t : State} {succeeds : Bool} (hStep : runStep s succeeds = some t) :
    t.stops = s.stops := by
  unfold runStep at hStep
  split at hStep
  case h_10 =>
    obtain ⟨next, hNext, rfl⟩ := Option.map_eq_some_iff.mp hStep
    exact (stopState_flags hNext).2.2.1
  case h_1 | h_5 => grind
  all_goals
    cases hStep
  all_goals rfl

theorem step_returned {s t : State} {a : Action} (h : StopPc.returned ∈ s.stops)
    (hStep : step s a = some t) : StopPc.returned ∈ t.stops := by
  cases a with
  | callStop =>
    cases hStep
    exact List.mem_append_left _ h
  | stop index =>
    simp only [step] at hStep
    split at hStep
    · cases hStep
    · rename_i pc hPc
      obtain ⟨next, hNext, rfl⟩ := Option.map_eq_some_iff.mp hStep
      have hNe : StopPc.returned ≠ pc := by
        rintro rfl
        cases hNext
      exact Pool.mem_set_of_ne hPc _ h hNe
  | run succeeds => rwa [runStep_stops hStep]

/-- As long as `running` is published outside the first two steps of every `stop_state` call: once a
`stop()` has returned, `running` stays false and the reactor leaves its loop at the next test. -/
theorem stop_final (s : State) (hReached : machine.Reached (fun s a => publishOutsideStop s a = true) s) :
    (StopPc.returned ∈ s.stops → ∀ t, machine.Leads (fun s a => publishOutsideStop s a = true) s t →
      t.running = false ∧ (t.run = .loopHead → ∀ succeeds,
        step t (.run succeeds) = some { t with run := .stopping .storeRunning })) ∧
    ¬ (s.stopped = true ∧ s.running = true ∧ AllStopsReturned s) := by
  constructor
  · intro hStop t hLater
    have hFresh := fresh_of_reached (hReached.leads hLater)
    have hReturned : StopPc.returned ∈ t.stops :=
      hLater.stable (P := fun s => StopPc.returned ∈ s.stops) (fun _ _ _ => step_returned) hStop
    have hRunning : t.running = false := by
      by_contra hTrue
      have hFirst := (hFresh.running (by simpa using hTrue)).2 _ hReturned
      cases hFirst
    refine ⟨hRunning, fun hPc succeeds => ?_⟩
    simp [step, runStep, hPc, hRunning]
  · rintro ⟨hStopped, hRunning, _⟩
    have hFalse := ((fresh_of_reached hReached).running hRunning).1
    exact absurd (hFalse.symm.trans hStopped) Bool.false_ne_true

def constructed : State where
  running := false
  stopped := false
  runStarted := false
  runActive := false
  workersStopping := false
  serializedStopping := false
  listenerFd := 3
  wakeupFd := 4
  wakeups := 0
  run := .entry
  stops := []

theorem constructed_initial : machine.initial constructed :=
  ⟨rfl, rfl, rfl, rfl, by decide, by decide, rfl, rfl⟩

def stoppedServing : List Action :=
  [.run true, .run true, .run true, .run true, .run true, .run true, .callStop, .stop 0, .stop 0, .stop 0,
    .stop 0, .stop 0, .stop 0, .stop 0]

theorem stop_final_serving : ∃ s, machine.Reached (fun s a => publishOutsideStop s a = true) s ∧
    s.run = .loopHead ∧ s.runActive = true ∧ StopPc.returned ∈ s.stops ∧
    (∀ t, machine.Leads (fun s a => publishOutsideStop s a = true) s t → t.running = false) ∧
    ¬ (s.stopped = true ∧ s.running = true ∧ AllStopsReturned s) := by
  obtain ⟨s, hReached, hRun, hActive, hReturned⟩ := Machine.exists_reached_of_exec
    (fun s => s.run = .loopHead ∧ s.runActive = true ∧ StopPc.returned ∈ s.stops) publishOutsideStop stoppedServing
    constructed_initial (by decide)
  obtain ⟨hFinal, hNever⟩ := stop_final s hReached
  exact ⟨s, hReached, hRun, hActive, hReturned, fun t hLater => (hFinal hReturned t hLater).1, hNever⟩

/-- `stop()` clears `running`, then `run` passes its test of `stopped` and sets `running`, then
`stop()` sets `stopped` and returns. -/
def lostStop : List Action :=
  [.run true, .run true, .run true, .run true, .callStop, .stop 0, .run true, .stop 0, .stop 0,
    .stop 0, .stop 0, .stop 0, .stop 0]

theorem stop_not_final : ∃ s, machine.Reachable s ∧ s.stopped = true ∧ s.running = true ∧
    AllStopsReturned s ∧ s.stops ≠ [] := by
  have hExec : machine.exec (fun _ _ => true) constructed lostStop =
      some { constructed with
        running := true
        stopped := true
        runStarted := true
        runActive := true
        workersStopping := true
        serializedStopping := true
        wakeups := 1
        run := .startThreads
        stops := [.returned] } := by
    decide
  exact ⟨_, Machine.reachable_of_exec lostStop constructed_initial hExec, rfl, rfl,
    by simp [AllStopsReturned], by simp⟩

end EasyUds.Runtime.Lifecycle

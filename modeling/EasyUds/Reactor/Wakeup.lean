import EasyUds.Lib.Machine
import EasyUds.Lib.Pool

/-! # The coalesced reactor wakeup

Any number of producers run `wake_reactor`; the reactor thread runs the loop of `run_reactor`
over an eventfd. Each atomic operation and each read or write of the eventfd counter is one
step. The reactor's own calls of `wake_reactor` are made by one of the producers, which may be
scheduled at any time.
-/

namespace EasyUds.Reactor.Wakeup

open Lib

inductive ProducerPc
  | idle
  | compareExchange
  | signal
  deriving DecidableEq, Repr

inductive Token
  | listener
  | wake
  | connection
  deriving DecidableEq, Repr

/-- Where the reactor stands in `run_reactor`. In `events` the batch returned by the last
wait is processed token by token; `consume` is inside `readiness::consume`. -/
inductive ReactorPc
  | loopHead
  | scan
  | wait
  | events (tokens : List Token)
  | consume
  | exited
  deriving DecidableEq, Repr

/-- `wokenSinceScan` is a history variable: some `wake_reactor` call has returned since the
reactor last began its resumed/expiry scan. -/
structure State where
  wakeupFd : Int
  wakePending : Bool
  counter : Nat
  running : Bool
  reactor : ReactorPc
  producers : List ProducerPc
  wokenSinceScan : Bool
  deriving DecidableEq, Repr

inductive WaitResult
  | interrupted
  | failed
  | timedOut
  | ready (tokens : List Token)
  deriving DecidableEq, Repr

inductive Action
  | producer (index : Nat)
  | reactor
  | waitReturns (result : WaitResult)
  | reactorThrows
  | stopRunning
  | stopSignal
  deriving DecidableEq, Repr

def signal (s : State) : State :=
  if s.wakeupFd < 0 then s else { s with counter := s.counter + 1 }

def setProducer (s : State) (index : Nat) (pc : ProducerPc) : State :=
  { s with producers := s.producers.set index pc }

def returnProducer (s : State) (index : Nat) : State :=
  { setProducer s index .idle with wokenSinceScan := true }

def wakeReactor (s : State) (index : Nat) : Option State :=
  match s.producers[index]? with
  | none => none
  | some .idle =>
    if s.wakeupFd < 0 then some (returnProducer s index)
    else some (setProducer s index .compareExchange)
  | some .compareExchange =>
    if s.wakePending then some (returnProducer s index)
    else some (setProducer { s with wakePending := true } index .signal)
  | some .signal => some (returnProducer (signal s) index)

/-- The reactor's own steps, apart from the return of `readiness::wait`. -/
def runReactor (s : State) : Option State :=
  match s.reactor with
  | .loopHead =>
    if s.running then some { s with reactor := .scan, wokenSinceScan := false }
    else some { s with reactor := .exited }
  | .scan => some { s with reactor := .wait }
  | .wait => none
  | .events [] => some { s with reactor := .loopHead }
  -- The flag is cleared before the counter is drained; the rest of the batch is dropped.
  | .events (.wake :: _) => some { s with wakePending := false, reactor := .consume }
  | .events (.listener :: rest) => some { s with reactor := .events rest }
  | .events (.connection :: rest) => some { s with reactor := .events rest }
  -- One `read` of the eventfd: it returns the counter and zeroes it, or fails with EAGAIN.
  | .consume =>
    if s.counter = 0 then some { s with reactor := .loopHead }
    else some { s with counter := 0 }
  | .exited => none

/-- `readiness::wait` is level triggered: it reports the wakeup only while the counter is
nonzero, and possibly not then, since the batch is bounded. -/
def waitReturns (s : State) (result : WaitResult) : Option State :=
  if s.reactor = .wait then
    match result with
    | .interrupted => some { s with reactor := .loopHead }
    | .failed => some { s with reactor := .exited }
    | .timedOut => some { s with reactor := .loopHead }
    | .ready tokens =>
      if Token.wake ∈ tokens ∧ s.counter = 0 then none
      else some { s with reactor := .events tokens }
  else none

def step (s : State) : Action → Option State
  | .producer index => wakeReactor s index
  | .reactor => runReactor s
  | .waitReturns result => waitReturns s result
  | .reactorThrows =>
    match s.reactor with
    | .events _ => some { s with reactor := .exited }
    | _ => none
  | .stopRunning => some { s with running := false }
  | .stopSignal => some (signal s)

/-- `run` starts the reactor thread only with an open wakeup descriptor. -/
structure Initial (s : State) : Prop where
  wakeupFd : 0 ≤ s.wakeupFd
  wakePending : s.wakePending = false
  counter : s.counter = 0
  reactor : s.reactor = .loopHead
  producers : ∀ pc ∈ s.producers, pc = .idle
  wokenSinceScan : s.wokenSinceScan = false

def machine : Machine State Action where
  initial := Initial
  step := step

/-- The reactor sleeps: it is in `readiness::wait`, nothing is to be read from the eventfd and
no producer is about to signal. -/
def Blocked (s : State) : Prop :=
  s.reactor = .wait ∧ s.counter = 0 ∧ ProducerPc.signal ∉ s.producers

instance (s : State) : Decidable (Blocked s) := inferInstanceAs (Decidable (_ ∧ _ ∧ _))

/-- What is expected of a sleeping reactor: nobody has asked for it since it began its last
scan, and the next `wake_reactor` will signal. -/
def NoWakeLost (s : State) : Prop :=
  s.wokenSinceScan = false ∧ s.wakePending = false ∧
    ∀ index, s.producers[index]? = some .compareExchange →
      ∃ t, step s (.producer index) = some t ∧ t.producers[index]? = some .signal

/-- The drain of `readiness::consume` does not take a signal that set the flag again: when a
read empties the counter, the flag is still clear or its owner has yet to signal. -/
def drainKeepsWake (s : State) (a : Action) : Bool :=
  !(a == .reactor && s.reactor == .consume && s.counter != 0) ||
    !s.wakePending || s.producers.contains .signal

structure Covered (s : State) : Prop where
  wakeupFd : 0 ≤ s.wakeupFd
  pending : s.wakePending = true → s.counter ≠ 0 ∨ ProducerPc.signal ∈ s.producers
  woken : s.wokenSinceScan = true → s.wakePending = true ∨ s.counter ≠ 0 ∨
    s.reactor = .loopHead ∨ s.reactor = .consume ∨ s.reactor = .exited

theorem signal_eq {s : State} (h : 0 ≤ s.wakeupFd) :
    signal s = { s with counter := s.counter + 1 } := by
  rw [signal, if_neg (by omega)]

theorem wakeReactor_covered {s t : State} {index : Nat} (h : Covered s)
    (hStep : wakeReactor s index = some t) : Covered t := by
  have hFd : ¬ s.wakeupFd < 0 := by have := h.wakeupFd; omega
  rw [wakeReactor] at hStep
  split at hStep
  · cases hStep
  · rename_i hPc
    rw [if_neg hFd] at hStep
    cases hStep
    refine ⟨h.wakeupFd, fun hPending => ?_, h.woken⟩
    exact (h.pending hPending).imp_right fun hMem => Pool.mem_set_of_ne hPc _ hMem (by decide)
  · rename_i hPc
    split at hStep
    · rename_i hPending
      cases hStep
      refine ⟨h.wakeupFd, fun _ => ?_, fun _ => .inl hPending⟩
      exact (h.pending hPending).imp_right fun hMem => Pool.mem_set_of_ne hPc _ hMem (by decide)
    · cases hStep
      exact ⟨h.wakeupFd, fun _ => .inr (Pool.mem_set_self hPc _), fun _ => .inl rfl⟩
  · rw [signal_eq h.wakeupFd] at hStep
    cases hStep
    exact ⟨h.wakeupFd, fun _ => .inl (Nat.succ_ne_zero _), fun _ => .inr (.inl (Nat.succ_ne_zero _))⟩

theorem runReactor_covered {s t : State} (h : Covered s)
    (hGuard : drainKeepsWake s .reactor = true) (hStep : runReactor s = some t) : Covered t := by
  rw [runReactor] at hStep
  split at hStep
  · split at hStep
    · cases hStep
      exact ⟨h.wakeupFd, h.pending, by simp⟩
    · cases hStep
      exact ⟨h.wakeupFd, h.pending, by simp⟩
  · rename_i hPc
    cases hStep
    exact ⟨h.wakeupFd, h.pending, by simpa [hPc] using h.woken⟩
  · cases hStep
  · cases hStep
    exact ⟨h.wakeupFd, h.pending, by simp⟩
  · cases hStep
    exact ⟨h.wakeupFd, by simp, by simp⟩
  · rename_i hPc
    cases hStep
    exact ⟨h.wakeupFd, h.pending, by simpa [hPc] using h.woken⟩
  · rename_i hPc
    cases hStep
    exact ⟨h.wakeupFd, h.pending, by simpa [hPc] using h.woken⟩
  · rename_i hPc
    split at hStep
    · cases hStep
      exact ⟨h.wakeupFd, h.pending, by simp⟩
    · rename_i hCounter
      cases hStep
      -- The guard speaks about exactly this read.
      have hKept : s.wakePending = false ∨ ProducerPc.signal ∈ s.producers := by
        simpa [drainKeepsWake, hPc, hCounter] using hGuard
      refine ⟨h.wakeupFd, fun hPending => .inr ?_, fun _ => by simp [hPc]⟩
      rcases hKept with hClear | hMem
      · exact absurd (hClear.symm.trans hPending) Bool.false_ne_true
      · exact hMem
  · cases hStep

theorem waitReturns_covered {s t : State} {result : WaitResult} (h : Covered s)
    (hStep : waitReturns s result = some t) : Covered t := by
  unfold waitReturns at hStep
  split at hStep
  · rename_i hPc
    cases result with
    | interrupted | failed | timedOut =>
      cases hStep
      exact ⟨h.wakeupFd, h.pending, by simp⟩
    | ready tokens =>
      simp only at hStep
      split at hStep
      · cases hStep
      · cases hStep
        exact ⟨h.wakeupFd, h.pending, by simpa [hPc] using h.woken⟩
  · cases hStep

theorem step_covered {s t : State} {a : Action} (h : Covered s) (hGuard : drainKeepsWake s a = true)
    (hStep : step s a = some t) : Covered t := by
  cases a with
  | producer index => exact wakeReactor_covered h hStep
  | reactor => exact runReactor_covered h hGuard hStep
  | waitReturns result => exact waitReturns_covered h hStep
  | reactorThrows =>
    simp only [step] at hStep
    split at hStep
    · cases hStep
      exact ⟨h.wakeupFd, h.pending, by simp⟩
    · cases hStep
  | stopRunning =>
    cases hStep
    exact ⟨h.wakeupFd, h.pending, h.woken⟩
  | stopSignal =>
    simp only [step, signal_eq h.wakeupFd] at hStep
    cases hStep
    exact ⟨h.wakeupFd, fun _ => .inl (Nat.succ_ne_zero _), fun _ => .inr (.inl (Nat.succ_ne_zero _))⟩

theorem covered_of_reached {s : State}
    (h : machine.Reached (fun s a => drainKeepsWake s a = true) s) : Covered s := by
  refine Machine.Reached.invariant (fun s hInit => ?_) (fun s a t _ hCovered hGuard hStep => ?_) h
  · exact ⟨hInit.wakeupFd, by simp [hInit.wakePending], by simp [hInit.wokenSinceScan]⟩
  · exact step_covered hCovered hGuard hStep

/-- In every run whose drains keep the wakes that they do not answer, no wake is lost. -/
theorem wakeup_not_lost (s : State)
    (h : machine.Reached (fun s a => drainKeepsWake s a = true) s) (hBlocked : Blocked s) :
    NoWakeLost s := by
  have hCovered := covered_of_reached h
  obtain ⟨hWait, hCounter, hSignal⟩ := hBlocked
  have hPending : s.wakePending = false := by
    by_contra hSet
    rcases hCovered.pending (by simpa using hSet) with hNonzero | hMem
    · exact hNonzero hCounter
    · exact hSignal hMem
  have hWoken : s.wokenSinceScan = false := by
    by_contra hSet
    rcases hCovered.woken (by simpa using hSet) with hSet | hNonzero | hPc
    · exact absurd (hPending.symm.trans hSet) Bool.false_ne_true
    · exact hNonzero hCounter
    · simp [hWait] at hPc
  refine ⟨hWoken, hPending, fun index hPc => ?_⟩
  obtain ⟨hIndex, _⟩ := List.getElem?_eq_some_iff.mp hPc
  refine ⟨setProducer { s with wakePending := true } index .signal, ?_, ?_⟩
  · simp [step, wakeReactor, hPc, hPending]
  · simp [setProducer, hIndex]

def startState : State where
  wakeupFd := 3
  wakePending := false
  counter := 0
  running := true
  reactor := .loopHead
  producers := [.idle, .idle]
  wokenSinceScan := false

theorem startState_initial : machine.initial startState :=
  ⟨by decide, rfl, rfl, rfl, by decide, rfl⟩

def answeredWake : List Action :=
  [.reactor, .reactor, .producer 0, .producer 0, .producer 0, .waitReturns (.ready [.wake]),
    .reactor, .reactor, .reactor, .reactor, .reactor, .producer 1]

theorem wakeup_not_lost_answered :
    ∃ s, machine.Reached (fun s a => drainKeepsWake s a = true) s ∧ Blocked s ∧ NoWakeLost s := by
  have hExec : machine.exec drainKeepsWake startState answeredWake =
      some { startState with reactor := .wait, producers := [.idle, .compareExchange] } := by
    decide
  have hReached := Machine.reached_of_exec answeredWake startState_initial hExec
  exact ⟨_, hReached, by decide, wakeup_not_lost _ hReached (by decide)⟩

/-- A producer sets the flag and signals between the reactor's store and its drain. The drain
takes the signal, the flag stays set, and the next producer's wake is coalesced away. -/
def lostWake : List Action :=
  [.reactor, .reactor, .producer 0, .producer 0, .producer 0, .waitReturns (.ready [.wake]),
    .reactor, .producer 0, .producer 0, .producer 0, .reactor, .reactor, .reactor, .reactor,
    .producer 1, .producer 1]

theorem wakeup_lost : ∃ s, machine.Reachable s ∧ Blocked s ∧ ¬ NoWakeLost s ∧
    s.wakePending = true ∧ s.wokenSinceScan = true := by
  have hExec : machine.exec (fun _ _ => true) startState lostWake =
      some { startState with reactor := .wait, wakePending := true, wokenSinceScan := true } := by
    decide
  refine ⟨_, Machine.reachable_of_exec lostWake startState_initial hExec, by decide, ?_, rfl, rfl⟩
  intro hNoLoss
  exact absurd hNoLoss.1 (by decide)

end EasyUds.Reactor.Wakeup

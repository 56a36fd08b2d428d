import EasyUds.Reactor.ContinuationOrder

/-! # The order of serialized admissions

`enqueue_serialized_job` is called by the reactor, right when a request is complete, and by a worker that has
read a request under the lease, after it has given the descriptor back. The machine of `Continuation` is run
with the list of these calls. What a request resolves to when its route is looked up is `resolve`, by the place
of its frame among the decoded ones: a serialization domain, or none for a regular route.
-/

namespace EasyUds.Reactor.AdmissionOrder

open Lib Protocol.Codec Reactor.Continuation
open Reactor.ParserDecode (Frame run_cut)
open Reactor.Parser hiding Options

def isRequest : Event → Bool
  | .request .. => true
  | _ => false

abbrev Resolve := Nat → Option Nat

def Due (resolve : Resolve) (decoded : List Event) (i domain : Nat) : Prop :=
  decoded[i]?.any isRequest = true ∧ resolve i = some domain

instance (resolve : Resolve) (decoded : List Event) (i domain : Nat) : Decidable (Due resolve decoded i domain) :=
  inferInstanceAs (Decidable (_ ∧ _))

def newRequests (before after : List Event) : List Nat :=
  (List.range' before.length (after.length - before.length)).filter fun i => after[i]?.any isRequest

structure State where
  base : Continuation.State
  /-- The place of the frame that a worker has read last. -/
  held : Nat → Nat
  /-- The calls of `enqueue_serialized_job`. -/
  admissions : List Nat

def agrees (resolve : Resolve) (i : Nat) : Handling → Bool
  | .regular => (resolve i).isNone
  | .serialized => (resolve i).isSome
  | .refused => true

def passed (resolve : Resolve) (s : State) (handling : Handling) (next : Continuation.State) : Option State :=
  let requests := newRequests s.base.decoded next.decoded
  if requests.all fun i => agrees resolve i handling then
    some { s with base := next, admissions := s.admissions ++ requests.filter fun i => (resolve i).isSome }
  else none

def worked (resolve : Resolve) (s : State) (index : Nat) (serialized : Bool) (next : Continuation.State) :
    Option State :=
  if s.base.workers[index]? = some (.serving true) then
    if serialized ∧ resolve (s.held index) = none then none
    else some { s with base := next, admissions := s.admissions ++ [s.held index].filter fun i => (resolve i).isSome }
  else if next.decoded.length > s.base.decoded.length then
    some { s with base := next, held := Function.update s.held index s.base.decoded.length }
  else some { s with base := next }

def step (opts : Options) (resolve : Resolve) (s : State) (action : Action) : Option State := do
  let next ← Continuation.step opts s.base action
  match action with
  | .pass handling _ _ => passed resolve s handling next
  | .worker index _ serialized _ => worked resolve s index serialized next
  | _ => some { s with base := next }

def machine (opts : Options) (stream : List UInt8) (resolve : Resolve) : Machine State Action where
  initial s := (∃ workers, s.base = connected stream workers) ∧ s.admissions = []
  step := step opts resolve

inductive Status
  | resting
  | working
  | serving
  | reading
  | read
  | counted
  deriving DecidableEq, Repr

def status : Worker → Status
  | .waiting | .completed _ | .testing _ | .locking => .resting
  | .serving false | .completing => .working
  | .serving true => .serving
  | .loop | .awaiting | .header _ | .route .. | .body .. => .reading
  | .accounting _ => .read
  | .rearm .leave _ | .rearmRunning .leave _ | .rearmLocked .leave _ => .reading
  | .rearm .serve _ | .rearmRunning .serve _ | .rearmLocked .serve _ => .counted

def Status.leased : Status → Bool
  | .reading | .read | .counted => true
  | _ => false

def Status.work : Status → Nat
  | .working | .serving | .counted => 1
  | _ => 0

def Status.carries : Status → Bool
  | .serving | .read | .counted => true
  | _ => false

def Status.engaged (status : Status) : Bool := status.leased || status.carries

inductive Move (s t : Continuation.State) : Status → Status → Prop
  | kept {status : Status} : t.pendingJobs = s.pendingJobs → t.activeRegular = s.activeRegular →
      t.workerOwned = s.workerOwned → t.decoded = s.decoded → Move s t status status
  | take : s.pendingJobs = t.pendingJobs + 1 → t.activeRegular = s.activeRegular → t.workerOwned = s.workerOwned →
      t.decoded = s.decoded → Move s t .resting .working
  | served : t.pendingJobs = s.pendingJobs → t.activeRegular = s.activeRegular → t.workerOwned = s.workerOwned →
      t.decoded = s.decoded → Move s t .serving .working
  | complete : t.pendingJobs = s.pendingJobs → t.activeRegular = s.activeRegular - 1 →
      t.workerOwned = s.workerOwned → t.decoded = s.decoded → Move s t .working .resting
  | acquire : leaseGranted s = true → t.pendingJobs = s.pendingJobs → t.activeRegular = s.activeRegular →
      t.workerOwned = true → t.decoded = s.decoded → Move s t .resting .reading
  | cancelled (requestId : UInt32) : t.pendingJobs = s.pendingJobs → t.activeRegular = s.activeRegular →
      t.workerOwned = s.workerOwned → t.decoded = s.decoded ++ [.cancel requestId] → Move s t .reading .reading
  | read (event : Event) : isRequest event = true → t.pendingJobs = s.pendingJobs →
      t.activeRegular = s.activeRegular → t.workerOwned = s.workerOwned → t.decoded = s.decoded ++ [event] →
      Move s t .reading .read
  | account : t.pendingJobs = s.pendingJobs → t.activeRegular = s.activeRegular + 1 → t.workerOwned = s.workerOwned →
      t.decoded = s.decoded → Move s t .read .counted
  | giveBack (afterwards : Afterwards) : t.pendingJobs = s.pendingJobs → t.activeRegular = s.activeRegular →
      t.workerOwned = s.workerOwned ∨ t.workerOwned = false → t.decoded = s.decoded →
      Move s t (status (.rearm afterwards [])) (status (afterRearm afterwards))

variable {rc : ReactorConnection} {events : List Event} {socket stream : List UInt8} {handling : Handling}

section Moves

variable {opts : Options} {s t : Continuation.State} {index : Nat} {old : Worker}

def Moved (s t : Continuation.State) (index : Nat) (old : Worker) : Prop :=
  ∃ new, t.workers = s.workers.set index new ∧ t.reactor = s.reactor ∧ t.reactorBusy = s.reactorBusy ∧
    Move s t (status old) (status new)

theorem Moved.kept (new : Worker) (hStatus : status new = status old) {pendingSerialized : Nat} :
    Moved s (setWorker { s with rc, socket, pendingSerialized } index new) index old := by
  refine ⟨new, rfl, rfl, rfl, ?_⟩
  rw [hStatus]
  exact .kept rfl rfl rfl rfl

theorem continueDecoded_moved (header : HeaderBytes) {bytes left : List UInt8} :
    Moved s (continueDecoded opts { s with socket := left } index header) index (.header bytes) := by
  unfold continueDecoded
  cases decodeHeader header with
  | error error => exact .kept (.rearm .leave []) (by rfl)
  | ok decoded =>
    dsimp only
    split
    · exact .kept (.rearm .leave []) (by rfl)
    · rename_i requestId _
      exact ⟨.loop, rfl, rfl, rfl, .cancelled requestId rfl rfl rfl rfl⟩
    · exact .kept (.rearm .leave header) (by rfl)
    · exact .kept (.route header decoded []) (by rfl)

theorem requestRead_moved (hStatus : status old = .reading) {decoded : DecodedHeader} {route body left : List UInt8} :
    Moved s (requestRead { s with socket := left } index decoded route body) index old := by
  refine ⟨.accounting decoded.requestId, rfl, rfl, rfl, ?_⟩
  rw [hStatus]
  exact .read _ rfl rfl rfl rfl rfl

theorem afterRearm_moved {afterwards : Afterwards} (hStatus : status old = status (.rearm afterwards []))
    {workerOwned : Bool} (hOwned : workerOwned = s.workerOwned ∨ workerOwned = false) :
    Moved s (setWorker { s with rc, workerOwned } index (afterRearm afterwards)) index old := by
  refine ⟨afterRearm afterwards, rfl, rfl, rfl, ?_⟩
  rw [hStatus]
  exact .giveBack afterwards rfl rfl hOwned rfl

theorem workerStep_moved {count : Nat} {serialized graceOver : Bool}
    (hStep : workerStep opts s index count serialized graceOver old = some t) : Moved s t index old := by
  unfold workerStep at hStep
  cases old with
  | waiting =>
    dsimp only at hStep
    split at hStep <;> cases hStep
    rename_i hJobs
    exact ⟨.serving false, rfl, rfl, rfl, .take (Nat.succ_pred_eq_of_ne_zero hJobs).symm rfl rfl rfl⟩
  | serving continued =>
    have hServed : ∀ {pendingSerialized : Nat}, Moved s (setWorker { s with pendingSerialized } index .completing) index
        (.serving continued) := by
      intro pendingSerialized
      cases continued with
      | false => exact .kept .completing (by rfl)
      | true => exact ⟨.completing, rfl, rfl, rfl, .served rfl rfl rfl rfl⟩
    dsimp only at hStep
    split at hStep <;> cases hStep <;> exact hServed
  | completing =>
    cases hStep
    exact ⟨.completed s.activeRegular, rfl, rfl, rfl, .complete rfl rfl rfl rfl⟩
  | completed previous =>
    dsimp only at hStep
    split at hStep <;> cases hStep
    · exact .kept .waiting (by rfl)
    · exact .kept (.testing leaseTests) (by rfl)
  | testing tests =>
    cases tests with
    | nil =>
      cases hStep
      exact .kept .locking (by rfl)
    | cons test rest =>
      dsimp only at hStep
      split at hStep <;> cases hStep
      · exact .kept (.testing rest) (by rfl)
      · exact .kept .waiting (by rfl)
  | locking =>
    dsimp only at hStep
    split at hStep <;> cases hStep
    · rename_i hGranted
      exact ⟨.loop, rfl, rfl, rfl, .acquire hGranted rfl rfl rfl rfl⟩
    · exact .kept .waiting (by rfl)
  | loop =>
    dsimp only at hStep
    split at hStep
    · cases hStep
      exact .kept (.rearm .leave []) (by rfl)
    · split at hStep <;> cases hStep
      · exact .kept (.rearm .leave []) (by rfl)
      · exact .kept .awaiting (by rfl)
  | awaiting =>
    dsimp only at hStep
    split at hStep
    · cases hStep
      exact .kept (.rearm .leave []) (by rfl)
    · split at hStep <;> cases hStep
      exact .kept (.header []) (by rfl)
  | header bytes =>
    obtain ⟨⟨next, data⟩, hReceive, hStep⟩ := Option.bind_eq_some_iff.mp hStep
    obtain ⟨left, -, rfl, -, -⟩ := ContinuationOrder.receiveExact_spec hReceive
    dsimp only at hStep
    split at hStep <;> cases hStep
    · exact continueDecoded_moved _
    · exact .kept (.header (bytes ++ data)) (by rfl)
  | route header decoded bytes =>
    obtain ⟨⟨next, data⟩, hReceive, hStep⟩ := Option.bind_eq_some_iff.mp hStep
    obtain ⟨left, -, rfl, -, -⟩ := ContinuationOrder.receiveExact_spec hReceive
    dsimp only at hStep
    split at hStep
    · split at hStep <;> cases hStep
      · exact requestRead_moved (by rfl)
      · exact .kept (.body header decoded (bytes ++ data) []) (by rfl)
    · cases hStep
      exact .kept (.route header decoded (bytes ++ data)) (by rfl)
  | body header decoded route bytes =>
    obtain ⟨⟨next, data⟩, hReceive, hStep⟩ := Option.bind_eq_some_iff.mp hStep
    obtain ⟨left, -, rfl, -, -⟩ := ContinuationOrder.receiveExact_spec hReceive
    dsimp only at hStep
    split at hStep <;> cases hStep
    · exact requestRead_moved (by rfl)
    · exact .kept (.body header decoded route (bytes ++ data)) (by rfl)
  | accounting requestId =>
    cases hStep
    exact ⟨.rearm .serve [], rfl, rfl, rfl, .account rfl rfl rfl rfl⟩
  | rearm afterwards buffered =>
    have hStatus : status (.rearm afterwards buffered) = status (.rearm afterwards []) := by cases afterwards <;> rfl
    dsimp only at hStep
    split at hStep <;> cases hStep
    · exact afterRearm_moved hStatus (.inl rfl)
    · exact .kept (.rearmRunning afterwards buffered) (by cases afterwards <;> rfl)
  | rearmRunning afterwards buffered =>
    dsimp only at hStep
    split at hStep <;> cases hStep
    · exact .kept (.rearmLocked afterwards buffered) (by cases afterwards <;> rfl)
    · exact afterRearm_moved (by cases afterwards <;> rfl) (.inl rfl)
  | rearmLocked afterwards buffered =>
    cases hStep
    exact afterRearm_moved (by cases afterwards <;> rfl) (.inr rfl)

end Moves

def Excluded (s : Continuation.State) : Prop := s.reactor ≠ .waiting → s.reactorBusy = true ∧ s.workerOwned = false

structure Undisturbed (s t : Continuation.State) : Prop where
  workers : t.workers = s.workers
  owned : t.workerOwned = s.workerOwned
  jobs : ∃ added, t.activeRegular = s.activeRegular + added ∧ t.pendingJobs = s.pendingJobs + added
  excluded : Excluded s → Excluded t

section Reactor

variable {opts : Options} {s t : Continuation.State}

theorem Undisturbed.same {reactor : ReactorStep} {reactorBusy running : Bool} {resumed pendingSerialized : Nat}
    (hBusy : Excluded s → reactor ≠ .waiting → reactorBusy = true ∧ s.workerOwned = false) :
    Undisturbed s { s with rc, socket, reactor, reactorBusy, running, resumed, pendingSerialized } :=
  ⟨rfl, rfl, ⟨0, rfl, rfl⟩, hBusy⟩

theorem dispatch_undisturbed (handling : Handling) (event : Event) : Undisturbed s (dispatch s handling event) ∧
    (dispatch s handling event).decoded = s.decoded := by
  have hSame : Undisturbed s s := ⟨rfl, rfl, ⟨0, rfl, rfl⟩, id⟩
  cases event with
  | cancel | stream => exact ⟨hSame, rfl⟩
  | request =>
    cases handling with
    | regular => exact ⟨⟨rfl, rfl, ⟨1, rfl, rfl⟩, id⟩, rfl⟩
    | serialized => exact ⟨⟨rfl, rfl, ⟨0, rfl, rfl⟩, id⟩, rfl⟩
    | refused => exact ⟨hSame, rfl⟩

theorem Undisturbed.trans {r : Continuation.State} (h : Undisturbed s t) (hNext : Undisturbed t r) :
    Undisturbed s r := by
  obtain ⟨added, hActive, hJobs⟩ := h.jobs
  obtain ⟨more, hMoreActive, hMoreJobs⟩ := hNext.jobs
  refine ⟨hNext.workers.trans h.workers, hNext.owned.trans h.owned, ⟨added + more, ?_, ?_⟩, hNext.excluded ∘ h.excluded⟩
  · rw [hMoreActive, hActive, Nat.add_assoc]
  · rw [hMoreJobs, hJobs, Nat.add_assoc]

theorem handOver_undisturbed (handling : Handling) (events : List Event) :
    Undisturbed s (handOver s handling events) ∧ (handOver s handling events).decoded = s.decoded ++ events := by
  have hFold : ∀ (events : List Event) (t : Continuation.State), Undisturbed s t →
      Undisturbed s (events.foldl (fun s event => dispatch s handling event) t) ∧
        (events.foldl (fun s event => dispatch s handling event) t).decoded = t.decoded := by
    intro events
    induction events with
    | nil => exact fun t h => ⟨h, rfl⟩
    | cons event rest ih =>
      intro t h
      obtain ⟨hEvent, hDecoded⟩ := @dispatch_undisturbed t handling event
      obtain ⟨hRest, hRestDecoded⟩ := ih _ (h.trans hEvent)
      exact ⟨hRest, hRestDecoded.trans hDecoded⟩
  exact hFold events _ ⟨rfl, rfl, ⟨0, rfl, rfl⟩, id⟩

def passEvents : Pass → List Event
  | .again _ events | .stop _ events => events
  | .threw .. => []

theorem dispatchRequest_events (answer : Answer) (rc : ReactorConnection) :
    (passEvents (dispatchRequest answer rc)).length ≤ 1 := by
  unfold dispatchRequest
  dsimp only
  split
  · exact Nat.zero_le _
  · exact Nat.le_refl _
  · exact Nat.le_refl _

theorem started_events (started : ReactorConnection × Bool) :
    (passEvents (if started.2 then .again started.1 [] else .stop started.1 [])).length ≤ 1 := by
  split <;> exact Nat.zero_le _

theorem wholeHeader_events (opts : Parser.Options) (answer : Answer) (rc : ReactorConnection) :
    (passEvents (wholeHeader opts answer rc)).length ≤ 1 := by
  unfold wholeHeader
  dsimp only
  split
  · exact Nat.zero_le _
  · split
    · exact Nat.zero_le _
    · exact Nat.le_refl _
    · exact started_events ..
    · exact started_events ..

theorem parsePass_events (opts : Parser.Options) (answer : Answer) (rc : ReactorConnection) :
    (passEvents (parsePass opts answer rc)).length ≤ 1 := by
  unfold parsePass
  split
  · unfold headerPass
    dsimp only
    split
    · exact Nat.zero_le _
    · exact wholeHeader_events ..
  · unfold payloadPass
    dsimp only
    split
    · exact dispatchRequest_events ..
    · exact Nat.zero_le _
  · unfold streamPass dispatchStream
    dsimp only
    split
    · split <;> exact Nat.le_refl _
    · exact Nat.zero_le _

theorem pass_undisturbed {paused reserved : Bool} (hStep : reactorPass opts s handling paused reserved = some t) :
    Undisturbed s t ∧ s.reactor ≠ .waiting ∧ ∃ events, events.length ≤ 1 ∧ t.decoded = s.decoded ++ events := by
  unfold reactorPass at hStep
  split at hStep
  · rename_i hReactor
    have hParsing : s.reactor ≠ .waiting := by rw [hReactor]; nofun
    have hBusy : ∀ {rc : ReactorConnection} {reactor : ReactorStep}, Undisturbed s { s with rc, reactor } :=
      .same fun hExcluded _ => hExcluded hParsing
    have hOne := parsePass_events opts.toOptions (passAnswer paused reserved) s.rc
    split at hStep <;> cases hStep <;> rename_i hPass <;> rw [hPass] at hOne
    · obtain ⟨hOver, hDecoded⟩ := @handOver_undisturbed { s with rc := _ } handling _
      exact ⟨hBusy.trans hOver, hParsing, _, hOne, hDecoded⟩
    · obtain ⟨hOver, hDecoded⟩ := @handOver_undisturbed { s with rc := _, reactor := .leaving } handling _
      exact ⟨hBusy.trans hOver, hParsing, _, hOne, hDecoded⟩
    · exact ⟨hBusy, hParsing, [], hOne, (List.append_nil _).symm⟩
  · cases hStep

/-- Whether the action can complete a frame or admit a request. -/
def admits : Action → Bool
  | .pass .. | .worker .. => true
  | _ => false

theorem other_undisturbed {action : Action} (hOther : admits action = false)
    (hStep : Continuation.step opts s action = some t) : Undisturbed s t ∧ t.decoded = s.decoded := by
  unfold Continuation.step at hStep
  cases action with
  | pass | worker => cases hOther
  | event readable reserved =>
    dsimp only [reactorEvent] at hStep
    split at hStep
    · cases hStep
    · rename_i hOpen
      push Not at hOpen
      have hFree : s.workerOwned = false := Bool.eq_false_iff.mpr hOpen.2.2.2
      split at hStep <;> cases hStep <;> exact ⟨.same fun _ _ => ⟨rfl, hFree⟩, rfl⟩
  | resumed reserved =>
    dsimp only [processResumed] at hStep
    split at hStep
    · cases hStep
    · split at hStep <;> cases hStep
      · exact ⟨.same id, rfl⟩
      · rename_i hOpen
        push Not at hOpen
        have hFree : s.workerOwned = false := Bool.eq_false_iff.mpr hOpen.2.2.2.2
        exact ⟨.same fun _ _ => ⟨rfl, hFree⟩, rfl⟩
  | receive receive =>
    dsimp only [reactorReceive] at hStep
    split at hStep
    · split at hStep
      · rename_i hReactor
        have hReading : s.reactor ≠ .waiting := by rw [hReactor]; nofun
        split at hStep <;> cases hStep <;> exact ⟨.same fun hExcluded _ => hExcluded hReading, rfl⟩
      · cases hStep
    · cases hStep
  | leave =>
    dsimp only [reactorLeave] at hStep
    split at hStep
    · split at hStep <;> cases hStep <;> exact ⟨.same fun _ hReactor => absurd rfl hReactor, rfl⟩
    · cases hStep
  | resume | serializedDone | exchanged =>
    dsimp only at hStep
    split at hStep <;> cases hStep
    exact ⟨.same id, rfl⟩
  | stop =>
    cases hStep
    exact ⟨.same id, rfl⟩

end Reactor

structure Engagement (s : Continuation.State) : Prop where
  excluded : Excluded s
  owned : ∀ (i : Nat) (w : Worker), s.workers[i]? = some w → (status w).leased = true → s.workerOwned = true
  active : s.activeRegular = s.pendingJobs + (s.workers.map fun w => (status w).work).sum
  alone : ∀ (i j : Nat) (w v : Worker), s.workers[i]? = some w → s.workers[j]? = some v → (status w).engaged = true →
    (status v).engaged = true → i = j

section Engagement

variable {s t : Continuation.State} {index : Nat} {old : Worker}

theorem connected_engagement (stream : List UInt8) (workers : Nat) : Engagement (connected stream workers) := by
  have hWaiting : ∀ (i : Nat) (w : Worker), (connected stream workers).workers[i]? = some w → w = .waiting := by
    intro i w hWorker
    exact List.eq_of_mem_replicate (Pool.mem_of_getElem? hWorker)
  refine ⟨absurd rfl, ?_, ?_, ?_⟩
  · intro i w hWorker hLeased
    rw [hWaiting i w hWorker] at hLeased
    cases hLeased
  · simp [connected, status, Status.work]
  · intro i j w v hWorker _ hEngaged
    rw [hWaiting i w hWorker] at hEngaged
    cases hEngaged

theorem Engagement.undisturbed (h : Engagement s) (hStep : Undisturbed s t) : Engagement t := by
  obtain ⟨hWorkers, hOwned, ⟨added, hActive, hJobs⟩, hExcluded⟩ := hStep
  refine ⟨hExcluded h.excluded, ?_, ?_, ?_⟩
  · rw [hWorkers, hOwned]
    exact h.owned
  · rw [hWorkers, hActive, hJobs, h.active]
    omega
  · rw [hWorkers]
    exact h.alone

theorem Engagement.free_of_granted (h : Engagement s) (hGranted : leaseGranted s = true) :
    s.reactorBusy = false ∧ ∀ (i : Nat) (w : Worker), s.workers[i]? = some w → (status w).engaged = false := by
  simp only [leaseGranted, Bool.and_eq_true, Bool.not_eq_true', beq_iff_eq] at hGranted
  obtain ⟨⟨⟨⟨⟨⟨⟨⟨hIdle, -⟩, -⟩, -⟩, -⟩, hFree⟩, -⟩, hActive⟩, -⟩ := hGranted
  refine ⟨hIdle, ?_⟩
  intro i w hWorker
  have hNotLeased : (status w).leased = false := by
    by_contra hLeased
    rw [h.owned i w hWorker (by simpa using hLeased)] at hFree
    cases hFree
  have hNoWork : (status w).work = 0 := by
    have hSum := h.active
    rw [hActive] at hSum
    have hZero : (s.workers.map fun w => (status w).work).sum = 0 := by omega
    exact List.sum_eq_zero_iff_forall_eq_nat.mp hZero _ (List.mem_map_of_mem (Pool.mem_of_getElem? hWorker))
  cases hStatus : status w with
  | resting | working => rfl
  | serving => rw [hStatus] at hNoWork; cases hNoWork
  | reading | read | counted => rw [hStatus] at hNotLeased; cases hNotLeased

theorem Move.excluded {a b : Status} (hMove : Move s t a b) (h : Engagement s) (hReactor : t.reactor = s.reactor)
    (hBusy : t.reactorBusy = s.reactorBusy) : Excluded t := by
  intro hWorking
  rw [hReactor] at hWorking
  obtain ⟨hReactorBusy, hFree⟩ := h.excluded hWorking
  refine ⟨hBusy.trans hReactorBusy, ?_⟩
  cases hMove with
  | acquire hGranted =>
    rw [(h.free_of_granted hGranted).1] at hReactorBusy
    cases hReactorBusy
  | giveBack _ _ _ hOwned =>
    obtain hOwned | hOwned := hOwned
    · exact hOwned.trans hFree
    · exact hOwned
  | kept _ _ hOwned | take _ _ hOwned | served _ _ hOwned | complete _ _ hOwned | cancelled _ _ _ hOwned
  | read _ _ _ _ hOwned | account _ _ hOwned => exact hOwned.trans hFree

theorem Move.active {a b : Status} {others : Nat} (hMove : Move s t a b)
    (h : s.activeRegular = s.pendingJobs + (others + a.work)) :
    t.activeRegular = t.pendingJobs + (others + b.work) := by
  cases hMove with
  | giveBack afterwards => cases afterwards <;> simp_all [status, afterRearm, Status.work]
  | _ => simp_all [Status.work] <;> omega

theorem Move.engaged {a b : Status} (hMove : Move s t a b) (hEngaged : b.engaged = true) :
    a.engaged = true ∨ leaseGranted s = true := by
  cases hMove with
  | acquire hGranted => exact .inr hGranted
  | giveBack afterwards =>
    cases afterwards with
    | serve => exact .inl rfl
    | leave => cases hEngaged
  | kept => exact .inl hEngaged
  | cancelled | read | account => exact .inl rfl
  | take | served | complete => cases hEngaged

theorem Move.owned_of_leased {a b : Status} (hMove : Move s t a b) (hLeased : b.leased = true)
    (hOwned : a.leased = true → s.workerOwned = true) : t.workerOwned = true := by
  cases hMove with
  | acquire _ _ _ hTaken => exact hTaken
  | giveBack afterwards => cases afterwards <;> cases hLeased
  | kept _ _ hSame => exact hSame.trans (hOwned hLeased)
  | cancelled _ _ _ hSame | read _ _ _ _ hSame | account _ _ hSame => exact hSame.trans (hOwned rfl)
  | take | served | complete => cases hLeased

theorem Move.owned_by_other {a b : Status} (hMove : Move s t a b) (hOwned : s.workerOwned = true)
    (hNotLeased : a.leased = false) : t.workerOwned = true := by
  cases hMove with
  | acquire _ _ _ hTaken => exact hTaken
  | giveBack afterwards => cases afterwards <;> cases hNotLeased
  | kept _ _ hSame | take _ _ hSame | served _ _ hSame | complete _ _ hSame => exact hSame.trans hOwned
  | cancelled | read | account => cases hNotLeased

theorem Status.engaged_of_leased {status : Status} (h : status.leased = true) : status.engaged = true := by
  rw [engaged, h, Bool.true_or]

theorem Status.engaged_of_carries {status : Status} (h : status.carries = true) : status.engaged = true := by
  rw [engaged, h, Bool.or_true]

theorem eq_of_serving {w : Worker} (h : status w = .serving) : w = .serving true := by
  cases w with
  | serving continued =>
    cases continued with
    | true => rfl
    | false => cases h
  | rearm afterwards | rearmRunning afterwards | rearmLocked afterwards => cases afterwards <;> cases h
  | _ => cases h

theorem Engagement.serving_of_carries (h : Engagement s) (hReactor : s.reactor ≠ .waiting) {i : Nat} {w : Worker}
    (hWorker : s.workers[i]? = some w) (hCarries : (status w).carries = true) : w = .serving true := by
  have hFree := (h.excluded hReactor).2
  have hNotLeased : (status w).leased = false := by
    by_contra hLeased
    rw [h.owned i w hWorker (by simpa using hLeased)] at hFree
    cases hFree
  apply eq_of_serving
  cases hStatus : status w with
  | serving => rfl
  | resting | working => rw [hStatus] at hCarries; cases hCarries
  | reading | read | counted => rw [hStatus] at hNotLeased; cases hNotLeased

theorem Engagement.moved (h : Engagement s) (hOld : s.workers[index]? = some old) (hStep : Moved s t index old) :
    Engagement t := by
  obtain ⟨new, hWorkers, hReactor, hBusy, hMove⟩ := hStep
  refine ⟨hMove.excluded h hReactor hBusy, ?_, ?_, ?_⟩
  · intro i w hWorker hLeased
    rw [hWorkers] at hWorker
    obtain ⟨-, rfl⟩ | ⟨hOther, hWorker⟩ := Pool.get_set_cases hOld hWorker
    · exact hMove.owned_of_leased hLeased (h.owned index old hOld)
    · apply hMove.owned_by_other (h.owned i w hWorker hLeased)
      by_contra hAlso
      exact hOther (h.alone i index w old hWorker hOld (Status.engaged_of_leased hLeased)
        (Status.engaged_of_leased (by simpa using hAlso)))
  · obtain ⟨others, hBefore, hAfter⟩ := Pool.sum_set hOld new fun w => (status w).work
    rw [hWorkers, hAfter]
    apply hMove.active
    rw [← hBefore]
    exact h.active
  · -- A newly engaged worker has taken the lease, and then it is the only one.
    have hNew : ∀ (i : Nat) (w : Worker), i ≠ index → s.workers[i]? = some w → (status new).engaged = true →
        (status w).engaged = true → False := by
      intro i w hOther hWorker hEngaged hAlso
      obtain hEngaged | hGranted := hMove.engaged hEngaged
      · exact hOther (h.alone i index w old hWorker hOld hAlso hEngaged)
      · rw [(h.free_of_granted hGranted).2 i w hWorker] at hAlso
        cases hAlso
    intro i j w v hi hj hEngaged hAlso
    rw [hWorkers] at hi hj
    obtain ⟨hIsI, hIsNew⟩ | ⟨hNotI, hw⟩ := Pool.get_set_cases hOld hi
    · obtain ⟨hIsJ, -⟩ | ⟨hNotJ, hv⟩ := Pool.get_set_cases hOld hj
      · rw [hIsI, hIsJ]
      · rw [hIsNew] at hEngaged
        exact (hNew j v hNotJ hv hEngaged hAlso).elim
    · obtain ⟨-, hIsNew⟩ | ⟨-, hv⟩ := Pool.get_set_cases hOld hj
      · rw [hIsNew] at hAlso
        exact (hNew i w hNotI hw hAlso hEngaged).elim
      · exact h.alone i j w v hw hv hEngaged hAlso

end Engagement

section Due

variable {resolve : Resolve} {decoded : List Event} {i domain : Nat}

theorem Due.lt (h : Due resolve decoded i domain) : i < decoded.length := by
  by_contra hBeyond
  have hRequest := h.1
  rw [List.getElem?_eq_none (Nat.le_of_not_lt hBeyond)] at hRequest
  cases hRequest

theorem Due.append (h : Due resolve decoded i domain) (events : List Event) :
    Due resolve (decoded ++ events) i domain := by
  refine ⟨?_, h.2⟩
  rw [List.getElem?_append_left h.lt]
  exact h.1

theorem Due.of_append (h : Due resolve (decoded ++ events) i domain) (hOld : i < decoded.length) :
    Due resolve decoded i domain := by
  refine ⟨?_, h.2⟩
  rw [← List.getElem?_append_left hOld]
  exact h.1

theorem due_cancel {requestId : UInt32} :
    Due resolve (decoded ++ [.cancel requestId]) i domain ↔ Due resolve decoded i domain := by
  refine ⟨fun h => h.of_append ?_, fun h => h.append _⟩
  have hLength := h.lt
  rw [List.length_append, List.length_singleton] at hLength
  by_contra hNew
  obtain rfl : i = decoded.length := by omega
  have hRequest := h.1
  rw [List.getElem?_append_right (Nat.le_refl _), Nat.sub_self] at hRequest
  cases hRequest

theorem due_request {event : Event} (hRequest : isRequest event = true)
    (hDomain : resolve decoded.length = some domain) : Due resolve (decoded ++ [event]) decoded.length domain := by
  refine ⟨?_, hDomain⟩
  rw [List.getElem?_append_right (Nat.le_refl _), Nat.sub_self]
  exact hRequest

theorem mem_enqueued :
    i ∈ (newRequests decoded (decoded ++ events)).filter (fun i => (resolve i).isSome) ↔
      decoded.length ≤ i ∧ ∃ domain, Due resolve (decoded ++ events) i domain := by
  rw [newRequests, List.mem_filter, List.mem_filter, List.mem_range'_1, List.length_append, Nat.add_sub_cancel_left]
  constructor
  · rintro ⟨⟨⟨hNew, -⟩, hRequest⟩, hSome⟩
    obtain ⟨domain, hDomain⟩ := Option.isSome_iff_exists.mp hSome
    exact ⟨hNew, domain, hRequest, hDomain⟩
  · rintro ⟨hNew, domain, hDue⟩
    have hLength := hDue.lt
    rw [List.length_append] at hLength
    exact ⟨⟨⟨hNew, hLength⟩, hDue.1⟩, by rw [hDue.2]; rfl⟩

end Due

def Carrier (s : Continuation.State) (j : Nat) : Prop := ∃ w, s.workers[j]? = some w ∧ (status w).carries = true

structure Ordered (resolve : Resolve) (s : State) : Prop where
  engagement : Engagement s.base
  admitted : ∀ i ∈ s.admissions, ∃ domain, Due resolve s.base.decoded i domain
  sorted : s.admissions.Pairwise fun i j => resolve i = resolve j → i < j
  complete : ∀ i domain, Due resolve s.base.decoded i domain →
    i ∈ s.admissions ∨ ∃ j, Carrier s.base j ∧ s.held j = i
  latest : ∀ j, Carrier s.base j → ∀ domain, resolve (s.held j) = some domain →
    s.held j ∉ s.admissions ∧ Due resolve s.base.decoded (s.held j) domain ∧
      ∀ i, Due resolve s.base.decoded i domain → i ≤ s.held j

section Ordered

variable {opts : Options} {resolve : Resolve} {s t : State}
variable {next : Continuation.State} {index : Nat}

theorem Ordered.same (h : Ordered resolve s) (hEngagement : Engagement t.base)
    (hAdmissions : t.admissions = s.admissions)
    (hDue : ∀ i domain, Due resolve t.base.decoded i domain ↔ Due resolve s.base.decoded i domain)
    (hCarrier : ∀ j, Carrier t.base j ↔ Carrier s.base j) (hHeld : ∀ j, Carrier s.base j → t.held j = s.held j) :
    Ordered resolve t := by
  refine ⟨hEngagement, ?_, ?_, ?_, ?_⟩
  · rw [hAdmissions]
    intro i hi
    obtain ⟨domain, hDomain⟩ := h.admitted i hi
    exact ⟨domain, (hDue i domain).mpr hDomain⟩
  · rw [hAdmissions]
    exact h.sorted
  · intro i domain hDomain
    rw [hAdmissions]
    obtain hDone | ⟨j, hj, hPlace⟩ := h.complete i domain ((hDue i domain).mp hDomain)
    · exact .inl hDone
    · exact .inr ⟨j, (hCarrier j).mpr hj, (hHeld j hj).trans hPlace⟩
  · intro j hj domain hDomain
    have hOld := (hCarrier j).mp hj
    rw [hHeld j hOld] at hDomain ⊢
    obtain ⟨hNew, hHere, hLatest⟩ := h.latest j hOld domain hDomain
    rw [hAdmissions]
    exact ⟨hNew, (hDue _ domain).mpr hHere, fun i hi => hLatest i ((hDue i domain).mp hi)⟩

theorem Ordered.passed (h : Ordered resolve s) (hEngagement : Engagement next)
    (hWorkers : next.workers = s.base.workers) (hDecoded : next.decoded = s.base.decoded ++ events)
    (hGuard : ∀ j, Carrier s.base j → ∀ i ∈ newRequests s.base.decoded next.decoded, (resolve i).isSome = true →
      resolve (s.held j) ≠ resolve i) :
    Ordered resolve { s with
      base := next
      admissions := s.admissions ++ (newRequests s.base.decoded next.decoded).filter fun i => (resolve i).isSome } := by
  have hCarrier : ∀ j, Carrier next j ↔ Carrier s.base j := by
    intro j
    rw [Carrier, hWorkers]
    rfl
  rw [hDecoded] at hGuard ⊢
  have hOld : ∀ i ∈ s.admissions, i < s.base.decoded.length := by
    intro i hi
    obtain ⟨domain, hDue⟩ := h.admitted i hi
    exact hDue.lt
  refine ⟨hEngagement, ?_, ?_, ?_, ?_⟩
  · intro i hi
    dsimp only
    rw [hDecoded]
    obtain hi | hi := List.mem_append.mp hi
    · obtain ⟨domain, hDue⟩ := h.admitted i hi
      exact ⟨domain, hDue.append events⟩
    · exact (mem_enqueued.mp hi).2
  · rw [List.pairwise_append]
    refine ⟨h.sorted, ?_, ?_⟩
    · have hAscending : (newRequests s.base.decoded (s.base.decoded ++ events)).Pairwise (· < ·) :=
        List.Pairwise.filter _ List.pairwise_lt_range'
      refine List.Pairwise.imp ?_ (hAscending.filter _)
      exact fun hLess _ => hLess
    · intro i hi j hj _
      exact Nat.lt_of_lt_of_le (hOld i hi) (mem_enqueued.mp hj).1
  · intro i domain hDue
    dsimp only at hDue ⊢
    rw [hDecoded] at hDue
    by_cases hPlace : i < s.base.decoded.length
    · obtain hDone | ⟨j, hj, hHeld⟩ := h.complete i domain (hDue.of_append hPlace)
      · exact .inl (List.mem_append_left _ hDone)
      · exact .inr ⟨j, (hCarrier j).mpr hj, hHeld⟩
    · exact .inl (List.mem_append_right _ (mem_enqueued.mpr ⟨Nat.le_of_not_lt hPlace, domain, hDue⟩))
  · intro j hj domain hDomain
    dsimp only at hDomain ⊢
    obtain ⟨hNew, hHere, hLatest⟩ := h.latest j ((hCarrier j).mp hj) domain hDomain
    rw [hDecoded]
    refine ⟨?_, hHere.append events, ?_⟩
    · intro hAdmitted
      obtain hAdmitted | hAdmitted := List.mem_append.mp hAdmitted
      · exact hNew hAdmitted
      · exact absurd hHere.lt (Nat.not_lt.mpr (mem_enqueued.mp hAdmitted).1)
    · intro i hDue
      by_cases hPlace : i < s.base.decoded.length
      · exact hLatest i (hDue.of_append hPlace)
      · -- A new request of the domain would overtake the one that is held.
        have hEnqueued := List.mem_filter.mp (mem_enqueued.mpr ⟨Nat.le_of_not_lt hPlace, domain, hDue⟩)
        exact absurd (hDomain.trans hDue.2.symm) (hGuard j ((hCarrier j).mp hj) i hEnqueued.1 hEnqueued.2)

theorem carrier_set {old new : Worker} (hOld : s.base.workers[index]? = some old)
    (hWorkers : next.workers = s.base.workers.set index new) (j : Nat) :
    Carrier next j ↔ (j = index ∧ (status new).carries = true) ∨ (j ≠ index ∧ Carrier s.base j) := by
  rw [Carrier, hWorkers]
  constructor
  · rintro ⟨w, hWorker, hCarries⟩
    obtain ⟨hHere, rfl⟩ | ⟨hOther, hWorker⟩ := Pool.get_set_cases hOld hWorker
    · exact .inl ⟨hHere, hCarries⟩
    · exact .inr ⟨hOther, w, hWorker, hCarries⟩
  · rintro (⟨rfl, hCarries⟩ | ⟨hOther, w, hWorker, hCarries⟩)
    · exact ⟨new, Pool.get_set_self hOld new, hCarries⟩
    · exact ⟨w, by rw [List.getElem?_set_ne hOther.symm]; exact hWorker, hCarries⟩

theorem Ordered.admits (h : Ordered resolve s) (hEngagement : Engagement next)
    (hOld : s.base.workers[index]? = some (.serving true)) (new : Worker) (hNew : (status new).carries = false)
    (hWorkers : next.workers = s.base.workers.set index new) (hDecoded : next.decoded = s.base.decoded) :
    Ordered resolve { s with
      base := next
      admissions := s.admissions ++ [s.held index].filter fun i => (resolve i).isSome } := by
  have hCarrier : Carrier s.base index := ⟨.serving true, hOld, rfl⟩
  have hFree : ∀ j, ¬Carrier next j := by
    intro j hj
    obtain ⟨-, hCarries⟩ | ⟨hOther, w, hWorker, hCarries⟩ := (carrier_set hOld hWorkers j).mp hj
    · rw [hNew] at hCarries
      cases hCarries
    · exact hOther (h.engagement.alone j index w _ hWorker hOld (Status.engaged_of_carries hCarries) rfl)
  have hHeld : ∀ i ∈ [s.held index].filter fun i => (resolve i).isSome,
      i = s.held index ∧ ∃ domain, resolve (s.held index) = some domain := by
    intro i hi
    obtain ⟨hPlace, hSome⟩ := List.mem_filter.mp hi
    obtain rfl := List.mem_singleton.mp hPlace
    exact ⟨rfl, Option.isSome_iff_exists.mp hSome⟩
  refine ⟨hEngagement, ?_, ?_, ?_, fun j hj => absurd hj (hFree j)⟩
  · intro i hi
    dsimp only
    rw [hDecoded]
    obtain hi | hi := List.mem_append.mp hi
    · exact h.admitted i hi
    · obtain ⟨rfl, domain, hDomain⟩ := hHeld i hi
      exact ⟨domain, (h.latest index hCarrier domain hDomain).2.1⟩
  · rw [List.pairwise_append]
    refine ⟨h.sorted, (List.pairwise_singleton ..).filter _, ?_⟩
    intro i hi j hj hSame
    obtain ⟨rfl, domain, hDomain⟩ := hHeld j hj
    obtain ⟨hNotYet, -, hLatest⟩ := h.latest index hCarrier domain hDomain
    obtain ⟨other, hDue⟩ := h.admitted i hi
    have hOther : Due resolve s.base.decoded i domain := ⟨hDue.1, hSame.trans hDomain⟩
    exact Nat.lt_of_le_of_ne (hLatest i hOther) fun hEq => hNotYet (hEq ▸ hi)
  · intro i domain hDue
    dsimp only at hDue
    rw [hDecoded] at hDue
    left
    obtain hDone | ⟨j, ⟨w, hWorker, hCarries⟩, hPlace⟩ := h.complete i domain hDue
    · exact List.mem_append_left _ hDone
    · obtain rfl := h.engagement.alone j index w _ hWorker hOld (Status.engaged_of_carries hCarries) rfl
      subst hPlace
      exact List.mem_append_right _ (List.mem_filter.mpr ⟨List.mem_singleton_self _, by rw [hDue.2]; rfl⟩)

theorem Ordered.reads (h : Ordered resolve s) (hEngagement : Engagement next) {old new : Worker}
    (hOld : s.base.workers[index]? = some old) (hReading : status old = .reading) (hNew : status new = .read)
    (hWorkers : next.workers = s.base.workers.set index new) {event : Event} (hRequest : isRequest event = true)
    (hDecoded : next.decoded = s.base.decoded ++ [event]) :
    Ordered resolve { s with base := next, held := Function.update s.held index s.base.decoded.length } := by
  have hEngaged : (status old).engaged = true := by rw [hReading]; rfl
  have hFree : ∀ j, ¬Carrier s.base j := by
    rintro j ⟨w, hWorker, hCarries⟩
    obtain rfl := h.engagement.alone j index w old hWorker hOld (Status.engaged_of_carries hCarries) hEngaged
    obtain rfl : w = old := Option.some.inj (hWorker.symm.trans hOld)
    rw [hReading] at hCarries
    cases hCarries
  have hDone : ∀ i domain, Due resolve s.base.decoded i domain → i ∈ s.admissions := by
    intro i domain hDue
    exact (h.complete i domain hDue).resolve_right fun ⟨j, hj, _⟩ => hFree j hj
  have hCarrier : ∀ j, Carrier next j ↔ j = index := by
    intro j
    rw [carrier_set hOld hWorkers, hNew]
    exact ⟨fun hCases => hCases.elim (·.1) fun hOther => absurd hOther.2 (hFree j), fun hj => .inl ⟨hj, rfl⟩⟩
  refine ⟨hEngagement, ?_, h.sorted, ?_, ?_⟩
  · intro i hi
    dsimp only
    rw [hDecoded]
    obtain ⟨domain, hDue⟩ := h.admitted i hi
    exact ⟨domain, hDue.append _⟩
  · intro i domain hDue
    dsimp only at hDue ⊢
    rw [hDecoded] at hDue
    have hLength := hDue.lt
    rw [List.length_append, List.length_singleton] at hLength
    by_cases hPlace : i < s.base.decoded.length
    · exact .inl (hDone i domain (hDue.of_append hPlace))
    · refine .inr ⟨index, (hCarrier index).mpr rfl, ?_⟩
      rw [Function.update_self]
      omega
  · intro j hj domain hDomain
    obtain rfl := (hCarrier j).mp hj
    dsimp only at hDomain ⊢
    rw [Function.update_self] at hDomain ⊢
    rw [hDecoded]
    refine ⟨?_, due_request hRequest hDomain, ?_⟩
    · intro hAdmitted
      obtain ⟨other, hDue⟩ := h.admitted _ hAdmitted
      exact Nat.lt_irrefl _ hDue.lt
    · intro i hDue
      have hLength := hDue.lt
      rw [List.length_append, List.length_singleton] at hLength
      exact Nat.le_of_lt_succ hLength

theorem Ordered.worked (h : Ordered resolve s) {serialized : Bool} {old : Worker}
    (hOld : s.base.workers[index]? = some old) (hElsewhere : old ≠ .serving true)
    (hMoved : Moved s.base next index old) (hStep : worked resolve s index serialized next = some t) :
    Ordered resolve t := by
  have hEngagement := h.engagement.moved hOld hMoved
  obtain ⟨new, hWorkers, -, -, hMove⟩ := hMoved
  have hSame : ∀ {held : Nat → Nat}, (status new).carries = (status old).carries →
      (∀ i domain, Due resolve next.decoded i domain ↔ Due resolve s.base.decoded i domain) →
      (∀ j, Carrier s.base j → held j = s.held j) → Ordered resolve { s with base := next, held } := by
    intro held hCarries hDue hHeld
    refine h.same hEngagement rfl hDue ?_ hHeld
    intro j
    rw [carrier_set hOld hWorkers, hCarries]
    constructor
    · rintro (⟨rfl, hHere⟩ | ⟨-, hOther⟩)
      · exact ⟨old, hOld, hHere⟩
      · exact hOther
    · intro hj
      by_cases hHere : j = index
      · obtain ⟨w, hWorker, hCarrier⟩ := hj
        subst hHere
        obtain rfl : w = old := Option.some.inj (hWorker.symm.trans hOld)
        exact .inl ⟨rfl, hCarrier⟩
      · exact .inr ⟨hHere, hj⟩
  have hUnread : next.decoded = s.base.decoded → (status new).carries = (status old).carries → Ordered resolve t := by
    intro hDecoded hCarries
    unfold AdmissionOrder.worked at hStep
    rw [if_neg (fun hServing => hElsewhere (Option.some.inj (hOld.symm.trans hServing))), hDecoded,
      if_neg (Nat.lt_irrefl _)] at hStep
    cases hStep
    exact hSame hCarries (fun i domain => by rw [hDecoded]) fun j _ => rfl
  have hGrown : ∀ event, next.decoded = s.base.decoded ++ [event] →
      t = { s with base := next, held := Function.update s.held index s.base.decoded.length } := by
    intro event hDecoded
    unfold AdmissionOrder.worked at hStep
    rw [if_neg (fun hServing => hElsewhere (Option.some.inj (hOld.symm.trans hServing))), hDecoded,
      if_pos (by simp)] at hStep
    exact (Option.some.inj hStep).symm
  generalize hFrom : status old = a, hTo : status new = b at hMove
  rw [hFrom, hTo] at hUnread hSame
  cases hMove with
  | kept _ _ _ hDecoded | take _ _ _ hDecoded | complete _ _ _ hDecoded | account _ _ _ hDecoded =>
    exact hUnread hDecoded rfl
  | acquire _ _ _ _ hDecoded => exact hUnread hDecoded rfl
  | giveBack afterwards _ _ _ hDecoded => exact hUnread hDecoded (by cases afterwards <;> rfl)
  | served =>
    exact absurd (eq_of_serving hFrom) hElsewhere
  | cancelled requestId _ _ _ hDecoded =>
    rw [hGrown _ hDecoded]
    apply hSame rfl
    · intro i domain
      rw [hDecoded]
      exact due_cancel
    · -- The worker itself holds no request, since it is reading.
      rintro j ⟨w, hWorker, hCarries⟩
      apply Function.update_of_ne
      rintro rfl
      obtain rfl : w = old := Option.some.inj (hWorker.symm.trans hOld)
      rw [hFrom] at hCarries
      cases hCarries
  | read event hRequest _ _ _ hDecoded =>
    rw [hGrown _ hDecoded]
    exact h.reads hEngagement hOld hFrom hTo hWorkers hRequest hDecoded

theorem initial_ordered (hInit : (machine opts stream resolve).initial s) : Ordered resolve s := by
  obtain ⟨⟨workers, hBase⟩, hNone⟩ := hInit
  have hFree : ∀ j, ¬Carrier s.base j := by
    rintro j ⟨w, hWorker, hCarries⟩
    rw [hBase] at hWorker
    rw [List.eq_of_mem_replicate (Pool.mem_of_getElem? hWorker)] at hCarries
    cases hCarries
  refine ⟨?_, ?_, ?_, ?_, fun j hj => absurd hj (hFree j)⟩
  · rw [hBase]
    exact connected_engagement stream workers
  · rw [hNone]
    exact fun i hi => absurd hi List.not_mem_nil
  · rw [hNone]
    exact .nil
  · intro i domain hDue
    rw [hBase] at hDue
    exact absurd hDue.lt (Nat.not_lt_zero _)

end Ordered

/-- The reactor does not go on parsing while a worker has given the descriptor back and not yet admitted a
request of the domain that the next frame resolves to. -/
def notOvertaken (resolve : Resolve) (s : State) : Action → Bool
  | .pass .. => (List.range s.base.workers.length).all fun j =>
      s.base.workers[j]? != some (.serving true) || (resolve (s.held j)).isNone ||
        resolve (s.held j) != resolve s.base.decoded.length
  | _ => true

/-- With an aggregate budget there is no lease, and every run is in turn. -/
def inTurn (opts : Options) (resolve : Resolve) (s : State) (action : Action) : Bool :=
  opts.strictBudget || notOvertaken resolve s action && ContinuationOrder.leasesAtBoundary s.base action

section LeaseFree

variable {opts : Options} {s t : Continuation.State}

/-- The worker has not come to `try_acquire_continuation_lease`, or has left it at its first test. -/
def leaseFree : Worker → Bool
  | .waiting | .serving false | .completing | .completed _ => true
  | _ => false

theorem workerStep_leaseFree (hStrict : opts.strictBudget = true) {index count : Nat} {serialized graceOver : Bool}
    {old : Worker} (hOld : leaseFree old = true)
    (hStep : workerStep opts s index count serialized graceOver old = some t) :
    ∃ new, t.workers = s.workers.set index new ∧ leaseFree new = true := by
  unfold workerStep at hStep
  cases old with
  | waiting =>
    dsimp only at hStep
    split at hStep <;> cases hStep
    exact ⟨.serving false, rfl, rfl⟩
  | serving continued =>
    dsimp only at hStep
    split at hStep <;> cases hStep <;> exact ⟨.completing, rfl, rfl⟩
  | completing =>
    cases hStep
    exact ⟨.completed s.activeRegular, rfl, rfl⟩
  | completed previous =>
    dsimp only at hStep
    rw [if_pos (.inr (.inr hStrict))] at hStep
    cases hStep
    exact ⟨.waiting, rfl, rfl⟩
  | testing | locking | loop | awaiting | header | route | body | accounting | rearm | rearmRunning | rearmLocked =>
    cases hOld

theorem step_leaseFree (hStrict : opts.strictBudget = true) {action : Action} (h : ∀ w ∈ s.workers, leaseFree w = true)
    (hStep : Continuation.step opts s action = some t) : ∀ w ∈ t.workers, leaseFree w = true := by
  cases action with
  | pass handling paused reserved => rwa [(pass_undisturbed hStep).1.workers]
  | worker index count serialized graceOver =>
    dsimp only [Continuation.step] at hStep
    split at hStep
    · cases hStep
    · rename_i old hOld
      obtain ⟨new, hWorkers, hNew⟩ := workerStep_leaseFree hStrict (h old (Pool.mem_of_getElem? hOld)) hStep
      rw [hWorkers]
      intro w hWorker
      obtain hWorker | rfl := Pool.mem_set_cases hWorker
      · exact h w hWorker
      · exact hNew
  | event | resumed | receive | leave | resume | serializedDone | exchanged | stop =>
    rwa [(other_undisturbed rfl hStep).1.workers]

end LeaseFree

section Runs

variable {opts : Options} {resolve : Resolve} {s t : State}

theorem step_base {action : Action} (hStep : step opts resolve s action = some t) :
    Continuation.step opts s.base action = some t.base := by
  obtain ⟨next, hNext, hStep⟩ := Option.bind_eq_some_iff.mp hStep
  rw [hNext]
  refine congrArg some ?_
  cases action with
  | pass handling paused reserved =>
    dsimp only [passed] at hStep
    split at hStep <;> cases hStep
    rfl
  | worker index count serialized graceOver =>
    dsimp only [worked] at hStep
    split at hStep
    · split at hStep <;> cases hStep
      rfl
    · split at hStep <;> cases hStep <;> rfl
  | event | resumed | receive | leave | resume | serializedDone | exchanged | stop =>
    cases hStep
    rfl

theorem leaseFree_of_reached {guard : State → Action → Prop} (hStrict : opts.strictBudget = true)
    (h : (machine opts stream resolve).Reached guard s) : ∀ w ∈ s.base.workers, leaseFree w = true := by
  refine h.invariant (I := fun s => ∀ w ∈ s.base.workers, leaseFree w = true) ?_ fun _ _ _ _ hFree _ hStep =>
    step_leaseFree hStrict hFree (step_base hStep)
  rintro s ⟨⟨workers, hBase⟩, -⟩ w hWorker
  rw [hBase] at hWorker
  rw [List.eq_of_mem_replicate hWorker]
  rfl

theorem guards_of_inTurn {action : Action}
    (hReached : (machine opts stream resolve).Reached (fun s a => inTurn opts resolve s a = true) s)
    (hGuard : inTurn opts resolve s action = true) :
    notOvertaken resolve s action = true ∧ ContinuationOrder.leasesAtBoundary s.base action = true := by
  rw [inTurn, Bool.or_eq_true, Bool.and_eq_true] at hGuard
  obtain hStrict | hGuard := hGuard
  · have hNone : ∀ {j : Nat} {w : Worker}, leaseFree w = false → s.base.workers[j]? ≠ some w := by
      intro j w hLeased hWorker
      rw [leaseFree_of_reached hStrict hReached w (Pool.mem_of_getElem? hWorker)] at hLeased
      cases hLeased
    cases action with
    | pass handling paused reserved =>
      refine ⟨List.all_eq_true.mpr fun j _ => ?_, rfl⟩
      rw [bne_iff_ne.mpr (hNone (by rfl))]
      rfl
    | worker index count serialized graceOver =>
      refine ⟨rfl, ?_⟩
      rw [ContinuationOrder.leasesAtBoundary, bne_iff_ne.mpr (hNone (by rfl))]
      rfl
    | event | resumed | receive | leave | resume | serializedDone | exchanged | stop => exact ⟨rfl, rfl⟩
  · exact hGuard

theorem notOvertaken_pass {paused reserved : Bool}
    (hGuard : notOvertaken resolve s (.pass handling paused reserved) = true) {j : Nat}
    (hServing : s.base.workers[j]? = some (.serving true)) {domain : Nat}
    (hDomain : resolve s.base.decoded.length = some domain) : resolve (s.held j) ≠ some domain := by
  obtain ⟨hIndex, -⟩ := List.getElem?_eq_some_iff.mp hServing
  have hHere := List.all_eq_true.mp hGuard j (List.mem_range.mpr hIndex)
  rw [hServing, hDomain] at hHere
  intro hHeld
  rw [hHeld] at hHere
  simp at hHere

theorem step_ordered {action : Action} (h : Ordered resolve s) (hGuard : notOvertaken resolve s action = true)
    (hStep : step opts resolve s action = some t) : Ordered resolve t := by
  obtain ⟨next, hNext, hStep⟩ := Option.bind_eq_some_iff.mp hStep
  have hOther : admits action = false → Ordered resolve { s with base := next } := by
    intro hOther
    obtain ⟨hUndisturbed, hDecoded⟩ := other_undisturbed hOther hNext
    refine h.same (h.engagement.undisturbed hUndisturbed) rfl (fun i domain => by rw [hDecoded]) ?_ fun j _ => rfl
    intro j
    rw [Carrier, hUndisturbed.workers]
    rfl
  cases action with
  | pass handling paused reserved =>
    obtain ⟨hUndisturbed, hReactor, events, hOne, hDecoded⟩ := pass_undisturbed hNext
    dsimp only [passed] at hStep
    split at hStep <;> cases hStep
    refine h.passed (h.engagement.undisturbed hUndisturbed) hUndisturbed.workers hDecoded ?_
    rintro j ⟨w, hWorker, hCarries⟩ i hNew hSome
    obtain rfl := h.engagement.serving_of_carries hReactor hWorker hCarries
    rw [hDecoded] at hNew
    obtain ⟨hLow, domain, hDue⟩ := mem_enqueued.mp (List.mem_filter.mpr ⟨hNew, hSome⟩)
    have hHigh := hDue.lt
    rw [List.length_append] at hHigh
    obtain rfl : i = s.base.decoded.length := by omega
    rw [hDue.2]
    exact notOvertaken_pass hGuard hWorker hDue.2
  | worker index count serialized graceOver =>
    dsimp only [Continuation.step] at hNext
    split at hNext
    · cases hNext
    · rename_i old hOld
      have hMoved := workerStep_moved hNext
      by_cases hServing : old = .serving true
      · subst hServing
        have hEngagement := h.engagement.moved hOld hMoved
        dsimp only [worked] at hStep
        rw [if_pos hOld] at hStep
        split at hStep <;> cases hStep
        dsimp only [workerStep] at hNext
        split at hNext <;> cases hNext
        · exact h.admits hEngagement hOld .completing rfl rfl rfl
        · exact h.admits hEngagement hOld .completing rfl rfl rfl
      · exact h.worked hOld hServing hMoved hStep
  | event | resumed | receive | leave | resume | serializedDone | exchanged | stop =>
    cases hStep
    exact hOther rfl

theorem ordered_of_reached (h : (machine opts stream resolve).Reached (fun s a => inTurn opts resolve s a = true) s) :
    Ordered resolve s ∧
      (Continuation.machine opts stream).Reached (fun s a => ContinuationOrder.leasesAtBoundary s a = true) s.base := by
  apply Machine.Reached.invariant _ _ h
  · intro s hInit
    exact ⟨initial_ordered hInit, .start hInit.1⟩
  · rintro s action t hReached ⟨hOrdered, hBase⟩ hGuard hStep
    obtain ⟨hTurn, hBoundary⟩ := guards_of_inTurn hReached hGuard
    exact ⟨step_ordered hOrdered hTurn hStep, hBase.next hBoundary (step_base hStep)⟩

theorem Ordered.before (h : Ordered resolve s) {i j domain : Nat} (hLess : i < j)
    (hi : Due resolve s.base.decoded i domain) (hj : Due resolve s.base.decoded j domain) {front back : List Nat}
    (hAdmissions : s.admissions = front ++ j :: back) : i ∈ front := by
  have hSorted := h.sorted
  rw [hAdmissions, List.pairwise_append, List.pairwise_cons] at hSorted
  have hAdmitted : i ∈ s.admissions := by
    obtain hDone | ⟨k, hCarrier, rfl⟩ := h.complete i domain hi
    · exact hDone
    · exact absurd ((h.latest k hCarrier domain hi.2).2.2 j hj) (Nat.not_le.mpr hLess)
  rw [hAdmissions] at hAdmitted
  obtain hFront | hBack := List.mem_append.mp hAdmitted
  · exact hFront
  · obtain rfl | hBack := List.mem_cons.mp hBack
    · exact absurd hLess (Nat.lt_irrefl _)
    · exact absurd (hSorted.2.1.1 i hBack (hj.2.trans hi.2.symm)) (Nat.not_lt.mpr (Nat.le_of_lt hLess))

theorem decoded_frames {wireVersion : UInt8} {frames : List Frame}
    (hValid : ∀ frame ∈ frames, frame.Valid opts.toOptions wireVersion) {s : Continuation.State}
    (h : (Continuation.machine opts (frames.flatMap (Frame.encode wireVersion))).Reached
      (fun s a => ContinuationOrder.leasesAtBoundary s a = true) s) :
    ∃ done later, frames = done ++ later ∧ s.decoded = done.map Frame.event := by
  obtain ⟨consumed, hBytes, hRun⟩ :=
    (ContinuationOrder.inv_of_reached (ContinuationOrder.fixedStream_of_valid hValid) h).bytes
  obtain ⟨done, later, part, cursor, hFrames, -, -, hDone, -⟩ := run_cut hValid hBytes
  exact ⟨done, later, hFrames, (Prod.mk.inj (hRun.symm.trans hDone)).2⟩

/-- As long as the reactor overtakes no worker and leases are taken between two headers, or without leases: a
request is admitted only behind all requests of its domain that precede it on the connection, and one that
could supersede another follows it there. -/
theorem admissions_in_wire_order (opts : Options) (stream : List UInt8) (resolve : Resolve) (s : State)
    (h : (machine opts stream resolve).Reached (fun s a => inTurn opts resolve s a = true) s) :
    (∀ i j domain, i < j → Due resolve s.base.decoded i domain → Due resolve s.base.decoded j domain →
      ∀ front back, s.admissions = front ++ j :: back → i ∈ front) ∧
    (∀ i j, [i, j].Sublist s.admissions → resolve i = resolve j → i < j) ∧
    (∀ i ∈ s.admissions, ∃ domain, Due resolve s.base.decoded i domain) ∧
    (∀ (wireVersion : UInt8) (frames : List Frame), (∀ frame ∈ frames, frame.Valid opts.toOptions wireVersion) →
      stream = frames.flatMap (Frame.encode wireVersion) →
      ∃ done later : List Frame, frames = done ++ later ∧ s.base.decoded = done.map Frame.event) := by
  obtain ⟨hOrdered, hBoundary⟩ := ordered_of_reached h
  refine ⟨?_, ?_, hOrdered.admitted, ?_⟩
  · intro i j domain hLess hi hj front back hAdmissions
    exact hOrdered.before hLess hi hj hAdmissions
  · intro i j hBehind
    exact List.pairwise_iff_forall_sublist.mp hOrdered.sorted hBehind
  · rintro wireVersion frames hValid rfl
    exact decoded_frames hValid hBoundary

end Runs

def threeRequests : List Frame := ContinuationOrder.twoRequests ++ [.request 9 [102] [103]]

def threeRequestBytes : List UInt8 := threeRequests.flatMap (Frame.encode 3)

def commands : Resolve
  | 0 => none
  | _ => some 5

def idle : State where
  base := connected threeRequestBytes 1
  held := fun _ => 0
  admissions := []

/-- The worker has read the second request under the lease and has given the descriptor back. -/
def untilRearmed : List Action :=
  ContinuationOrder.leaseAtBoundary ++ List.replicate 4 (Action.worker 0 0 false false)

def readThird : List Action :=
  [Action.event true true, .receive (.bytes 22 none), .receive .wouldBlock, .pass .serialized false true,
    .pass .serialized false true]

theorem admissions_in_wire_order_commands : ∃ s,
    (machine ContinuationOrder.graceful threeRequestBytes commands).Reached
      (fun s a => inTurn ContinuationOrder.graceful commands s a = true) s ∧
    s.base.decoded = threeRequests.map Frame.event ∧ s.admissions = [1, 2] ∧
    ∀ front back, s.admissions = front ++ 2 :: back → 1 ∈ front := by
  obtain ⟨s, hReached, hDecoded, hAdmissions, hFirst, hSecond⟩ := Machine.exists_reached_of_exec
    (fun s => s.base.decoded = threeRequests.map Frame.event ∧ s.admissions = [1, 2] ∧
      Due commands s.base.decoded 1 5 ∧ Due commands s.base.decoded 2 5)
    (inTurn ContinuationOrder.graceful commands) (untilRearmed ++ Action.worker 0 0 true false :: readThird)
    (M := machine ContinuationOrder.graceful threeRequestBytes commands) (s := idle) ⟨⟨1, rfl⟩, rfl⟩ (by decide +kernel)
  obtain ⟨hBefore, -⟩ := admissions_in_wire_order _ _ _ s hReached
  exact ⟨s, hReached, hDecoded, hAdmissions, hBefore 1 2 5 (by decide) hFirst hSecond⟩

/-- The worker has returned the descriptor and has not admitted the second request when the reactor reads the
third one and admits it. -/
theorem admitted_out_of_order : ∃ s, (machine ContinuationOrder.graceful threeRequestBytes commands).Reachable s ∧
    s.base.decoded = threeRequests.map Frame.event ∧ Due commands s.base.decoded 1 5 ∧
    Due commands s.base.decoded 2 5 ∧ s.admissions = [2, 1] :=
  Machine.exists_reachable_of_exec _ (untilRearmed ++ readThird ++ [Action.worker 0 0 true false]) (s := idle)
    ⟨⟨1, rfl⟩, rfl⟩ (by decide +kernel)

end EasyUds.Reactor.AdmissionOrder

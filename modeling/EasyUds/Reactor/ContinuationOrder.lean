import EasyUds.Lib.Pool
import EasyUds.Reactor.Continuation
import EasyUds.Reactor.ParserDecode

/-! # The stream across hand-offs

Whoever owns the descriptor stands at one position of the stream: the reactor with its parse state, or
a worker with what it has read of the next frame. Each step moves that position over the bytes that it
takes. A hand-off in either direction happens between two frames, provided that a lease is taken while
the reactor holds no part of a header; without that the part is lost.
-/

namespace EasyUds.Reactor.ContinuationOrder

open Lib Lib.BlockDecoder Protocol.Codec Reactor.ParserDecode
open Reactor.Continuation
open Reactor.Parser hiding Options

def leasePlace : Worker → Option (Stage × List UInt8)
  | .loop | .awaiting | .accounting _ | .rearm _ _ | .rearmRunning _ _ | .rearmLocked _ _ => some (.header, [])
  | .header bytes => some (.header, bytes)
  | .route header decoded bytes =>
    some (.payload header decoded.requestId decoded.arg1 decoded.arg2, bytes)
  | .body header decoded route bytes =>
    some (.payload header decoded.requestId decoded.arg1 decoded.arg2, route ++ bytes)
  | .waiting | .serving _ | .completing | .completed _ | .testing _ | .locking => none

def leases (s : State) : List (Stage × List UInt8) := s.workers.filterMap leasePlace

def owner (s : State) : Position :=
  match leases s with
  | [] => position s.rc
  | place :: _ => ⟨⟨s.rc.wireVersion, place.1⟩, place.2⟩

def WorkerSound : Worker → Prop
  | .header bytes => bytes.length < headerSize
  | .route _ decoded bytes => bytes.length < decoded.arg1.toNat
  | .body _ decoded route bytes => route.length = decoded.arg1.toNat ∧ bytes.length < decoded.arg2.toNat
  | .rearm _ buffered | .rearmRunning _ buffered | .rearmLocked _ buffered => buffered = []
  | _ => True

structure AtRest (rc : ReactorConnection) : Prop where
  phase : rc.phase = .header
  received : rc.headerReceived = 0
  unparsed : unparsed rc = []

def consuming : ReactorStep → Bool
  | .reading _ | .parsing => true
  | .waiting | .leaving => false

structure Inv (opts : Options) (stream : List UInt8) (s : State) : Prop where
  closing : s.rc.closing = false
  streamActive : s.rc.streamActive = false
  sound : Sound s.rc
  ready : consuming s.reactor = true → Ready s.rc
  workers : ∀ worker ∈ s.workers, WorkerSound worker
  one : (leases s).length ≤ 1
  owned : leases s ≠ [] → s.workerOwned = true
  rest : s.workerOwned = true → s.reactorBusy = false ∧ AtRest s.rc
  busy : s.reactor ≠ .waiting → s.reactorBusy = true
  bytes : ∃ consumed, stream = consumed ++ (unparsed s.rc ++ s.socket) ∧
    (decoder opts.toOptions).run start consumed = (owner s, s.decoded)

/-- Every position within the stream belongs to a fixed request or a cancellation. -/
def FixedStream (opts : Options) (stream : List UInt8) : Prop :=
  ∀ front rest cursor events, stream = front ++ rest →
    (decoder opts.toOptions).run start front = (cursor, events) → Fixed cursor.mode.stage

variable {stream : List UInt8} {opts : Options}

theorem fixedStream_of_valid {wireVersion : UInt8} {frames : List Frame}
    (hValid : ∀ frame ∈ frames, frame.Valid opts.toOptions wireVersion) :
    FixedStream opts (frames.flatMap (Frame.encode wireVersion)) := by
  intro front rest cursor events hBytes hRun
  obtain ⟨_, _, _, reached, _, _, _, hDone, _, hFixed⟩ := run_cut hValid hBytes
  obtain ⟨rfl, -⟩ := Prod.mk.inj (hRun.symm.trans hDone)
  exact hFixed

section Steps

variable {opts : Options} {stream : List UInt8} {s t : State} {index : Nat} {old new : Worker}
variable {place : Stage × List UInt8} {events : List Event} {rc : ReactorConnection} {reactor : ReactorStep}
  {version : UInt8} {handling : Handling}

theorem position_atRest (h : AtRest rc) : position rc = ⟨⟨rc.wireVersion, .header⟩, []⟩ := by
  rw [position, h.phase, h.received]
  rfl

theorem Inv.free (h : Inv opts stream s) (hFree : s.workerOwned = false) : leases s = [] := by
  by_contra hSome
  rw [h.owned hSome] at hFree
  cases hFree

theorem Inv.free_of_busy (h : Inv opts stream s) (hBusy : s.reactorBusy = true) : s.workerOwned = false := by
  by_contra hOwned
  rw [Bool.not_eq_false] at hOwned
  rw [(h.rest hOwned).1] at hBusy
  cases hBusy

theorem owner_free (hFree : leases s = []) : owner s = position s.rc := by
  rw [owner, hFree]

theorem owner_leased (hLeased : leases s = [place]) :
    owner s = ⟨⟨s.rc.wireVersion, place.1⟩, place.2⟩ := by
  rw [owner, hLeased]

theorem Inv.advance (h : Inv opts stream s) {taken : List UInt8}
    (hBytes : unparsed s.rc ++ s.socket = taken ++ (unparsed t.rc ++ t.socket))
    (hRun : (decoder opts.toOptions).run (owner s) taken = (owner t, events))
    (hDecoded : t.decoded = s.decoded ++ events) :
    ∃ consumed, stream = consumed ++ (unparsed t.rc ++ t.socket) ∧
      (decoder opts.toOptions).run start consumed = (owner t, t.decoded) := by
  obtain ⟨consumed, hStream, hConsumed⟩ := h.bytes
  refine ⟨consumed ++ taken, ?_, ?_⟩
  · rw [hStream, hBytes, List.append_assoc]
  · rw [hDecoded]
    exact run_append_of_eq hConsumed hRun

theorem Inv.fixed (h : Inv opts stream s) (hStream : FixedStream opts stream) {taken rest : List UInt8}
    {cursor : Position} (hBytes : unparsed s.rc ++ s.socket = taken ++ rest)
    (hRun : (decoder opts.toOptions).run (owner s) taken = (cursor, events)) : Fixed cursor.mode.stage := by
  obtain ⟨consumed, hStart, hConsumed⟩ := h.bytes
  apply hStream (consumed ++ taken) rest _ _ _ (run_append_of_eq hConsumed hRun)
  rw [hStart, hBytes, List.append_assoc]

/-- Neither the parser nor a lease is touched. -/
theorem Inv.same (h : Inv opts stream s) {workers : List Worker}
    (hLeases : workers.filterMap leasePlace = leases s) (hWorkers : ∀ worker ∈ workers, WorkerSound worker)
    {running sessionCapable : Bool} {resumed activeRegular pendingSerialized pendingJobs : Nat} :
    Inv opts stream
      { s with workers, running, resumed, sessionCapable, activeRegular, pendingSerialized, pendingJobs } := by
  refine ⟨h.closing, h.streamActive, h.sound, h.ready, hWorkers, ?_, ?_, h.rest, h.busy, ?_⟩
  · rw [leases, hLeases]
    exact h.one
  · rw [leases, hLeases]
    exact h.owned
  · rw [owner, leases, hLeases]
    exact h.bytes

theorem Inv.reactor_moved (h : Inv opts stream s) (hFree : s.workerOwned = false) {socket taken : List UInt8}
    {reactorBusy : Bool} (hClosing : rc.closing = s.rc.closing) (hStreaming : rc.streamActive = s.rc.streamActive)
    (hSound : Sound rc) (hReady : consuming reactor = true → Ready rc) (hBusy : reactor ≠ .waiting → reactorBusy = true)
    (hBytes : unparsed s.rc ++ s.socket = taken ++ (unparsed rc ++ socket))
    (hRun : (decoder opts.toOptions).run (position s.rc) taken = (position rc, events)) :
    Inv opts stream { s with rc, socket, reactorBusy, reactor, decoded := s.decoded ++ events } := by
  have hLeases := h.free hFree
  refine ⟨hClosing.trans h.closing, hStreaming.trans h.streamActive, hSound, hReady, h.workers, h.one, h.owned,
    ?_, hBusy, ?_⟩
  · intro hOwned
    exact absurd hOwned (by rw [hFree]; nofun)
  · refine h.advance hBytes ?_ rfl
    have hOwner : owner { s with rc, socket, reactorBusy, reactor, decoded := s.decoded ++ events } = position rc := by
      apply owner_free
      exact hLeases
    rw [owner_free hLeases, hRun, hOwner]

theorem Inv.reactor_stays (h : Inv opts stream s) (hFree : s.workerOwned = false) {socket : List UInt8}
    {reactorBusy : Bool} (hClosing : rc.closing = s.rc.closing) (hStreaming : rc.streamActive = s.rc.streamActive)
    (hSound : Sound rc) (hReady : consuming reactor = true → Ready rc) (hBusy : reactor ≠ .waiting → reactorBusy = true)
    (hBytes : unparsed s.rc ++ s.socket = unparsed rc ++ socket)
    (hRun : (decoder opts.toOptions).run (position s.rc) [] = (position rc, [])) :
    Inv opts stream { s with rc, socket, reactorBusy, reactor } := by
  have hMoved := h.reactor_moved hFree hClosing hStreaming hSound hReady hBusy hBytes hRun
  rwa [List.append_nil] at hMoved

section ReactorSteps

variable (h : Inv opts stream s)
include h

theorem Inv.reactor_flags (hFree : s.workerOwned = false) {reactorBusy : Bool} (hReady : consuming reactor = false)
    (hBusy : reactor ≠ .waiting → reactorBusy = true) : Inv opts stream { s with reactor, reactorBusy } :=
  h.reactor_stays hFree rfl rfl h.sound (fun hSome => absurd (hReady.symm.trans hSome) nofun) hBusy rfl rfl

theorem enterConsume_inv (hFree : s.workerOwned = false) (reserved : Bool) :
    Inv opts stream (enterConsume opts s reserved) := by
  obtain ⟨hMoved, hReady⟩ := retryBudget_moved opts.toOptions { granted with reserved } h.sound
  refine h.reactor_stays hFree hMoved.closing hMoved.streamActive hMoved.sound (fun hSome => hReady ?_) (fun _ => rfl)
    (by rw [hMoved.bytes, List.nil_append]) hMoved.run
  by_contra hNot
  rw [if_neg hNot] at hSome
  cases hSome

theorem reactorEvent_inv {readable reserved : Bool} (hStep : reactorEvent opts s readable reserved = some t) :
    Inv opts stream t := by
  unfold reactorEvent at hStep
  split at hStep
  · cases hStep
  · rename_i hOpen
    push Not at hOpen
    have hFree : s.workerOwned = false := Bool.eq_false_iff.mpr hOpen.2.2.2
    split at hStep <;> cases hStep
    · exact enterConsume_inv h hFree reserved
    · exact h.reactor_flags hFree rfl fun _ => rfl

theorem processResumed_inv {reserved : Bool} (hStep : processResumed opts s reserved = some t) :
    Inv opts stream t := by
  have hPopped : Inv opts stream { s with resumed := s.resumed - 1 } := h.same rfl h.workers
  unfold processResumed at hStep
  split at hStep
  · cases hStep
  · dsimp only at hStep
    split at hStep <;> cases hStep
    · exact hPopped
    · rename_i hOpen
      push Not at hOpen
      exact enterConsume_inv hPopped (Bool.eq_false_iff.mpr hOpen.2.2.2.2) reserved

theorem reactorReceive_inv {receive : Receive} (hPlain : plain receive = true)
    (hStep : reactorReceive opts s receive = some t) : Inv opts stream t := by
  unfold reactorReceive at hStep
  split at hStep
  · rename_i readAhead hReactor
    have hBusy : s.reactorBusy = true := h.busy (by rw [hReactor]; nofun)
    obtain ⟨next, left, hFetched, hPass⟩ : ∃ next left, Fetched s.rc s.socket next left ∧
        (readPass opts.toOptions s.rc s.socket readAhead receive = .parse next left ∨
          ∃ ahead, readPass opts.toOptions s.rc s.socket readAhead receive = .more next left ahead) :=
      readPass_spec hPlain h.sound.offset readAhead
    have hMoved : ∀ reactor, Inv opts stream { s with rc := next, socket := left, reactor } := by
      intro reactor
      obtain ⟨hClosing, hStream, hReady⟩ :
          next.closing = s.rc.closing ∧ next.streamActive = s.rc.streamActive ∧ Ready next := by
        obtain ⟨pending, offset, data, rfl, -⟩ := hFetched
        exact ⟨rfl, rfl, h.ready (by rw [hReactor]; rfl)⟩
      refine h.reactor_stays (h.free_of_busy hBusy) hClosing hStream (hFetched.sound h.sound) (fun _ => hReady)
        (fun _ => hBusy) hFetched.bytes.symm ?_
      rw [hFetched.position]
      rfl
    obtain hPass | ⟨ahead, hPass⟩ := hPass
    · rw [hPass] at hStep
      cases hStep
      exact hMoved _
    · rw [hPass] at hStep
      cases hStep
      exact hMoved _
  · cases hStep

theorem dispatch_inv (handling : Handling) (event : Event) : Inv opts stream (dispatch s handling event) := by
  cases event with
  | cancel | stream => exact h
  | request =>
    cases handling with
    | refused => exact h
    | regular | serialized => exact h.same rfl h.workers

end ReactorSteps

theorem handOver_inv (h : Inv opts stream { s with rc, reactor, decoded := s.decoded ++ events }) :
    Inv opts stream (handOver { s with rc, reactor } handling events) := by
  have hFold : ∀ (events : List Event) (s : State), Inv opts stream s →
      Inv opts stream (events.foldl (fun s event => dispatch s handling event) s) := by
    intro events
    induction events with
    | nil => exact fun _ h => h
    | cons event rest ih => exact fun s h => ih _ (dispatch_inv h handling event)
  exact hFold events _ h

theorem reactorPass_inv (hStream : FixedStream opts stream) (h : Inv opts stream s) {paused reserved : Bool}
    (hStep : reactorPass opts s handling paused reserved = some t) : Inv opts stream t := by
  unfold reactorPass at hStep
  split at hStep
  · rename_i hReactor
    have hBusy : s.reactorBusy = true := h.busy (by rw [hReactor]; nofun)
    have hFree := h.free_of_busy hBusy
    have hOwner := owner_free (h.free hFree)
    have hSpec : PassSpec opts.toOptions (passAnswer paused reserved) s.rc
        (parsePass opts.toOptions (passAnswer paused reserved) s.rc) :=
      parsePass_spec (by cases paused <;> nofun) h.sound (h.ready (by rw [hReactor]; rfl))
    have hEnded : ∀ {stage events}, Ended opts.toOptions s.rc stage events → Fixed stage := by
      rintro stage events ⟨taken, rest, version, hBytes, hRun⟩
      rw [← hOwner] at hRun
      exact h.fixed hStream (by rw [hBytes, List.append_assoc]) hRun
    split at hStep
    · rename_i rc events hPass
      rw [hPass] at hSpec
      cases hStep
      obtain ⟨hReady, taken, -, hMoved⟩ := hSpec
      apply handOver_inv
      exact h.reactor_moved hFree hMoved.closing hMoved.streamActive hMoved.sound (fun _ => hReady) (fun _ => hBusy)
        (by rw [hMoved.bytes, List.append_assoc]) hMoved.run
    · rename_i rc events hPass
      rw [hPass] at hSpec
      cases hStep
      obtain ⟨taken, hMoved, -⟩ | ⟨-, hStopped⟩ := hSpec
      · apply handOver_inv
        exact h.reactor_moved hFree hMoved.closing hMoved.streamActive hMoved.sound nofun (fun _ => hBusy)
          (by rw [hMoved.bytes, List.append_assoc]) hMoved.run
      · cases hEnded hStopped
    · rename_i rc error hPass
      rw [hPass] at hSpec
      cases hEnded hSpec
  · cases hStep

theorem reactorLeave_inv (h : Inv opts stream s) (hStep : reactorLeave s = some t) : Inv opts stream t := by
  unfold reactorLeave at hStep
  split at hStep
  · rename_i hReactor
    have hFree := h.free_of_busy (h.busy (by rw [hReactor]; nofun))
    rw [if_neg (by rw [h.closing]; nofun)] at hStep
    cases hStep
    exact h.reactor_flags hFree rfl (absurd rfl)
  · cases hStep

theorem resume_inv (h : Inv opts stream s) (resumed : Nat) :
    Inv opts stream { s with rc := { s.rc with readPaused := false }, resumed } := by
  have hOwner : owner { s with rc := { s.rc with readPaused := false }, resumed } = owner s := rfl
  refine ⟨h.closing, h.streamActive, ⟨h.sound.header, h.sound.offset, h.sound.buffered, h.sound.receivedFds,
    h.sound.receivedFd⟩, h.ready, h.workers, h.one, h.owned, ?_, h.busy, ?_⟩
  · intro hOwned
    obtain ⟨hIdle, hRest⟩ := h.rest hOwned
    exact ⟨hIdle, hRest.phase, hRest.received, hRest.unparsed⟩
  · rw [hOwner]
    exact h.bytes

theorem workers_set {workers : List Worker} (hWorkers : ∀ worker ∈ workers, WorkerSound worker)
    (hNew : WorkerSound new) : ∀ worker ∈ workers.set index new, WorkerSound worker := by
  intro worker hWorker
  obtain hWorker | rfl := Pool.mem_set_cases hWorker
  · exact hWorkers worker hWorker
  · exact hNew

theorem Inv.worker_same (h : Inv opts stream s) (hOld : s.workers[index]? = some old)
    (hPlace : leasePlace new = leasePlace old) (hNew : WorkerSound new) {sessionCapable : Bool}
    {activeRegular pendingSerialized pendingJobs : Nat} :
    Inv opts stream (setWorker { s with sessionCapable, activeRegular, pendingSerialized, pendingJobs } index new) :=
  h.same (Pool.filterMap_set_other hOld hPlace) (workers_set h.workers hNew)

theorem Inv.lease_moved (h : Inv opts stream s) (new : Worker) (hOld : s.workers[index]? = some old)
    {next : Stage × List UInt8} (hLeased : leasePlace old = some place) (hNext : leasePlace new = some next)
    (hNew : WorkerSound new) {taken socket : List UInt8} (hBytes : s.socket = taken ++ socket)
    (hRun : (decoder opts.toOptions).run ⟨⟨s.rc.wireVersion, place.1⟩, place.2⟩ taken =
      (⟨⟨version, next.1⟩, next.2⟩, events)) :
    Inv opts stream (setWorker { s with
      rc := { s.rc with wireVersion := version }
      socket
      decoded := s.decoded ++ events } index new) := by
  obtain ⟨hBefore, hAfter⟩ := Pool.filterMap_set_holder hOld h.one hLeased new
  rw [hNext] at hAfter
  have hOwned := h.owned (by rw [leases, hBefore]; nofun)
  obtain ⟨hIdle, hRest⟩ := h.rest hOwned
  refine ⟨h.closing, h.streamActive, ⟨h.sound.header, h.sound.offset, h.sound.buffered, h.sound.receivedFds,
    h.sound.receivedFd⟩, h.ready, workers_set h.workers hNew, ?_, fun _ => hOwned,
    fun _ => ⟨hIdle, hRest.phase, hRest.received, hRest.unparsed⟩, h.busy, ?_⟩
  · exact (congrArg List.length hAfter).le
  · have hTaken : unparsed s.rc ++ s.socket = taken ++ (unparsed s.rc ++ socket) := by
      rw [hRest.unparsed, hBytes, List.nil_append, List.nil_append]
    refine h.advance hTaken ?_ rfl
    rw [owner_leased hBefore, hRun]
    refine congrArg (Prod.mk · events) (Eq.symm ?_)
    apply owner_leased
    exact hAfter

theorem receiveExact_spec {missing count : Nat} {next : State} {data : List UInt8}
    (hReceive : receiveExact s missing count = some (next, data)) :
    ∃ left, s.socket = data ++ left ∧ next = { s with socket := left } ∧ data ≠ [] ∧ data.length ≤ missing := by
  unfold receiveExact at hReceive
  dsimp only at hReceive
  split at hReceive
  · cases hReceive
  · rename_i hSome
    obtain ⟨rfl, rfl⟩ := Prod.mk.inj (Option.some.inj hReceive)
    refine ⟨_, ?_, rfl, hSome, ?_⟩
    · exact (List.prefix_iff_eq_append.mp (List.take_prefix _ _)).symm
    · rw [List.length_take]
      omega

theorem continueHeader_request {decoded announced : DecodedHeader}
    (hAnnounce : announce opts.toOptions version false decoded = .ok (.request announced)) :
    announced = decoded ∧ continueHeader opts version decoded = .request ∧ 0 < decoded.arg1.toNat := by
  obtain ⟨rfl, ⟨hKind, -⟩ | ⟨hKind, hType, hHandle, hFlag, hLengths⟩ | ⟨hKind, -⟩⟩ := announce_cases hAnnounce
  · cases hKind
  · cases hKind
    have hNone : decoded.flags &&& carriesFdFlag = 0 :=
      not_not.mp fun hSet => absurd (hFlag hSet) Bool.false_ne_true
    refine ⟨rfl, ?_, (validateRequestLengths_ok.mp hLengths).1⟩
    simp [continueHeader, hType, hNone, hHandle, hLengths]
  · cases hKind

theorem continueHeader_cancel {decoded : DecodedHeader} {requestId : UInt32}
    (hAnnounce : announce opts.toOptions version false decoded = .ok (.cancel requestId)) :
    continueHeader opts version decoded = .cancel requestId := by
  obtain ⟨rfl, ⟨hKind, hType⟩ | ⟨hKind, -⟩ | ⟨hKind, -⟩⟩ := announce_cases hAnnounce
  · cases hKind
    simp [continueHeader, hType]
  · cases hKind
  · cases hKind

theorem headerRead_inv (hStream : FixedStream opts stream) (h : Inv opts stream s) {bytes data left : List UInt8}
    (hOld : s.workers[index]? = some (.header bytes)) (hBytes : s.socket = data ++ left) (hSome : data ≠ [])
    (hFull : bytes.length + data.length = headerSize) :
    Inv opts stream (continueDecoded opts { s with socket := left } index (bytes ++ data)) := by
  obtain ⟨hLeases, -⟩ := Pool.filterMap_set_holder hOld h.one rfl (.header bytes)
  have hRest := (h.rest (h.owned (by rw [leases, hLeases]; nofun))).2
  have hRun : (decoder opts.toOptions).run ⟨⟨s.rc.wireVersion, .header⟩, bytes⟩ data =
      (⟨(finishHeader opts.toOptions s.rc.wireVersion (bytes ++ data)).1, []⟩,
        (finishHeader opts.toOptions s.rc.wireVersion (bytes ++ data)).2) := run_complete rfl hSome hFull
  have hFixed : Fixed (finishHeader opts.toOptions s.rc.wireVersion (bytes ++ data)).1.stage := by
    have hOwner := owner_leased hLeases
    rw [← hOwner] at hRun
    exact h.fixed hStream (by rw [hRest.unparsed, List.nil_append, hBytes]) hRun
  unfold continueDecoded
  unfold finishHeader at hRun hFixed
  cases hDecode : decodeHeader (bytes ++ data) with
  | error error =>
    rw [hDecode] at hFixed
    cases hFixed
  | ok decoded =>
    rw [hDecode] at hFixed hRun
    dsimp only at hFixed hRun ⊢
    cases hAnnounce : announce opts.toOptions (observedVersion s.rc.wireVersion decoded.version) false decoded with
    | error error =>
      rw [hAnnounce] at hFixed
      cases hFixed
    | ok announced =>
      rw [hAnnounce] at hFixed hRun
      cases announced with
      | cancel requestId =>
        rw [continueHeader_cancel hAnnounce]
        exact h.lease_moved .loop hOld rfl rfl trivial hBytes hRun
      | request announced =>
        obtain ⟨rfl, hHeader, hRoute⟩ := continueHeader_request hAnnounce
        rw [hHeader]
        have hNext := h.lease_moved (.route (bytes ++ data) announced []) hOld rfl rfl hRoute hBytes hRun
        rwa [List.append_nil] at hNext
      | stream announced => cases hFixed

section Payload

variable {header : HeaderBytes} {decoded : DecodedHeader} {data left : List UInt8}

theorem requestRead_inv (h : Inv opts stream s) (hOld : s.workers[index]? = some old) {route body : List UInt8}
    (hLeased : leasePlace old = some place)
    (hPlace : place.1 = .payload header decoded.requestId decoded.arg1 decoded.arg2)
    (hBytes : s.socket = data ++ left) (hSome : data ≠ []) (hRead : place.2 ++ data = route ++ body)
    (hRoute : route.length = decoded.arg1.toNat) (hBody : body.length = decoded.arg2.toNat) :
    Inv opts stream (requestRead { s with socket := left } index decoded route body) := by
  have hLength := congrArg List.length hRead
  rw [List.length_append, List.length_append] at hLength
  apply h.lease_moved (.accounting decoded.requestId) hOld hLeased rfl trivial hBytes
  rw [hPlace, run_complete rfl hSome (by rw [hLength, hRoute, hBody]), hRead]
  change ((⟨⟨s.rc.wireVersion, .header⟩, []⟩ : Position), [Event.request decoded.requestId
    ((route ++ body).take decoded.arg1.toNat) ((route ++ body).drop decoded.arg1.toNat) none]) = _
  rw [← hRoute, List.take_left, List.drop_left]

theorem payloadRead_inv (h : Inv opts stream s) (hOld : s.workers[index]? = some old) {next : Stage × List UInt8}
    (hLeased : leasePlace old = some place) (hNext : leasePlace new = some next) (hNew : WorkerSound new)
    (hPlace : place.1 = .payload header decoded.requestId decoded.arg1 decoded.arg2) (hSame : next.1 = place.1)
    (hBytes : s.socket = data ++ left) (hRead : next.2 = place.2 ++ data)
    (hShort : next.2.length < decoded.arg1.toNat + decoded.arg2.toNat) :
    Inv opts stream (setWorker { s with socket := left } index new) := by
  have hRun : (decoder opts.toOptions).run ⟨⟨s.rc.wireVersion, place.1⟩, place.2⟩ data =
      (⟨⟨s.rc.wireVersion, next.1⟩, next.2⟩, []) := by
    rw [hSame, hPlace, hRead]
    rw [hRead, List.length_append] at hShort
    exact run_short rfl hShort
  have hMoved := h.lease_moved new hOld hLeased hNext hNew hBytes hRun
  rwa [List.append_nil] at hMoved

end Payload

theorem uint32_pos {value : UInt32} (h : value ≠ 0) : 0 < value.toNat :=
  Nat.pos_of_ne_zero fun hZero => h (UInt32.toNat_inj.mp hZero)

theorem locking_inv (h : Inv opts stream s) (hOld : s.workers[index]? = some .locking)
    (hGranted : leaseGranted s = true) (hReceived : s.rc.headerReceived = 0) :
    Inv opts stream (setWorker { s with workerOwned := true } index .loop) := by
  simp only [leaseGranted, Bool.and_eq_true, Bool.not_eq_true', beq_iff_eq] at hGranted
  obtain ⟨⟨⟨⟨⟨⟨⟨⟨hIdle, hPhase⟩, -⟩, hPending⟩, -⟩, hFree⟩, -⟩, -⟩, -⟩ := hGranted
  have hUnparsed : unparsed s.rc = [] := by rw [unparsed, hPending, List.drop_length]
  have hRest : AtRest s.rc := ⟨hPhase, hReceived, hUnparsed⟩
  have hLeases := h.free hFree
  have hAfter : leases (setWorker { s with workerOwned := true } index .loop) = [(.header, [])] :=
    Pool.filterMap_set_taker hOld hLeases .loop
  refine ⟨h.closing, h.streamActive, h.sound, h.ready, workers_set h.workers trivial, ?_, fun _ => rfl,
    fun _ => ⟨hIdle, hRest⟩, h.busy, ?_⟩
  · rw [hAfter]
    exact Nat.le_refl _
  · rw [owner_leased hAfter]
    have hBytes := h.bytes
    rw [owner_free hLeases, position_atRest hRest] at hBytes
    exact hBytes

theorem Inv.abandon (h : Inv opts stream s) (hOld : s.workers[index]? = some old)
    (hLeased : leasePlace old = some (.header, [])) (hNone : leasePlace new = none) (hNew : WorkerSound new) :
    Inv opts stream (setWorker s index new) := by
  obtain ⟨hBefore, hAfter⟩ := Pool.filterMap_set_holder hOld h.one hLeased new
  rw [hNone] at hAfter
  have hAfter : leases (setWorker s index new) = [] := hAfter
  have hOwned := h.owned (by rw [leases, hBefore]; nofun)
  refine ⟨h.closing, h.streamActive, h.sound, h.ready, workers_set h.workers hNew, ?_, fun _ => hOwned, h.rest,
    h.busy, ?_⟩
  · rw [hAfter]
    exact Nat.zero_le _
  · have hBytes := h.bytes
    rw [owner_leased hBefore] at hBytes
    rw [owner_free hAfter]
    change ∃ consumed, _ ∧ _ = (position s.rc, _)
    rw [position_atRest (h.rest hOwned).2]
    exact hBytes

theorem rearmed_sound (h : Inv opts stream s) : Sound (rearmed s.rc []) :=
  ⟨List.length_replicate, Nat.le_refl _, Nat.zero_lt_succ _, h.sound.receivedFds, h.sound.receivedFd⟩

theorem rearmLocked_inv (h : Inv opts stream s) (hOld : s.workers[index]? = some old)
    (hLeased : leasePlace old = some (.header, [])) (hNone : leasePlace new = none) (hNew : WorkerSound new) :
    Inv opts stream (setWorker { s with rc := rearmed s.rc [], workerOwned := false } index new) := by
  obtain ⟨hBefore, hAfter⟩ := Pool.filterMap_set_holder hOld h.one hLeased new
  rw [hNone] at hAfter
  have hAfter : leases (setWorker { s with rc := rearmed s.rc [], workerOwned := false } index new) = [] := hAfter
  have hRest := (h.rest (h.owned (by rw [leases, hBefore]; nofun))).2
  refine ⟨h.closing, rfl, rearmed_sound h, fun _ => ⟨nofun, nofun⟩, workers_set h.workers hNew, ?_, ?_,
    nofun, h.busy, ?_⟩
  · rw [hAfter]
    exact Nat.zero_le _
  · intro hSome
    exact absurd hAfter hSome
  · have hBytes := h.bytes
    rw [owner_leased hBefore, hRest.unparsed] at hBytes
    rw [owner_free hAfter]
    exact hBytes

theorem afterRearm_place (afterwards : Afterwards) : leasePlace (afterRearm afterwards) = none := by
  cases afterwards <;> rfl

theorem afterRearm_sound (afterwards : Afterwards) : WorkerSound (afterRearm afterwards) := by
  cases afterwards <;> trivial

theorem workerStep_inv (hStream : FixedStream opts stream) (h : Inv opts stream s)
    (hOld : s.workers[index]? = some old) {count : Nat} {serialized graceOver : Bool}
    (hBoundary : old = .locking → leaseGranted s = true → s.rc.headerReceived = 0)
    (hStep : workerStep opts s index count serialized graceOver old = some t) : Inv opts stream t := by
  have hSound := h.workers old (Pool.mem_of_getElem? hOld)
  have hNotClosing : ¬ s.rc.closing = true := by rw [h.closing]; nofun
  unfold workerStep at hStep
  cases old with
  | waiting =>
    dsimp only at hStep
    split at hStep <;> cases hStep
    apply h.worker_same hOld <;> trivial
  | serving continued =>
    dsimp only at hStep
    split at hStep <;> cases hStep <;> apply h.worker_same hOld <;> trivial
  | completing =>
    cases hStep
    apply h.worker_same hOld <;> trivial
  | completed previous =>
    dsimp only at hStep
    split at hStep <;> cases hStep <;> apply h.worker_same hOld <;> trivial
  | testing tests =>
    cases tests with
    | nil =>
      cases hStep
      apply h.worker_same hOld <;> trivial
    | cons test rest =>
      dsimp only at hStep
      split at hStep <;> cases hStep <;> apply h.worker_same hOld <;> trivial
  | locking =>
    dsimp only at hStep
    split at hStep
    · rename_i hGranted
      cases hStep
      exact locking_inv h hOld hGranted (hBoundary rfl hGranted)
    · cases hStep
      apply h.worker_same hOld <;> trivial
  | loop =>
    dsimp only at hStep
    split at hStep
    · cases hStep
      apply h.worker_same hOld <;> trivial
    · split at hStep <;> cases hStep
      · apply h.worker_same hOld <;> trivial
      · apply h.worker_same hOld <;> trivial
  | awaiting =>
    dsimp only at hStep
    split at hStep
    · cases hStep
      apply h.worker_same hOld <;> trivial
    · split at hStep <;> cases hStep
      apply h.worker_same hOld
      exacts [rfl, Nat.zero_lt_succ _]
  | header bytes =>
    obtain ⟨⟨next, data⟩, hReceive, hStep⟩ := Option.bind_eq_some_iff.mp hStep
    obtain ⟨left, hBytes, rfl, hSome, hLength⟩ := receiveExact_spec hReceive
    dsimp only at hStep
    change bytes.length < headerSize at hSound
    split at hStep
    · rename_i hFull
      cases hStep
      exact headerRead_inv hStream h hOld hBytes hSome hFull
    · rename_i hShort
      cases hStep
      have hLess : bytes.length + data.length < headerSize := by omega
      have hMoved := h.lease_moved (.header (bytes ++ data)) hOld rfl rfl
        (by rw [WorkerSound, List.length_append]; exact hLess) hBytes (run_short rfl hLess)
      rwa [List.append_nil] at hMoved
  | route header decoded bytes =>
    obtain ⟨⟨next, data⟩, hReceive, hStep⟩ := Option.bind_eq_some_iff.mp hStep
    obtain ⟨left, hBytes, rfl, hSome, hLength⟩ := receiveExact_spec hReceive
    dsimp only at hStep
    change bytes.length < decoded.arg1.toNat at hSound
    split at hStep
    · rename_i hFull
      rw [← List.length_append] at hFull
      split at hStep
      · rename_i hNoBody
        cases hStep
        exact requestRead_inv h hOld rfl rfl hBytes hSome (List.append_nil _).symm hFull (by rw [hNoBody]; rfl)
      · rename_i hBody
        cases hStep
        have hPositive := uint32_pos hBody
        exact payloadRead_inv h hOld rfl rfl ⟨hFull, hPositive⟩ rfl rfl hBytes (List.append_nil _) (by
          rw [List.append_nil, hFull]
          omega)
    · rename_i hShort
      cases hStep
      have hLess : (bytes ++ data).length < decoded.arg1.toNat := by
        rw [List.length_append]
        omega
      exact payloadRead_inv h hOld rfl rfl hLess rfl rfl hBytes rfl (Nat.lt_add_right _ hLess)
  | body header decoded route bytes =>
    obtain ⟨⟨next, data⟩, hReceive, hStep⟩ := Option.bind_eq_some_iff.mp hStep
    obtain ⟨left, hBytes, rfl, hSome, hLength⟩ := receiveExact_spec hReceive
    dsimp only at hStep
    obtain ⟨hRoute, hMissing⟩ := hSound
    split at hStep
    · rename_i hFull
      cases hStep
      rw [← List.length_append] at hFull
      exact requestRead_inv h hOld rfl rfl hBytes hSome (List.append_assoc ..) hRoute hFull
    · rename_i hShort
      cases hStep
      have hLess : (bytes ++ data).length < decoded.arg2.toNat := by
        rw [List.length_append]
        omega
      exact payloadRead_inv h hOld rfl rfl ⟨hRoute, hLess⟩ rfl rfl hBytes (List.append_assoc ..).symm (by
        rw [List.length_append]
        omega)
  | accounting requestId =>
    cases hStep
    apply h.worker_same hOld <;> trivial
  | rearm afterwards buffered =>
    dsimp only at hStep
    rw [if_neg hNotClosing] at hStep
    cases hStep
    apply h.worker_same hOld
    exacts [rfl, hSound]
  | rearmRunning afterwards buffered =>
    dsimp only at hStep
    split at hStep <;> cases hStep
    · apply h.worker_same hOld
      exacts [rfl, hSound]
    · exact h.abandon hOld rfl (afterRearm_place _) (afterRearm_sound _)
  | rearmLocked afterwards buffered =>
    cases hStep
    obtain rfl : buffered = [] := hSound
    exact rearmLocked_inv h hOld rfl (afterRearm_place _) (afterRearm_sound _)

end Steps

/-- The lease is taken while the reactor holds no part of a header. -/
def leasesAtBoundary (s : State) : Action → Bool
  | .worker index _ _ _ => s.workers[index]? != some .locking || !leaseGranted s || s.rc.headerReceived == 0
  | _ => true

theorem step_inv {s t : State} {action : Action} (hStream : FixedStream opts stream) (h : Inv opts stream s)
    (hBoundary : leasesAtBoundary s action = true) (hStep : step opts s action = some t) : Inv opts stream t := by
  unfold step at hStep
  cases action with
  | event => exact reactorEvent_inv h hStep
  | resumed => exact processResumed_inv h hStep
  | receive receive =>
    dsimp only at hStep
    split at hStep
    · rename_i hPlain
      exact reactorReceive_inv h hPlain hStep
    · cases hStep
  | pass => exact reactorPass_inv hStream h hStep
  | leave => exact reactorLeave_inv h hStep
  | resume =>
    dsimp only at hStep
    split at hStep <;> cases hStep
    exact resume_inv h _
  | serializedDone =>
    dsimp only at hStep
    split at hStep <;> cases hStep
    exact h.same rfl h.workers
  | exchanged =>
    dsimp only at hStep
    rw [if_neg fun hActive => by rw [h.streamActive] at hActive; cases hActive.1] at hStep
    cases hStep
  | worker index count serialized graceOver =>
    dsimp only at hStep
    split at hStep
    · cases hStep
    · rename_i old hOld
      apply workerStep_inv hStream h hOld _ hStep
      rintro rfl hGranted
      simpa [leasesAtBoundary, hOld, hGranted] using hBoundary
  | stop =>
    cases hStep
    exact h.same rfl h.workers

theorem connected_inv (opts : Options) (stream : List UInt8) (workers : Nat) :
    Inv opts stream (connected stream workers) := by
  have hNone : leases (connected stream workers) = [] := by
    apply List.filterMap_eq_nil_iff.mpr
    intro worker hWorker
    rw [List.eq_of_mem_replicate hWorker]
    rfl
  refine ⟨rfl, rfl, accepted_sound, nofun, ?_, ?_, absurd hNone, nofun, absurd rfl, [], rfl, ?_⟩
  · intro worker hWorker
    rw [List.eq_of_mem_replicate hWorker]
    trivial
  · rw [hNone]
    exact Nat.zero_le _
  · rw [owner_free hNone]
    rfl

theorem inv_of_reached {s : State} (hStream : FixedStream opts stream)
    (h : (machine opts stream).Reached (fun s a => leasesAtBoundary s a = true) s) : Inv opts stream s := by
  apply Machine.Reached.invariant _ _ h
  · rintro s ⟨workers, rfl⟩
    exact connected_inv opts stream workers
  · intro s action t _ hInv hBoundary hStep
    exact step_inv hStream hInv hBoundary hStep

def workerBytes : Worker → List UInt8
  | .header bytes => bytes
  | .route header _ bytes => header ++ bytes
  | .body header _ route bytes => header ++ (route ++ bytes)
  | _ => []

/-- The bytes that were received and belong to no decoded frame. -/
def received (s : State) : List UInt8 := s.workers.flatMap workerBytes ++ unconsumed s.rc

theorem workerBytes_eq (worker : Worker) (version : UInt8) :
    workerBytes worker = (leasePlace worker).toList.flatMap fun place => heldBytes ⟨⟨version, place.1⟩, place.2⟩ := by
  cases worker <;> simp [workerBytes, leasePlace, heldBytes]

theorem workers_bytes (workers : List Worker) (version : UInt8) :
    workers.flatMap workerBytes =
      (workers.filterMap leasePlace).flatMap fun place => heldBytes ⟨⟨version, place.1⟩, place.2⟩ := by
  induction workers with
  | nil => rfl
  | cons worker rest ih =>
    rw [List.flatMap_cons, ih, workerBytes_eq worker version, List.filterMap_cons]
    cases leasePlace worker <;> simp

theorem received_eq {s : State} (h : Inv opts stream s) :
    received s = heldBytes (owner s) ++ unparsed s.rc := by
  rw [received, workers_bytes s.workers s.rc.wireVersion, unconsumed_eq]
  change (leases s).flatMap _ ++ _ = _
  cases hLeases : leases s with
  | nil =>
    rw [owner_free hLeases]
    rfl
  | cons place rest =>
    have hOne := h.one
    rw [hLeases, List.length_cons] at hOne
    obtain rfl : rest = [] := List.length_eq_zero_iff.mp (by omega)
    have hRest := (h.rest (h.owned (by rw [hLeases]; nofun))).2
    rw [owner_leased hLeases, position_atRest hRest, hRest.unparsed]
    simp [heldBytes]

/-- As long as leases are taken between two headers: the connection does not fail, the frames decoded by the
reactor and the workers are the first ones of the stream, in order, and every other byte is held by the
owner or unread. -/
theorem continuation_order (opts : Options) (wireVersion : UInt8) (frames : List Frame)
    (hValid : ∀ frame ∈ frames, frame.Valid opts.toOptions wireVersion) (s : State)
    (h : (machine opts (frames.flatMap (Frame.encode wireVersion))).Reached
      (fun s a => leasesAtBoundary s a = true) s) :
    s.rc.closing = false ∧ ∃ done later : List Frame, frames = done ++ later ∧ s.decoded = done.map Frame.event ∧
      later.flatMap (Frame.encode wireVersion) = received s ++ s.socket ∧
      (received s = [] → s.socket = [] → s.decoded = frames.map Frame.event) := by
  have hInv := inv_of_reached (fixedStream_of_valid hValid) h
  obtain ⟨consumed, hBytes, hRun⟩ := hInv.bytes
  obtain ⟨done, later, part, cursor, rfl, hConsumed, hCut, hDone, hHeld, -⟩ := run_cut hValid hBytes
  obtain ⟨rfl, hDecoded⟩ := Prod.mk.inj (hRun.symm.trans hDone)
  have hReceived : later.flatMap (Frame.encode wireVersion) = received s ++ s.socket := by
    rw [List.flatMap_append, hConsumed, List.append_assoc, List.append_cancel_left_eq] at hBytes
    rw [hBytes, received_eq hInv, hHeld, List.append_assoc]
  refine ⟨hInv.closing, done, later, rfl, hDecoded, hReceived, ?_⟩
  intro hNothing hUnread
  rw [received_eq hInv] at hNothing
  obtain ⟨-, hUnparsed⟩ := List.append_eq_nil_iff.mp hNothing
  rw [hDecoded, (hCut.complete (by rw [hUnparsed, hUnread]; rfl)).1, List.append_nil]

def graceful : Options := { smallMessages with sessionIdleGrace := 1 }

def firstRequest : Frame := .request 7 [97, 98] [99]
def secondRequest : Frame := .request 8 (List.replicate 12 100) [101]

def twoRequests : List Frame := [firstRequest, secondRequest]

def twoRequestBytes : List UInt8 := twoRequests.flatMap (Frame.encode 3)

def untilLease (count : Nat) : List Action :=
  [Action.event true true, .receive (.bytes count none), .receive .wouldBlock] ++
    List.replicate 3 (Action.pass .regular false true) ++ [Action.leave] ++
      List.replicate 9 (Action.worker 0 0 false false)

def leaseAtBoundary : List Action :=
  untilLease 23 ++ List.replicate 4 (Action.worker 0 0 false false) ++
    [Action.worker 0 11 false false, .worker 0 9 false false, .worker 0 12 false false, .worker 0 1 false false]

theorem continuation_order_leased : ∃ s,
    (machine graceful twoRequestBytes).Reached (fun s a => leasesAtBoundary s a = true) s ∧
      s.workers = [.accounting 8] ∧ s.rc.closing = false ∧ s.decoded = twoRequests.map Frame.event := by
  have hValid : ∀ frame ∈ twoRequests, frame.Valid graceful.toOptions 3 := by
    simp [twoRequests, firstRequest, secondRequest, Frame.Valid, graceful, smallMessages, cancellableVersion]
  obtain ⟨s, hReached, hWorkers, hReceived, hSocket⟩ := Machine.exists_reached_of_exec
    (fun s => s.workers = [.accounting 8] ∧ received s = [] ∧ s.socket = []) leasesAtBoundary leaseAtBoundary
    (M := machine graceful twoRequestBytes) ⟨1, rfl⟩ (by decide)
  obtain ⟨hOpen, done, later, -, -, -, hAll⟩ := continuation_order graceful 3 twoRequests hValid s hReached
  exact ⟨s, hReached, hWorkers, hOpen, hAll hReceived hSocket⟩

/-- The reactor has ten bytes of the second header when the lease is taken. The worker takes the next
twenty bytes for a header. -/
def leaseWithinHeader : List Action :=
  untilLease 33 ++ List.replicate 4 (Action.worker 0 0 false false) ++ [Action.worker 0 20 false false]

theorem header_lost_at_lease : ∃ s, (machine graceful twoRequestBytes).Reachable s ∧ s.rc.closing = true ∧
    s.decoded = [firstRequest.event] ∧ (received s ++ s.socket).length < (secondRequest.encode 3).length :=
  Machine.exists_reachable_of_exec _ leaseWithinHeader ⟨1, rfl⟩ (by decide)

end EasyUds.Reactor.ContinuationOrder

import EasyUds.Reactor.ParserFrames

/-! # Parsing under a strict budget

With a limit on the bytes in flight, the parser asks for the rest of the current block and no more, and
for the payload of a frame only when its bytes are reserved. It may stop in front of a payload and go on
in a later call. It passes on what the parser without a limit passes on.
-/

namespace EasyUds.Reactor.StrictBudget

open Lib Protocol.Codec Reactor.Parser Reactor.ParserCalls Reactor.ParserFrames

open Reactor.ParserDecode (Buffered Ready heldBytes position unconsumed unconsumed_eq unparsed_length
  available_of_unparsed requestSize_pos headerPass_eq payloadPass_eq streamPass_eq retryBudget_cases)

structure State where
  calls : ParserCalls.State
  dispatched : List Event
  deriving DecidableEq, Repr

def passed : Pass → List Event
  | .again _ events | .stop _ events => events
  | .threw _ _ => []

def dispatches (opts : Options) (s : ParserCalls.State) : Action → List Event
  | .pass answer => passed (parsePass opts answer s.rc)
  | _ => []

/-- What a worker reads under a lease is not read by the parser. -/
def step (opts : Options) (stream : Stream) (s : State) : Action → Option State
  | .rearm _ _ _ => none
  | action => (ParserCalls.step opts stream s.calls action).map fun calls =>
      { calls, dispatched := s.dispatched ++ dispatches opts s.calls action }

/-- The connection has been given back to the reactor with the `buffered` bytes, or was just accepted. -/
def rearmed (seen : UInt8) (buffered : Stream) : State where
  calls :=
    { ParserCalls.start with
      rc := { accepted with wireVersion := seen, pending := buffered.map Prod.fst }
      received := buffered.length }
  dispatched := []

def start : State := rearmed 0 []

/-- A worker gives back bytes that the reactor had read ahead, or a header. It receives no descriptors, and
with a budget nothing is read ahead. -/
def machine (opts : Options) (seen : UInt8) (stream : Stream) : Machine State Action where
  initial s := ∃ buffered, buffered <+: stream ∧ buffered.filterMap Prod.snd = [] ∧
    (opts.strictBudget = true → buffered = []) ∧ s = rearmed seen buffered
  step := step opts stream

theorem start_initial {opts : Options} {stream : Stream} : (machine opts 0 stream).initial start :=
  ⟨[], List.nil_prefix, rfl, fun _ => rfl, rfl⟩

variable {readAhead : Nat} {action : Action}

theorem step_cases {opts : Options} {stream : Stream} {s t : State} (h : step opts stream s action = some t) :
    Step opts stream s.calls action t.calls ∧ t.dispatched = s.dispatched ++ dispatches opts s.calls action ∧
      ∀ taken replayed busy, action ≠ .rearm taken replayed busy := by
  cases action with
  | rearm taken replayed busy => cases h
  | enter | receive | pass | resume | close =>
    simp only [step] at h
    obtain ⟨calls, hStep, rfl⟩ := Option.map_eq_some_iff.mp h
    exact ⟨ParserCalls.step_cases hStep, rfl, nofun⟩

def unlimited (opts : Options) : Options := { opts with maxTotalInflightBytes := 0 }

structure Tight (rc : ReactorConnection) : Prop where
  fits : available rc ≤ missing rc
  payload : rc.phase = .requestPayload → rc.reservedRequestBytes = rc.payloadTotal
  route : rc.phase = .streamRoute → rc.reservedRequestBytes = rc.arg1.toNat

def Admitted (rc : ReactorConnection) : Prop := (unconsumed rc).length ≤ headerSize + rc.reservedRequestBytes

section Passes

variable {opts : Options} {answer : Answer} {rc : ReactorConnection}

theorem Tight.admitted (h : Tight rc) (hHeader : rc.header.length = headerSize) (hBuffered : Buffered rc) :
    Admitted rc := by
  have hFits := h.fits
  rw [Admitted, unconsumed, List.length_append, unparsed_length]
  cases hPhase : rc.phase with
  | header =>
    simp only [missing, hPhase] at hFits
    simp only [Buffered, hPhase] at hBuffered
    rw [List.length_take]
    omega
  | requestBudget | streamBudget =>
    simp only [missing, hPhase] at hFits
    dsimp only
    omega
  | requestPayload =>
    simp only [missing, hPhase] at hFits
    simp only [Buffered, hPhase] at hBuffered
    have hReserved := h.payload hPhase
    simp only [List.length_append]
    omega
  | streamRoute =>
    simp only [missing, hPhase] at hFits
    simp only [Buffered, hPhase] at hBuffered
    have hReserved := h.route hPhase
    simp only [List.length_append]
    omega

def TightPass : Pass → Prop
  | .again next _ => Tight next
  | .stop next _ => Admitted next ∧ (next.streamActive = false → next.closing = false → Tight next)
  | .threw next _ => Admitted next

theorem admitted_boundary (hPhase : rc.phase = .header) (hReceived : rc.headerReceived = 0)
    (hEmpty : unparsed rc = []) : Admitted rc := by
  rw [Admitted, unconsumed, hEmpty, hPhase, hReceived]
  exact Nat.zero_le _

theorem tight_empty (hEmpty : unparsed rc = [])
    (hPayload : rc.phase = .requestPayload → rc.reservedRequestBytes = rc.payloadTotal)
    (hRoute : rc.phase = .streamRoute → rc.reservedRequestBytes = rc.arg1.toNat) : Tight rc where
  fits := by
    rw [available_of_unparsed hEmpty]
    exact Nat.zero_le _
  payload := hPayload
  route := hRoute

theorem tight_boundary (hPhase : rc.phase = .header) (hEmpty : unparsed rc = []) : Tight rc :=
  tight_empty hEmpty (by rw [hPhase]; exact nofun) (by rw [hPhase]; exact nofun)

/-- A chunk with all that is missing is all that was received. -/
theorem Tight.rest_nil {chunk rest : List UInt8} (h : Tight rc) (hBytes : unparsed rc = chunk ++ rest)
    (hFull : missing rc ≤ chunk.length) : rest = [] := by
  have hFits := h.fits
  rw [← unparsed_length, hBytes, List.length_append] at hFits
  exact List.length_eq_zero_iff.mp (by omega)

theorem wholeHeader_tight (hStrict : opts.strictBudget = true) (hHeader : rc.header.length = headerSize)
    (hPhase : rc.phase = .header) (hReceived : rc.headerReceived = 0) (hEmpty : unparsed rc = []) :
    TightPass (wholeHeader opts answer rc) := by
  have hStops : ∀ next : ReactorConnection, next.header = rc.header → unparsed next = [] →
      next.phase = .requestBudget ∨ next.phase = .streamBudget →
      Admitted next ∧ (next.streamActive = false → next.closing = false → Tight next) := by
    intro next hSame hNone hBudget
    constructor
    · rw [Admitted, unconsumed, hNone, List.append_nil]
      obtain hNext | hNext := hBudget <;> rw [hNext, hSame, hHeader] <;> exact Nat.le_add_right _ _
    · intro _ _
      apply tight_empty hNone <;> obtain hNext | hNext := hBudget <;> rw [hNext] <;> exact nofun
  unfold wholeHeader
  split
  · exact admitted_boundary hPhase hReceived hEmpty
  · dsimp only
    split
    · exact admitted_boundary hPhase hReceived hEmpty
    · exact tight_boundary hPhase hEmpty
    · unfold startRequest beginRequestPayload
      cases hReserved : answer.reserved with
      | true =>
        simp only [hStrict, Bool.not_true, Bool.and_false, Bool.false_eq_true, if_false, if_true]
        exact tight_empty hEmpty (fun _ => rfl) nofun
      | false =>
        simp only [hStrict, Bool.not_false, Bool.and_true, if_true]
        exact hStops _ rfl hEmpty (.inl rfl)
    · unfold startStream beginStreamRoute
      cases hReserved : answer.reserved with
      | true =>
        simp only [hStrict, Bool.not_true, Bool.and_false, Bool.false_eq_true, if_false, if_true]
        exact tight_empty hEmpty nofun fun _ => rfl
      | false =>
        simp only [hStrict, Bool.not_false, Bool.and_true, if_true]
        exact hStops _ rfl hEmpty (.inr rfl)

section Phases

variable (h : Tight rc) (hHeader : rc.header.length = headerSize)
  (hOffset : rc.pendingOffset ≤ rc.pending.length) (hBuffered : Buffered rc)
include h hHeader hOffset hBuffered

theorem headerPass_tight (hStrict : opts.strictBudget = true) (hPhase : rc.phase = .header) :
    TightPass (headerPass opts answer rc) := by
  simp only [Buffered, hPhase] at hBuffered
  obtain ⟨chunk, pending, offset, hBytes, hBound, hCases⟩ := headerPass_eq opts answer hHeader hOffset hBuffered
  obtain ⟨hPart, hNothing, header, hLength, hFront, hPass⟩ | ⟨hWhole, hPass⟩ := hCases
  · rw [hPass]
    have hTight : Tight { rc with
        header
        headerReceived := rc.headerReceived + chunk.length
        pending
        pendingOffset := offset } := tight_boundary hPhase hNothing
    refine ⟨hTight.admitted hLength ?_, fun _ _ => hTight⟩
    simp only [Buffered, hPhase]
    exact hPart
  · rw [hPass]
    have hNothing := h.rest_nil hBytes (by simp only [missing, hPhase]; omega)
    refine wholeHeader_tight hStrict ?_ hPhase rfl hNothing
    dsimp only
    rw [List.length_append, List.length_take, hHeader]
    omega

theorem payloadPass_tight (hPhase : rc.phase = .requestPayload) : TightPass (payloadPass opts answer rc) := by
  simp only [Buffered, hPhase] at hBuffered
  obtain ⟨hReceived, hTotal, hMissing, hRoute, hBody⟩ := hBuffered
  obtain ⟨chunk, route, body, pending, offset, hBytes, hBound, hJoin, hRouteNext, hBodyNext, hCases⟩ :=
    payloadPass_eq opts answer hOffset hMissing hRoute hBody
  obtain ⟨hPart, hNothing, hPass⟩ | ⟨hFull, hPass⟩ := hCases
  · rw [hPass]
    have hTight : Tight { rc with
        routeBuffer := route
        bodyBuffer := body
        payloadReceived := rc.payloadReceived + chunk.length
        pending
        pendingOffset := offset } := tight_empty hNothing (fun _ => h.payload hPhase) (by rw [hPhase]; simp)
    refine ⟨hTight.admitted hHeader ?_, fun _ _ => hTight⟩
    simp only [Buffered, hPhase]
    exact ⟨hReceived, hTotal, hPart, hRouteNext, hBodyNext⟩
  · have hNothing := h.rest_nil hBytes (by simp only [missing, hPhase]; omega)
    rw [hPass]
    unfold dispatchRequest
    dsimp only
    split
    · change (unconsumed _).length ≤ _
      rw [unconsumed]
      simp only [hPhase, List.append_nil, unparsed, hNothing, hHeader]
      exact Nat.le_refl _
    · exact ⟨admitted_boundary rfl hReceived hNothing, fun _ _ => tight_boundary rfl hNothing⟩
    · exact tight_boundary rfl hNothing

theorem streamPass_tight (hPhase : rc.phase = .streamRoute) : TightPass (streamPass opts answer rc) := by
  simp only [Buffered, hPhase] at hBuffered
  obtain ⟨chunk, pending, offset, hBytes, hBound, hCases⟩ := streamPass_eq opts answer hOffset hBuffered.2
  obtain ⟨hPart, hNothing, hPass⟩ | ⟨hFull, hPass⟩ := hCases
  · rw [hPass]
    have hTight : Tight { rc with routeBuffer := rc.routeBuffer ++ chunk, pending, pendingOffset := offset } :=
      tight_empty hNothing (by rw [hPhase]; simp) fun _ => h.route hPhase
    refine ⟨hTight.admitted hHeader ?_, fun _ _ => hTight⟩
    simp only [Buffered, hPhase, List.length_append]
    exact ⟨hBuffered.1, hPart⟩
  · have hNothing := h.rest_nil hBytes (by simp only [missing, hPhase]; omega)
    have hReserved := h.route hPhase
    rw [hPass]
    unfold dispatchStream
    dsimp only
    split
    all_goals
      refine ⟨?_, by simp⟩
      rw [Admitted, unconsumed]
    · simp only [hPhase, List.append_nil, unparsed, List.drop_nil, hHeader]
      exact Nat.le_refl _
    · simp only [hPhase, List.length_append, unparsed, hNothing, List.length_nil, hHeader]
      omega

theorem parsePass_tight (hStrict : opts.strictBudget = true) (hReady : Ready rc) :
    TightPass (parsePass opts answer rc) := by
  rw [parsePass]
  cases hPhase : rc.phase with
  | requestBudget => exact absurd hPhase hReady.1
  | streamBudget => exact absurd hPhase hReady.2
  | header => exact headerPass_tight h hHeader hOffset hBuffered hStrict hPhase
  | requestPayload => exact payloadPass_tight h hHeader hOffset hBuffered hPhase
  | streamRoute => exact streamPass_tight h hHeader hOffset hBuffered hPhase

end Phases

theorem retryBudget_tight (hStrict : opts.strictBudget = true) (h : Tight rc) :
    Tight (retryBudget opts answer rc).1 := by
  have hFits := h.fits
  have hRetried := retryBudget_cases opts answer rc
  generalize retryBudget opts answer rc = retried at hRetried ⊢
  cases hRetried with
  | ready => exact h
  | refused => exact ⟨hFits, h.payload, h.route⟩
  | request hPhase =>
    simp only [missing, hPhase] at hFits
    exact ⟨Nat.le_trans hFits (Nat.zero_le _), fun _ => if_pos hStrict, by simp⟩
  | stream hPhase =>
    simp only [missing, hPhase] at hFits
    exact ⟨Nat.le_trans hFits (Nat.zero_le _), by simp, fun _ => if_pos hStrict⟩

theorem appendPending_tight {data : List UInt8} {fd : Option Nat} (hStrict : opts.strictBudget = true) (h : Tight rc)
    (hOffset : rc.pendingOffset ≤ rc.pending.length) (hReady : Ready rc)
    (hSize : data.length ≤ requestSize opts rc readAhead) : Tight (appendPending rc data fd) := by
  have hFits := h.fits
  have hLength := congrArg List.length (appendPending_unparsed data fd hOffset).1
  rw [unparsed_length, List.length_append, unparsed_length] at hLength
  refine ⟨?_, h.payload, h.route⟩
  change available (appendPending rc data fd) ≤ missing rc
  rw [hLength]
  simp only [requestSize, hStrict, if_true] at hSize
  unfold missing at hFits ⊢
  cases hPhase : rc.phase with
  | header | requestPayload | streamRoute =>
    simp only [hPhase] at hSize hFits ⊢
    omega
  | requestBudget => exact absurd hPhase hReady.1
  | streamBudget => exact absurd hPhase hReady.2

end Passes

inductive Live (opts : Options) (wireVersion seen : UInt8) (later : List Frame) (part ahead : Stream)
    (calls : ParserCalls.State) : Prop
  | parsing : Stands wireVersion seen later part ahead calls.rc → (calls.call ≠ .idle → Ready calls.rc) →
      (opts.strictBudget = true → Tight calls.rc) → Live opts wireVersion seen later part ahead calls
  | streaming : calls.rc.streamActive = true → calls.call = .idle → later = [] →
      Live opts wireVersion seen later part ahead calls

structure Inv {opts : Options} {wireVersion seen : UInt8} (sent : Sent opts wireVersion seen) (s : State)
    (done later : List Frame) (part ahead socket : Stream) : Prop where
  frames : sent.frames = done ++ later
  bytes : later.flatMap (Frame.elements wireVersion) = part ++ ahead ++ socket
  received : s.calls.received = (done.flatMap (Frame.elements wireVersion)).length + (part ++ ahead).length
  dispatched : s.dispatched = done.flatMap Frame.events
  live : s.calls.call ≠ .closed → Live opts wireVersion (observed wireVersion seen done) later part ahead s.calls
  admitted : opts.strictBudget = true → Admitted s.calls.rc
  within : opts.strictBudget = true → ∀ frame ∈ later.head?,
    (part ++ ahead).length ≤ (frame.elements wireVersion).length

section Runs

variable {opts : Options} {wireVersion seen : UInt8} {sent : Sent opts wireVersion seen} {s t : State}
  {done later : List Frame} {part ahead socket : Stream}
variable {calls : ParserCalls.State} {rc : ReactorConnection}

theorem Inv.valid (h : Inv sent s done later part ahead socket) (frame : Frame) (rest : List Frame)
    (hLater : later = frame :: rest) :
    frame.Valid opts wireVersion (observed wireVersion seen done) ∧ (frame.ends = true → rest = []) :=
  sent.valid done frame rest (h.frames.trans (by rw [hLater]))

theorem Inv.coming (h : Inv sent s done later part ahead socket) :
    Coming opts wireVersion (observed wireVersion seen done) later (part ++ ahead ++ socket) where
  valid := h.valid
  bytes := h.bytes
  known := by
    cases done with
    | nil => exact sent.known
    | cons => exact .inr rfl

theorem Stands.within {frame : Frame} {rest : List Frame}
    (h : Stands wireVersion seen (frame :: rest) part ahead rc) (hTight : Tight rc)
    (hValid : frame.Valid opts wireVersion seen) : (part ++ ahead).length ≤ (frame.elements wireVersion).length := by
  have hAhead : ahead.length = available rc := by rw [← List.length_map Prod.fst, h.bytesAhead, unparsed_length]
  have hFits := hTight.fits
  have hPart := (h.part_missing hValid).1
  rw [List.length_append]
  omega

theorem Inv.stands {dispatched : List Event} (hFrames : sent.frames = done ++ later)
    (hBytes : later.flatMap (Frame.elements wireVersion) = part ++ ahead ++ socket)
    (hReceived : calls.received = (done.flatMap (Frame.elements wireVersion)).length + (part ++ ahead).length)
    (hDispatched : dispatched = done.flatMap Frame.events)
    (hStands : Stands wireVersion (observed wireVersion seen done) later part ahead calls.rc)
    (hReady : calls.call ≠ .idle → Ready calls.rc)
    (hTight : opts.strictBudget = true → Tight calls.rc) :
    Inv sent ⟨calls, dispatched⟩ done later part ahead socket where
  frames := hFrames
  bytes := hBytes
  received := hReceived
  dispatched := hDispatched
  live := fun _ => .parsing hStands hReady hTight
  admitted := fun hStrict => (hTight hStrict).admitted hStands.header hStands.buffered
  within := fun hStrict frame hFrame => by
    obtain ⟨rest, rfl⟩ := List.head?_eq_some_iff.mp hFrame
    exact Stands.within hStands (hTight hStrict) (sent.valid done frame rest hFrames).1

theorem Inv.closed (h : Inv sent s done later part ahead socket) (hReceived : calls.received = s.calls.received)
    (hCall : calls.call = .closed) (hAdmitted : opts.strictBudget = true → Admitted calls.rc) :
    Inv sent ⟨calls, s.dispatched⟩ done later part ahead socket where
  frames := h.frames
  bytes := h.bytes
  received := hReceived.trans h.received
  dispatched := h.dispatched
  live := fun hOpen => absurd hCall hOpen
  admitted := hAdmitted
  within := h.within

theorem Inv.start {buffered rest : Stream} (hStream : sent.stream = buffered ++ rest)
    (hPlain : buffered.filterMap Prod.snd = []) (hStrict : opts.strictBudget = true → buffered = []) :
    Inv sent (rearmed seen buffered) [] sent.frames [] buffered rest :=
  .stands rfl hStream (Nat.zero_add _).symm rfl
    ⟨rfl, Nat.zero_le _, Nat.zero_lt_succ _, rfl, rfl, hPlain.symm, ⟨rfl, rfl⟩, rfl, rfl⟩ (fun h => absurd rfl h)
    fun h => tight_boundary rfl (by rw [hStrict h]; rfl)

def Holds (sent : Sent opts wireVersion seen) (s : State) : Prop :=
  ∃ done later part ahead socket, Inv sent s done later part ahead socket

theorem Inv.stream_eq (h : Inv sent s done later part ahead socket) :
    sent.stream = (done.flatMap (Frame.elements wireVersion) ++ (part ++ ahead)) ++ socket := by
  rw [Sent.stream, h.frames, List.flatMap_append, h.bytes]
  simp only [List.append_assoc]

theorem Live.stands (h : Live opts wireVersion seen later part ahead calls)
    (hReading : calls.call ≠ .idle ∨ calls.rc.streamActive = false) :
    Stands wireVersion seen later part ahead calls.rc ∧ (calls.call ≠ .idle → Ready calls.rc) ∧
      (opts.strictBudget = true → Tight calls.rc) := by
  cases h with
  | parsing hStands hReady hTight => exact ⟨hStands, hReady, hTight⟩
  | streaming hStream hIdle _ =>
    obtain hBusy | hNone := hReading
    · exact absurd hIdle hBusy
    · rw [hNone] at hStream
      cases hStream

theorem Inv.enter (h : Inv sent s done later part ahead socket) (answer : Answer) (hIdle : s.calls.call = .idle)
    (hStream : s.calls.rc.streamActive = false) :
    Inv sent
      ⟨{ s.calls with
          rc := (retryBudget opts answer s.calls.rc).1
          call := if (retryBudget opts answer s.calls.rc).2 then .reading 0 else .idle }, s.dispatched⟩
      done later part ahead socket := by
  obtain ⟨hStands, -, hTight⟩ := (h.live (by rw [hIdle]; exact nofun)).stands (.inr hStream)
  obtain ⟨hNext, hReady, -⟩ := retryBudget_spec opts answer hStands
  refine .stands h.frames h.bytes h.received h.dispatched hNext (fun hBusy => hReady ?_)
    fun hStrict => retryBudget_tight hStrict (hTight hStrict)
  by_contra hNot
  exact hBusy (if_neg hNot)

theorem Inv.receive (h : Inv sent s done later part ahead socket) {next : ParserCalls.State}
    (hCall : s.calls.call = .reading readAhead) (hReceives : Receives opts sent.stream s.calls readAhead next) :
    ∃ more rest, socket = more ++ rest ∧ Inv sent ⟨next, s.dispatched⟩ done later part (ahead ++ more) rest := by
  have hBusy : s.calls.call ≠ .idle := by rw [hCall]; exact nofun
  obtain ⟨hStands, hReady, hTight⟩ := (h.live (by rw [hCall]; exact nofun)).stands (.inl hBusy)
  cases hReceives with
  | nothing call hNext =>
    refine ⟨[], socket, rfl, ?_⟩
    rw [List.append_nil]
    exact .stands h.frames h.bytes h.received h.dispatched hStands (fun _ => hReady hBusy) hTight
  | closed closing =>
    refine ⟨[], socket, rfl, ?_⟩
    rw [List.append_nil]
    exact h.closed rfl rfl h.admitted
  | some data fd hSome hData hEnd hFd hSize =>
    have hSegment : segment sent.stream s.calls.received (s.calls.received + data.length) =
        socket.take data.length := by
      rw [h.stream_eq, h.received, ← List.length_append]
      exact segment_behind _ _ _
    rw [ParserCalls.bytes, hSegment] at hData
    rw [attached, hSegment] at hFd
    have hLength : (socket.take data.length).length = data.length := by
      have := congrArg List.length hData
      rw [List.length_map] at this
      exact this.symm
    refine ⟨socket.take data.length, socket.drop data.length, (List.take_append_drop _ _).symm,
      .stands h.frames ?_ ?_ h.dispatched ?_ (fun _ => hReady hBusy) fun hStrict =>
        appendPending_tight hStrict (hTight hStrict) hStands.offset (hReady hBusy) hSize⟩
    · rw [h.bytes, ← List.append_assoc, List.append_assoc, List.append_assoc, List.take_append_drop, List.append_assoc]
    · dsimp only
      simp only [h.received, List.length_append, hLength]
      omega
    · have hNext := hStands.append hFd
      rwa [← hData] at hNext

theorem Goes.layout {events : List Event} {finished rest : List Frame} {held left : Stream}
    (h : Inv sent s done later part ahead socket)
    (hGoes : Goes wireVersion later part ahead events finished rest held left) :
    sent.frames = (done ++ finished) ++ rest ∧
      rest.flatMap (Frame.elements wireVersion) = held ++ left ++ socket ∧
      s.calls.received = ((done ++ finished).flatMap (Frame.elements wireVersion)).length + (held ++ left).length ∧
      s.dispatched ++ events = (done ++ finished).flatMap Frame.events := by
  have hBytes := h.bytes
  rw [hGoes.frames, List.flatMap_append, hGoes.bytes, List.append_assoc, List.append_cancel_left_eq] at hBytes
  refine ⟨by rw [h.frames, hGoes.frames, List.append_assoc], hBytes, ?_, ?_⟩
  · simp only [h.received, hGoes.bytes, List.flatMap_append, List.length_append]
    omega
  · rw [h.dispatched, hGoes.events, List.flatMap_append]

def Advances (sent : Sent opts wireVersion seen) (ahead left : Stream) (t : State) : Prop :=
  t.dispatched = sent.events ∨
    (t.calls.call ≠ .closed ∧ left.length ≤ ahead.length ∧ (ahead ≠ [] → left.length < ahead.length) ∧
      (ahead = [] → t.calls.call = .idle))

theorem Inv.pass (h : Inv sent s done later part ahead socket) (answer : Answer) (hCall : s.calls.call = .parsing) :
    ∃ done later held left,
      Inv sent ⟨passStep opts answer s.calls, s.dispatched ++ passed (parsePass opts answer s.calls.rc)⟩ done
        later held left socket ∧
      (answer = granted → Advances sent ahead left
        ⟨passStep opts answer s.calls, s.dispatched ++ passed (parsePass opts answer s.calls.rc)⟩) := by
  obtain ⟨hStands, hReady, hTight⟩ := (h.live (by rw [hCall]; exact nofun)).stands (.inl (by rw [hCall]; exact nofun))
  replace hReady := hReady (by rw [hCall]; exact nofun)
  have hSpec := @parsePass_spec opts answer wireVersion _ later part ahead socket s.calls.rc hStands hReady h.coming
  have hTightPass : opts.strictBudget = true → TightPass (parsePass opts answer s.calls.rc) := fun hStrict =>
    parsePass_tight (hTight hStrict) hStands.header hStands.offset hStands.buffered hStrict hReady
  rw [passStep]
  generalize parsePass opts answer s.calls.rc = pass at hSpec hTightPass
  cases pass with
  | threw next error =>
    refine ⟨done, later, part, ahead, ?_, fun hGranted => .inl ?_⟩
    · rw [passed, List.append_nil]
      exact h.closed rfl rfl hTightPass
    · obtain ⟨header, others, rfl⟩ := hSpec hGranted
      rw [passed, List.append_nil, Sent.events, h.frames, List.flatMap_append]
      exact h.dispatched.trans (List.append_nil _).symm
  | again next events =>
    obtain ⟨hSome, hNext, finished, rest, held, left, hGoes, hLands⟩ := hSpec
    obtain ⟨hFrames, hBytes, hReceived, hDispatched⟩ := Goes.layout h hGoes
    rw [observed_append] at hLands
    refine ⟨_, rest, held, left, .stands hFrames hBytes hReceived hDispatched hLands (fun _ => hNext) hTightPass,
      fun _ => .inr ⟨?_, hGoes.shorter.1, hGoes.shorter.2, fun hNone => absurd hNone hSome⟩⟩
    change s.calls.call ≠ .closed
    rw [hCall]
    exact nofun
  | stop next events =>
    obtain ⟨finished, rest, held, left, hGoes, hLands⟩ | ⟨hGoes, hEnded, hTaken⟩ := hSpec
    · obtain ⟨hFrames, hBytes, hReceived, hDispatched⟩ := Goes.layout h hGoes
      rw [observed_append] at hLands
      have hIdle : (s.calls.land (.stop next events)).call = .idle := if_neg (by rw [hLands.closing]; exact nofun)
      exact ⟨_, rest, held, left, .stands hFrames hBytes hReceived hDispatched hLands (fun hBusy => absurd hIdle hBusy)
        fun hStrict => (hTightPass hStrict).2 hLands.streamActive hLands.closing,
        fun _ => .inr ⟨by rw [hIdle]; exact nofun, hGoes.shorter.1, hGoes.shorter.2, fun _ => hIdle⟩⟩
    · obtain ⟨hFrames, hBytes, hReceived, hDispatched⟩ := Goes.layout h hGoes
      refine ⟨_, [], [], [], ⟨hFrames, hBytes, hReceived, hDispatched, fun hOpen => ?_,
        fun hStrict => (hTightPass hStrict).1, fun _ => nofun⟩, fun _ => .inl ?_⟩
      · have hClosing : next.closing = false := by
          by_contra hNot
          exact hOpen (if_pos (Bool.not_eq_false _ ▸ hNot))
        exact .streaming (hEnded.resolve_right (by rw [hClosing]; exact nofun))
          (if_neg (by rw [hClosing]; exact nofun)) rfl
      · rw [Sent.events, h.frames]
        exact hDispatched

theorem Holds.next (h : Holds sent s) (hStep : step opts sent.stream s action = some t) : Holds sent t := by
  obtain ⟨done, later, part, ahead, socket, hInv⟩ := h
  obtain ⟨calls, dispatched⟩ := t
  obtain ⟨hCalls, hDispatched, hOwn⟩ := step_cases hStep
  dsimp only at hCalls hDispatched
  subst hDispatched
  cases hCalls with
  | enter answer hIdle hStream =>
    rw [show s.dispatched ++ dispatches opts s.calls _ = s.dispatched from List.append_nil _]
    exact ⟨done, later, part, ahead, socket, hInv.enter answer hIdle hStream⟩
  | receive readAhead receive hCall hDelivered =>
    rw [show s.dispatched ++ dispatches opts s.calls _ = s.dispatched from List.append_nil _]
    have hReceived : s.calls.received ≤ sent.stream.length := by
      rw [hInv.stream_eq, List.length_append, List.length_append, hInv.received]
      omega
    obtain ⟨more, rest, -, hNext⟩ := hInv.receive hCall (receiveStep_receives hReceived hDelivered)
    exact ⟨done, later, part, _, rest, hNext⟩
  | pass answer hCall =>
    obtain ⟨_, _, _, _, hNext, -⟩ := hInv.pass answer hCall
    exact ⟨_, _, _, _, socket, hNext⟩
  | resume hIdle =>
    rw [show s.dispatched ++ dispatches opts s.calls _ = s.dispatched from List.append_nil _]
    refine ⟨done, later, part, ahead, socket, hInv.frames, hInv.bytes, hInv.received, hInv.dispatched, fun hOpen => ?_,
      hInv.admitted, hInv.within⟩
    cases hInv.live hOpen with
    | parsing hStands hReady hTight =>
      exact .parsing (hStands.paused false) hReady fun hStrict =>
        ⟨(hTight hStrict).fits, (hTight hStrict).payload, (hTight hStrict).route⟩
    | streaming hStream hIdle hEnd => exact .streaming hStream hIdle hEnd
  | rearm taken replayed busy => exact absurd rfl (hOwn taken replayed busy)
  | close =>
    rw [show s.dispatched ++ dispatches opts s.calls _ = s.dispatched from List.append_nil _]
    exact ⟨done, later, part, ahead, socket, hInv.closed rfl rfl hInv.admitted⟩

theorem reachable_holds (sent : Sent opts wireVersion seen) (h : (machine opts seen sent.stream).Reachable s) :
    Holds sent s := by
  refine h.invariant (I := Holds sent) ?_ fun _ _ _ _ hHolds _ hStep => hHolds.next hStep
  rintro s ⟨buffered, ⟨rest, hStream⟩, hPlain, hStrict, rfl⟩
  exact ⟨_, _, _, _, _, .start hStream.symm hPlain hStrict⟩

structure Finished (stream : Stream) (s : State) : Prop where
  idle : s.calls.call = .idle
  received : s.calls.received = stream.length
  unparsed : unparsed s.calls.rc = []

section Parsing

variable (h : Inv sent s done later part ahead socket)
include h

theorem Inv.socket_nil (hReceived : s.calls.received = sent.stream.length) : socket = [] := by
  rw [h.received, h.stream_eq] at hReceived
  simp only [List.length_append] at hReceived
  exact List.length_eq_zero_iff.mp (by omega)

theorem Inv.events_eq (hLater : later = []) : s.dispatched = sent.events := by
  rw [h.dispatched, Sent.events, h.frames, hLater, List.append_nil]

theorem Inv.finished (hFinished : Finished sent.stream s) : s.dispatched = sent.events := by
  apply h.events_eq
  cases h.live (by rw [hFinished.idle]; exact nofun) with
  | streaming _ _ hEnd => exact hEnd
  | parsing hStands _ _ =>
    obtain rfl := h.socket_nil hFinished.received
    obtain rfl : ahead = [] := List.map_eq_nil_iff.mp (hStands.bytesAhead.trans hFinished.unparsed)
    exact hStands.complete h.coming

theorem step_wouldBlock (hCall : s.calls.call = .reading readAhead) :
    step opts sent.stream s (.receive .wouldBlock) = some ⟨{ s.calls with call := .parsing }, s.dispatched⟩ := by
  have hReceived : sent.stream.length - (ParserCalls.bytes sent.stream s.calls.received sent.stream.length).length =
      s.calls.received := by
    rw [length_bytes (Nat.le_refl _), h.stream_eq, h.received]
    simp only [List.length_append]
    omega
  simp only [step, ParserCalls.step, hCall, receiveStep, readPass_wouldBlock, delivered, if_true, hReceived,
    Option.map_some, dispatches, List.append_nil]

theorem Inv.parse_on (hCall : s.calls.call = .parsing) :
    ∃ t done later held left, step opts sent.stream s (.pass granted) = some t ∧
      Inv sent t done later held left socket ∧ Advances sent ahead left t := by
  obtain ⟨done, later, held, left, hNext, hAdvances⟩ := h.pass granted hCall
  refine ⟨_, done, later, held, left, ?_, hNext, hAdvances rfl⟩
  simp only [step, ParserCalls.step, hCall, if_true, Option.map_some, dispatches]

end Parsing

theorem Inv.receive_one {element : UInt8 × Option Nat} (h : Inv sent s done later part [] (element :: socket))
    (hCall : s.calls.call = .reading 0) :
    ∃ t readAhead, step opts sent.stream s (.receive (.bytes 1 element.2)) = some t ∧
      Inv sent t done later part [element] socket ∧ (t.calls.call = .parsing ∨ t.calls.call = .reading readAhead) := by
  have hBusy : s.calls.call ≠ .idle := by rw [hCall]; exact nofun
  obtain ⟨hStands, hReady, -⟩ := (h.live (by rw [hCall]; exact nofun)).stands (.inl hBusy)
  have hSize : 1 ≤ requestSize opts s.calls.rc 0 :=
    requestSize_pos hStands.buffered (hReady hBusy) hStands.bytesAhead.symm
  have hFront : s.calls.received = (done.flatMap (Frame.elements wireVersion) ++ (part ++ [])).length :=
    h.received.trans List.length_append.symm
  have hSocket : ParserCalls.bytes sent.stream s.calls.received sent.stream.length =
      element.1 :: socket.map Prod.fst := by
    rw [ParserCalls.bytes, segment_to_end, hFront, h.stream_eq, List.drop_left, List.map_cons]
  have hAttached : attached sent.stream s.calls.received (s.calls.received + 1) = element.2.toList := by
    rw [attached, hFront, h.stream_eq, segment_behind, List.take_succ_cons, List.take_zero]
    obtain ⟨byte, fd⟩ := element
    cases fd <;> rfl
  have hLength : sent.stream.length - (socket.map Prod.fst).length = s.calls.received + 1 := by
    rw [h.stream_eq, hFront, List.length_map]
    simp only [List.length_append, List.length_cons]
    omega
  have hNext : receiveStep opts sent.stream s.calls 0 (.bytes 1 element.2) =
      { s.calls with
        rc := appendPending s.calls.rc [element.1] element.2
        received := s.calls.received + 1
        call := if opts.strictBudget then .parsing else .reading 1 } := by
    have hAsked : ¬(reactorReadBatchSize ≤ 0 ∨ requestSize opts s.calls.rc 0 = 0) := by
      unfold reactorReadBatchSize
      omega
    rw [receiveStep, readPass, if_neg hAsked, hSocket]
    dsimp only
    rw [show min (max 1 1) (requestSize opts s.calls.rc 0) = 1 by omega, List.take_succ_cons, List.take_zero,
      if_neg (List.cons_ne_nil _ _)]
    cases hStrict : opts.strictBudget with
    | true => simp only [if_true, List.length_singleton, List.drop_succ_cons, List.drop_zero, hLength]
    | false =>
      simp only [Bool.false_eq_true, if_false, List.length_singleton, List.drop_succ_cons, List.drop_zero, hLength,
        Nat.zero_add]
  have hDelivered : delivered sent.stream s.calls.received
      (receiveStep opts sent.stream s.calls 0 (.bytes 1 element.2)).received (.bytes 1 element.2) = true := by
    rw [hNext, delivered, hAttached]
    exact beq_self_eq_true _
  have hReceived : s.calls.received ≤ sent.stream.length := by
    rw [h.stream_eq, hFront]
    simp only [List.length_append]
    omega
  obtain ⟨more, rest, hSplit, hInv⟩ := h.receive hCall (receiveStep_receives hReceived hDelivered)
  have hOne : more.length = 1 := by
    have hCount := hInv.received
    simp only [hNext, h.received, List.length_append, List.length_nil] at hCount
    omega
  obtain ⟨first, rfl⟩ := List.length_eq_one_iff.mp hOne
  obtain ⟨rfl, rfl⟩ := List.cons.inj hSplit
  refine ⟨_, 1, ?_, hInv, ?_⟩
  · simp only [step, ParserCalls.step, hCall, hDelivered, if_true, Option.map_some, dispatches, List.append_nil]
  · rw [hNext]
    dsimp only
    split
    · exact .inl rfl
    · exact .inr rfl

def CanFinish (sent : Sent opts wireVersion seen) (s : State) : Prop :=
  ∃ t, (machine opts seen sent.stream).Leads (fun _ _ => True) s t ∧ t.dispatched = sent.events

theorem CanFinish.of_step (hStep : step opts sent.stream s action = some t) (h : CanFinish sent t) :
    CanFinish sent s := by
  obtain ⟨r, hLeads, hEvents⟩ := h
  exact ⟨r, (Machine.Leads.next .refl trivial hStep).trans hLeads, hEvents⟩

theorem Inv.blocked (h : Inv sent s done later part ahead socket) (hCall : s.calls.call = .reading readAhead) :
    Inv sent ⟨{ s.calls with call := .parsing }, s.dispatched⟩ done later part ahead socket := by
  obtain ⟨hStands, hReady, hTight⟩ := (h.live (by rw [hCall]; exact nofun)).stands (.inl (by rw [hCall]; exact nofun))
  exact .stands h.frames h.bytes h.received h.dispatched hStands (fun _ => hReady (by rw [hCall]; exact nofun)) hTight

section Progress

variable {count : Nat}

def FinishesBelow (sent : Sent opts wireVersion seen) (count : Nat) : Prop :=
  ∀ (s : State) (done later : List Frame) (part ahead socket : Stream), Inv sent s done later part ahead socket →
    s.calls.call ≠ .closed → ahead.length + socket.length < count → CanFinish sent s

section Finish

variable (hBelow : FinishesBelow sent count) (h : Inv sent s done later part ahead socket)
include hBelow h

theorem Inv.finish_parsing (hCall : s.calls.call = .parsing) (hSome : ahead ≠ [])
    (hCount : ahead.length + socket.length = count) : CanFinish sent s := by
  obtain ⟨t, _, _, _, left, hStep, hNext, hAdvances⟩ := h.parse_on hCall
  refine .of_step hStep ?_
  obtain hAll | ⟨hOpen, -, hLess, -⟩ := hAdvances
  · exact ⟨t, .refl, hAll⟩
  · have hShorter := hLess hSome
    exact hBelow t _ _ _ left socket hNext hOpen (by omega)

theorem Inv.finish_idle (hCall : s.calls.call = .idle) (hCount : ahead.length + socket.length = count) :
    CanFinish sent s := by
  cases h.live (by rw [hCall]; simp) with
  | streaming _ _ hEnd => exact ⟨s, .refl, h.events_eq hEnd⟩
  | parsing hStands _ _ =>
    obtain ⟨-, -, hGranted⟩ := retryBudget_spec opts granted hStands
    have hEntered := h.enter granted hCall hStands.streamActive
    have hStep : step opts sent.stream s (.enter granted) = some
        ⟨{ s.calls with
            rc := (retryBudget opts granted s.calls.rc).1
            call := if (retryBudget opts granted s.calls.rc).2 then .reading 0 else .idle }, s.dispatched⟩ := by
      simp only [step, ParserCalls.step, hCall, hStands.streamActive, and_self, if_true, Option.map_some, dispatches,
        List.append_nil]
    rw [hGranted rfl, if_pos rfl] at hEntered hStep
    refine .of_step hStep ?_
    cases ahead with
    | cons first ahead =>
      exact .of_step (step_wouldBlock hEntered rfl) ((hEntered.blocked rfl).finish_parsing hBelow rfl (by simp) hCount)
    | nil =>
      cases socket with
      | nil =>
        exact ⟨_, .refl, hEntered.events_eq (hStands.complete h.coming)⟩
      | cons element socket =>
        obtain ⟨t, readAhead, hReceive, hNext, hCalls⟩ := hEntered.receive_one rfl
        rw [List.length_nil, List.length_cons] at hCount
        have hSame : [element].length + socket.length = count := by
          rw [List.length_singleton]
          omega
        refine .of_step hReceive ?_
        obtain hParses | hReads := hCalls
        · exact hNext.finish_parsing hBelow hParses (by simp) hSame
        · exact .of_step (step_wouldBlock hNext hReads)
            ((hNext.blocked hReads).finish_parsing hBelow rfl (by simp) hSame)

theorem Inv.finish_passes (hCall : s.calls.call = .parsing) (hCount : ahead.length + socket.length = count) :
    CanFinish sent s := by
  by_cases hSome : ahead = []
  · obtain ⟨t, _, _, _, left, hStep, hNext, hAdvances⟩ := h.parse_on hCall
    refine .of_step hStep ?_
    obtain hAll | ⟨-, hLess, -, hIdle⟩ := hAdvances
    · exact ⟨t, .refl, hAll⟩
    · refine hNext.finish_idle hBelow (hIdle hSome) ?_
      rw [hSome, List.length_nil] at hLess hCount
      omega
  · exact h.finish_parsing hBelow hCall hSome hCount

end Finish

end Progress

theorem Inv.completes (h : Inv sent s done later part ahead socket) (hOpen : s.calls.call ≠ .closed) :
    CanFinish sent s := by
  induction hCount : ahead.length + socket.length using Nat.strong_induction_on
    generalizing s done later part ahead socket with
  | _ count ih =>
    have hBelow : FinishesBelow sent count := fun s done later part ahead socket hInv hStill hLess =>
      ih _ hLess hInv hStill rfl
    cases hCall : s.calls.call with
    | idle => exact h.finish_idle hBelow hCall hCount
    | parsing => exact h.finish_passes hBelow hCall hCount
    | reading readAhead => exact .of_step (step_wouldBlock h hCall) ((h.blocked hCall).finish_passes hBelow rfl hCount)
    | closed => exact absurd hCall hOpen

theorem Inv.dispatched_le (h : Inv sent s done later part ahead socket) : s.dispatched <+: sent.events := by
  rw [h.dispatched, Sent.events, h.frames, List.flatMap_append]
  exact List.prefix_append _ _

end Runs

def Sent.unlimited {opts : Options} {wireVersion seen : UInt8} (sent : Sent opts wireVersion seen) :
    Sent (unlimited opts) wireVersion seen where
  frames := sent.frames
  known := sent.known
  valid := sent.valid

/-- Under a strict budget the parser holds no byte that was not admitted and takes none of the next frame
before it has passed on the current one. It passes on what the parser without a limit does, and from
every open state it can pass on everything. -/
theorem strict_parsing (opts : Options) (hStrict : opts.maxTotalInflightBytes ≠ 0) (wireVersion seen : UInt8)
    (sent : Sent opts wireVersion seen) :
    (∀ s, (machine opts seen sent.stream).Reachable s →
      (unconsumed s.calls.rc).length ≤ headerSize + s.calls.rc.reservedRequestBytes ∧
      (∃ done later, sent.frames = done ++ later ∧ s.dispatched = done.flatMap Frame.events ∧
        (∀ frame ∈ later.head?, s.calls.received ≤
          (done.flatMap (Frame.elements wireVersion)).length + (frame.elements wireVersion).length) ∧
        (s.calls.call ≠ .closed → s.calls.rc.streamActive = false →
          s.calls.received = (done.flatMap (Frame.elements wireVersion)).length + (unconsumed s.calls.rc).length)) ∧
      (s.calls.call ≠ .closed → CanFinish sent s)) ∧
    (∀ t, (machine (unlimited opts) seen sent.stream).Reachable t → t.calls.call ≠ .closed →
      CanFinish (Sent.unlimited sent) t) ∧
    (∀ s t, (machine opts seen sent.stream).Reachable s → (machine (unlimited opts) seen sent.stream).Reachable t →
      (s.dispatched <+: t.dispatched ∨ t.dispatched <+: s.dispatched) ∧
      (Finished sent.stream s → Finished sent.stream t → s.dispatched = t.dispatched)) := by
  have hBudget : opts.strictBudget = true := bne_iff_ne.mpr hStrict
  refine ⟨fun s hReachable => ?_, fun t hReachable hOpen => ?_, fun s t hReachable hOther => ?_⟩
  · obtain ⟨done, later, part, ahead, socket, hInv⟩ := reachable_holds sent hReachable
    refine ⟨hInv.admitted hBudget, ⟨done, later, hInv.frames, hInv.dispatched, fun frame hFrame => ?_,
      fun hOpen hStream => ?_⟩, hInv.completes⟩
    · rw [hInv.received]
      exact Nat.add_le_add_left (hInv.within hBudget frame hFrame) _
    · obtain ⟨hStands, -, -⟩ := (hInv.live hOpen).stands (.inr hStream)
      rw [hInv.received, unconsumed_eq, ← hStands.bytesHeld, ← hStands.bytesAhead, ← List.map_append, List.length_map]
  · obtain ⟨done, later, part, ahead, socket, hInv⟩ := reachable_holds (Sent.unlimited sent) hReachable
    exact hInv.completes hOpen
  · obtain ⟨_, _, _, _, _, hInv⟩ := reachable_holds sent hReachable
    obtain ⟨_, _, _, _, _, hPlain⟩ := reachable_holds (Sent.unlimited sent) hOther
    refine ⟨List.prefix_or_prefix_of_prefix hInv.dispatched_le hPlain.dispatched_le, fun hFinished hDone => ?_⟩
    exact (hInv.finished hFinished).trans (hPlain.finished hDone).symm

def limited : Options := { smallMessages with maxTotalInflightBytes := 128 }

def requestThenStream : Sent limited version 0 where
  frames := [.fixed (.request 0 [97] [98]) (some 5), .stream 9 [100]]
  known := .inl rfl
  valid := by
    intro done frame rest h
    match done, h with
    | [], h =>
      obtain ⟨rfl, rfl⟩ := List.cons.inj h
      exact ⟨⟨⟨.inl rfl, nofun, by decide⟩, fun _ => ⟨_, _, rfl⟩⟩, nofun⟩
    | [_], h =>
      obtain ⟨rfl, rfl⟩ := List.cons.inj (List.cons.inj h).2
      exact ⟨⟨.inl rfl, nofun, by decide⟩, fun _ => rfl⟩
    | _ :: _ :: done, h =>
      have hLength := congrArg List.length h
      simp at hLength

theorem strict_parsing_paused :
    ∃ s, (machine limited 0 requestThenStream.stream).Reachable s ∧ s.calls.received = 21 ∧
      s.calls.rc.reservedRequestBytes = 2 ∧ (unconsumed s.calls.rc).length ≤ headerSize + 2 := by
  obtain ⟨s, hReached, hReceived, hReserved⟩ := Machine.exists_reachable_of_exec
    (fun s => s.calls.received = 21 ∧ s.calls.rc.reservedRequestBytes = 2)
    [.enter granted, .receive (.bytes 64 (some 5)), .pass { granted with reserved := false }, .resume, .enter granted,
      .receive (.bytes 1 none)]
    (M := machine limited 0 requestThenStream.stream) (s := start) start_initial (by decide)
  have hAdmitted := ((strict_parsing limited (by decide) version 0 requestThenStream).1 s hReached).1
  exact ⟨s, hReached, hReceived, hReserved, hReserved ▸ hAdmitted⟩

end EasyUds.Reactor.StrictBudget

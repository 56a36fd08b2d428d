import EasyUds.Reactor.StrictBudget

/-! # The end of the stream

A call of `consume` that receives the end of the stream returns before its parse loop. What it has
received itself, and what an earlier call has left in `pending`, is not parsed any more.
-/

namespace EasyUds.Reactor.EndOfStream

open Lib Protocol.Codec Reactor.Parser Reactor.ParserFrames

open Reactor.ParserCalls (Stream Action Receives passStep receiveStep_receives)

open Reactor.ParserDecode (Position decoder position Sound Ready Moved unparsed_length retryBudget_moved)

open Reactor.StrictBudget (State machine start_initial reachable_holds step_cases dispatches)

def isRequest : Event → Bool
  | .request .. => true
  | _ => false

def requests (events : List Event) : List Event := events.filter isRequest

def wholeFrames (wireVersion : UInt8) : List Frame → Nat → List Frame
  | [], _ => []
  | frame :: rest, received =>
    if (frame.elements wireVersion).length ≤ received then
      frame :: wholeFrames wireVersion rest (received - (frame.elements wireVersion).length)
    else []

/-- Any bytes without descriptors, or frames that may carry them, from the accepted connection on or from
where it is given back to the reactor. -/
inductive Input (opts : Options) (seen : UInt8)
  | bytes (data : List UInt8)
  | frames (wireVersion : UInt8) (sent : Sent opts wireVersion seen)

def between (seen : UInt8) : Position := ⟨⟨seen, .header⟩, []⟩

variable {opts : Options} {seen : UInt8}

def Input.stream : Input opts seen → Stream
  | .bytes data => data.map fun byte => (byte, none)
  | .frames _ sent => sent.stream

def Input.requests (input : Input opts seen) (received : Nat) : List Event :=
  match input with
  | .bytes data => EndOfStream.requests ((decoder opts).run (between seen) (data.take received)).2
  | .frames wireVersion sent =>
    EndOfStream.requests ((wholeFrames wireVersion sent.frames received).flatMap Frame.events)

def Input.RequestEnds (input : Input opts seen) (last : Nat) : Prop :=
  input.requests last ≠ input.requests (last - 1)

section Received

variable {wireVersion : UInt8}

theorem wholeFrames_append (done later : List Frame) (received : Nat) :
    wholeFrames wireVersion (done ++ later) ((done.flatMap (Frame.elements wireVersion)).length + received) =
      done ++ wholeFrames wireVersion later received := by
  induction done with
  | nil => rw [List.flatMap_nil, List.length_nil, Nat.zero_add, List.nil_append, List.nil_append]
  | cons frame done ih =>
    rw [List.cons_append, wholeFrames, List.flatMap_cons, List.length_append, if_pos (by omega), Nat.add_assoc,
      Nat.add_sub_cancel_left, ih, List.cons_append]

theorem wholeFrames_mono (frames : List Frame) {received more : Nat} (h : received ≤ more) :
    wholeFrames wireVersion frames received <+: wholeFrames wireVersion frames more := by
  induction frames generalizing received more with
  | nil => exact List.prefix_rfl
  | cons frame rest ih =>
    rw [wholeFrames, wholeFrames]
    split
    · rename_i hFits
      rw [if_pos (Nat.le_trans hFits h)]
      exact (List.prefix_cons_inj frame).mpr (ih (Nat.sub_le_sub_right h _))
    · exact List.nil_prefix

theorem Input.requests_mono (input : Input opts seen) {received more : Nat} (h : received ≤ more) :
    input.requests received <+: input.requests more := by
  cases input with
  | bytes data =>
    obtain ⟨rest, hRest⟩ := List.take_prefix_take_left (l := data) h
    rw [Input.requests, Input.requests, ← hRest, BlockDecoder.run_append]
    exact (List.prefix_append _ _).filter _
  | frames wireVersion sent => exact ((wholeFrames_mono sent.frames h).flatMap _).filter _

theorem Input.requests_eq_iff (input : Input opts seen) {parsed received : Nat} (h : parsed ≤ received) :
    input.requests parsed = input.requests received ↔
      ∀ last, parsed < last → last ≤ received → ¬ input.RequestEnds last := by
  constructor
  · intro hSame last hParsed hReceived hEnds
    have hFront := input.requests_mono (show parsed ≤ last - 1 by omega)
    have hBehind := input.requests_mono hReceived
    have hStep := input.requests_mono (Nat.sub_le last 1)
    refine hEnds (hStep.eq_of_length ?_).symm
    have hLow := hFront.length_le
    have hHigh := hBehind.length_le
    have hMiddle := hStep.length_le
    rw [hSame] at hLow
    omega
  · intro hNone
    induction received, h using Nat.le_induction with
    | base => rfl
    | succ received hLe ih =>
      have hLast := hNone (received + 1) (by omega) (Nat.le_refl _)
      rw [ih fun last hParsed hReceived => hNone last hParsed (by omega)]
      by_contra hDiffer
      exact hLast fun hSame => hDiffer hSame.symm

end Received

structure Parses (opts : Options) (seen : UInt8) (data : List UInt8) (calls : ParserCalls.State)
    (dispatched : List Event) : Prop where
  sound : Sound calls.rc
  ready : calls.call ≠ .idle → Ready calls.rc
  run : ∃ parsed, data.take calls.received = parsed ++ unparsed calls.rc ∧
    (decoder opts).run (between seen) parsed = (position calls.rc, dispatched)

structure Inv (opts : Options) (seen : UInt8) (data : List UInt8) (s : State) : Prop where
  received : s.calls.received ≤ data.length
  parser : s.calls.call ≠ .closed → s.calls.rc.streamActive = false → Parses opts seen data s.calls s.dispatched
  streaming : s.calls.call ≠ .closed → s.calls.rc.streamActive = true → s.calls.call = .idle

section Runs

variable {data : List UInt8} {s t : State}

theorem Inv.parses (h : Inv opts seen data s) (hOpen : s.calls.call ≠ .closed) (hBusy : s.calls.call ≠ .idle) :
    s.calls.rc.streamActive = false ∧ Parses opts seen data s.calls s.dispatched := by
  have hStream : s.calls.rc.streamActive = false := by
    by_contra hActive
    exact hBusy (h.streaming hOpen (by simpa using hActive))
  exact ⟨hStream, h.parser hOpen hStream⟩

theorem parsePass_accepted (opts : Options) (answer : Answer) (rc : ReactorConnection) :
    (∃ other, (∀ error, other.dispatched ≠ .threw error) ∧ parsePass opts answer rc = parsePass opts other rc) ∨
      ∃ next error, parsePass opts answer rc = .threw next error := by
  cases hDispatched : answer.dispatched with
  | accepted | paused => exact .inl ⟨answer, by rw [hDispatched]; simp, rfl⟩
  | threw error =>
    unfold parsePass
    cases rc.phase with
    | requestPayload =>
      dsimp only
      unfold payloadPass
      dsimp only
      split
      · exact .inr ⟨_, error, by rw [dispatchRequest, hDispatched]⟩
      · exact .inl ⟨granted, by simp [granted], rfl⟩
    | header | requestBudget | streamBudget | streamRoute =>
      exact .inl ⟨{ answer with dispatched := .accepted }, by simp, rfl⟩

theorem Parses.moved {next : ReactorConnection} {taken : List UInt8} {events : List Event} {calls : ParserCalls.State}
    (h : Parses opts seen data s.calls s.dispatched) (hMoved : Moved opts s.calls.rc next taken events)
    (hReceived : calls.received = s.calls.received) (hNext : calls.rc = next)
    (hReady : calls.call ≠ .idle → Ready next) :
    Parses opts seen data calls (s.dispatched ++ events) := by
  obtain ⟨parsed, hBytes, hRun⟩ := h.run
  subst hNext
  refine ⟨hMoved.sound, hReady, parsed ++ taken, ?_, BlockDecoder.run_append_of_eq hRun hMoved.run⟩
  rw [hReceived, hBytes, hMoved.bytes, List.append_assoc]

theorem Inv.pass (h : Inv opts seen data s) (answer : Answer) (hCall : s.calls.call = .parsing) :
    Inv opts seen data ⟨passStep opts answer s.calls, s.dispatched ++ dispatches opts s.calls (.pass answer)⟩ := by
  obtain ⟨hStream, hParses⟩ := h.parses (by rw [hCall]; simp) (by rw [hCall]; simp)
  have hReady := hParses.ready (by rw [hCall]; simp)
  rw [passStep, dispatches]
  obtain ⟨other, hOther, hPass⟩ | ⟨next, error, hPass⟩ := parsePass_accepted opts answer s.calls.rc
  · have hSpec := @ParserDecode.parsePass_spec opts other s.calls.rc hOther hParses.sound hReady
    rw [← hPass] at hSpec
    cases hResult : parsePass opts answer s.calls.rc with
    | threw next error => exact ⟨h.received, fun hOpen => absurd rfl hOpen, fun hOpen => absurd rfl hOpen⟩
    | again next events =>
      rw [hResult] at hSpec
      obtain ⟨hNext, taken, -, hMoved⟩ := hSpec
      refine ⟨h.received, fun _ _ => hParses.moved hMoved rfl rfl fun _ => hNext, fun _ hActive => ?_⟩
      have hSame := hMoved.streamActive
      rw [hStream] at hSame
      cases hSame.symm.trans hActive
    | stop next events =>
      rw [hResult] at hSpec
      have hIdle : (s.calls.land (.stop next events)).call ≠ .closed →
          (s.calls.land (.stop next events)).call = .idle := by
        intro hOpen
        simp only [ParserCalls.State.land] at hOpen ⊢
        split at hOpen
        · exact absurd rfl hOpen
        · rename_i hClosing
          rw [if_neg hClosing]
      refine ⟨h.received, fun hOpen hInactive => ?_, fun hOpen _ => hIdle hOpen⟩
      obtain ⟨taken, hMoved, -, -⟩ | ⟨hEnded, -⟩ := hSpec
      · exact hParses.moved hMoved rfl rfl fun hBusy => absurd (hIdle hOpen) hBusy
      · obtain hActive | hClosing := hEnded
        · cases hActive.symm.trans hInactive
        · exact absurd (if_pos hClosing) hOpen
  · rw [hPass]
    exact ⟨h.received, fun hOpen => absurd rfl hOpen, fun hOpen => absurd rfl hOpen⟩

theorem attached_nil (data : List UInt8) (first last : Nat) :
    ParserCalls.attached (Input.stream (.bytes data : Input opts seen)) first last = [] := by
  rw [ParserCalls.attached, List.filterMap_eq_nil_iff]
  intro element hMem
  obtain ⟨byte, -, rfl⟩ := List.mem_map.mp (List.mem_of_mem_drop (List.mem_of_mem_take hMem))
  rfl

theorem stream_bytes (data : List UInt8) : (Input.stream (.bytes data : Input opts seen)).map Prod.fst = data := by
  rw [Input.stream, List.map_map]
  exact List.map_id' data

theorem bytes_eq (data : List UInt8) (first last : Nat) :
    ParserCalls.bytes (Input.stream (.bytes data : Input opts seen)) first last = segment data first last := by
  rw [ParserCalls.bytes, Lib.segment, Lib.segment, List.map_take, List.map_drop, stream_bytes]

theorem Inv.receive {readAhead : Nat} {next : ParserCalls.State} (h : Inv opts seen data s)
    (hCall : s.calls.call = .reading readAhead)
    (hReceives : Receives opts (Input.stream (.bytes data : Input opts seen)) s.calls readAhead next) :
    Inv opts seen data ⟨next, s.dispatched⟩ := by
  obtain ⟨hStream, hParses⟩ := h.parses (by rw [hCall]; exact nofun) (by rw [hCall]; exact nofun)
  have hReady := hParses.ready (by rw [hCall]; exact nofun)
  have hInactive : s.calls.rc.streamActive ≠ true := by
    rw [hStream]
    exact nofun
  cases hReceives with
  | nothing call hNext =>
    exact ⟨h.received, fun _ _ => ⟨hParses.sound, fun _ => hReady, hParses.run⟩,
      fun _ hActive => absurd hActive hInactive⟩
  | closed closing => exact ⟨h.received, fun hOpen => absurd rfl hOpen, fun hOpen => absurd rfl hOpen⟩
  | some chunk fd hSome hChunk hEnd hFd hSize =>
    rw [attached_nil] at hFd
    obtain rfl : fd = none := Option.toList_eq_nil_iff.mp hFd
    rw [Input.stream, List.length_map] at hEnd
    rw [bytes_eq] at hChunk
    obtain ⟨pending, offset, hAppended, hOffset, hDrop⟩ := ParserDecode.appendPending_eq chunk hParses.sound.offset
    obtain ⟨parsed, hBytes, hRun⟩ := hParses.run
    refine ⟨hEnd, fun _ _ => ?_, fun _ hActive => absurd hActive hInactive⟩
    rw [hAppended]
    refine ⟨⟨hParses.sound.header, hOffset, hParses.sound.buffered, hParses.sound.receivedFds,
      hParses.sound.receivedFd⟩, fun _ => hReady, parsed, ?_, hRun⟩
    have hTake : data.take (s.calls.received + chunk.length) = data.take s.calls.received ++ chunk := by
      rw [List.take_add]
      congr 1
      rw [Lib.segment, Nat.add_sub_cancel_left] at hChunk
      exact hChunk.symm
    change data.take (s.calls.received + chunk.length) = parsed ++ pending.drop offset
    rw [hTake, hDrop, hBytes, List.append_assoc]

theorem Inv.next {action : Action} (h : Inv opts seen data s)
    (hStep : StrictBudget.step opts (Input.stream (.bytes data : Input opts seen)) s action = some t) :
    Inv opts seen data t := by
  obtain ⟨calls, dispatched⟩ := t
  obtain ⟨hCalls, hDispatched, hOwn⟩ := step_cases hStep
  dsimp only at hCalls hDispatched
  subst hDispatched
  cases hCalls with
  | enter answer hIdle hStream =>
    have hParses := h.parser (by rw [hIdle]; exact nofun) hStream
    obtain ⟨hMoved, hReady⟩ := retryBudget_moved opts answer hParses.sound
    refine ⟨h.received, fun _ _ => hParses.moved hMoved rfl rfl fun hBusy => hReady ?_, fun _ hStreaming => ?_⟩
    · by_contra hNot
      exact hBusy (if_neg hNot)
    · exact absurd (hStreaming.symm.trans (hMoved.streamActive.trans hStream)) nofun
  | receive readAhead receive hCall hDelivered =>
    rw [show s.dispatched ++ dispatches opts s.calls _ = s.dispatched from List.append_nil _]
    refine h.receive hCall (receiveStep_receives ?_ hDelivered)
    rw [Input.stream, List.length_map]
    exact h.received
  | pass answer hCall => exact h.pass answer hCall
  | resume hIdle =>
    rw [show s.dispatched ++ dispatches opts s.calls _ = s.dispatched from List.append_nil _]
    refine ⟨h.received, fun hOpen hStream => ?_, fun _ _ => hIdle⟩
    have hParses := h.parser hOpen hStream
    exact ⟨⟨hParses.sound.header, hParses.sound.offset, hParses.sound.buffered, hParses.sound.receivedFds,
      hParses.sound.receivedFd⟩, fun hBusy => absurd hIdle hBusy, hParses.run⟩
  | rearm taken replayed busy => exact absurd rfl (hOwn taken replayed busy)
  | close => exact ⟨h.received, fun hOpen => absurd rfl hOpen, fun hOpen => absurd rfl hOpen⟩

theorem reachable_inv (h : (machine opts seen (Input.stream (.bytes data : Input opts seen))).Reachable s) :
    Inv opts seen data s := by
  refine h.invariant (I := Inv opts seen data) ?_ fun _ _ _ _ hInv _ hStep => hInv.next hStep
  rintro s ⟨buffered, ⟨rest, hStream⟩, -, -, rfl⟩
  have hBytes := congrArg (List.map Prod.fst) hStream
  rw [List.map_append, stream_bytes] at hBytes
  refine ⟨?_, fun _ _ => ⟨⟨rfl, Nat.zero_le _, Nat.zero_lt_succ _, rfl, rfl⟩, fun hBusy => absurd rfl hBusy,
    [], ?_, rfl⟩, fun _ hActive => absurd hActive nofun⟩
  · rw [← hBytes, List.length_append, List.length_map]
    exact Nat.le_add_right _ _
  · change data.take buffered.length = [] ++ (buffered.map Prod.fst).drop 0
    rw [← hBytes, ← List.length_map Prod.fst, List.take_left]
    rfl

end Runs

section Results

variable {s : State}

theorem dispatched_of_reading (input : Input opts seen) (hReached : (machine opts seen input.stream).Reachable s)
    {readAhead : Nat}
    (hCall : s.calls.call = .reading readAhead) :
    requests s.dispatched = input.requests (s.calls.received - available s.calls.rc) := by
  have hOpen : s.calls.call ≠ .closed := by
    rw [hCall]
    exact nofun
  have hBusy : s.calls.call ≠ .idle := by
    rw [hCall]
    exact nofun
  cases input with
  | bytes data =>
    have hInv := reachable_inv hReached
    obtain ⟨-, hParses⟩ := hInv.parses hOpen hBusy
    obtain ⟨parsed, hBytes, hRun⟩ := hParses.run
    have hLength := congrArg List.length hBytes
    rw [List.length_take, Nat.min_eq_left hInv.received, List.length_append, unparsed_length] at hLength
    have hParsed : data.take (s.calls.received - available s.calls.rc) = parsed := by
      rw [show s.calls.received - available s.calls.rc = min parsed.length s.calls.received by omega, ← List.take_take,
        hBytes, List.take_left]
    rw [Input.requests, hParsed, hRun]
  | frames wireVersion sent =>
    obtain ⟨done, later, part, ahead, socket, hInv⟩ := reachable_holds sent hReached
    obtain ⟨hStands, -, -⟩ := (hInv.live hOpen).stands (.inl hBusy)
    have hAhead : ahead.length = available s.calls.rc := by
      rw [← List.length_map Prod.fst, hStands.bytesAhead, unparsed_length]
    have hParsed : s.calls.received - available s.calls.rc =
        (done.flatMap (Frame.elements wireVersion)).length + part.length := by
      rw [hInv.received, List.length_append, hAhead]
      omega
    have hNone : wholeFrames wireVersion later part.length = [] := by
      cases later with
      | nil => rfl
      | cons frame rest => exact if_neg (Nat.not_le.mpr (hStands.part_missing (hInv.valid frame rest rfl).1).2)
    rw [Input.requests, hParsed, hInv.frames, wholeFrames_append, hNone, List.append_nil, hInv.dispatched]

end Results

/-- When the end of the stream marks a connection as closing, every fixed request that was received as a
whole has been passed on, once and in order, exactly when none of them ends within the bytes that are
received and not parsed. -/
theorem eof_after_requests (opts : Options) (seen : UInt8) (input : Input opts seen) (s t : State)
    (hReached : (machine opts seen input.stream).Reachable s)
    (hStep : (machine opts seen input.stream).step s (.receive .closed) = some t) :
    requests t.dispatched = input.requests s.calls.received ↔
      ∀ last, s.calls.received - available s.calls.rc < last → last ≤ s.calls.received → ¬ input.RequestEnds last := by
  have hCases : StrictBudget.step opts input.stream s (.receive .closed) = some t := hStep
  obtain ⟨hCalls, hDispatched, -⟩ := step_cases hCases
  generalize t.calls = next at hCalls
  cases hCalls with
  | receive readAhead receive hCall hDelivered =>
    rw [show t.dispatched = s.dispatched from hDispatched.trans (List.append_nil _),
      dispatched_of_reading input hReached hCall]
    exact input.requests_eq_iff (Nat.sub_le _ _)

def oneRequest : Input smallMessages 0 := .bytes (encodeHeader .request 7 1 0 0 version ++ [97])

/-- The request and the end of the stream come in one call. -/
theorem eof_in_same_call : ∃ s t, (machine smallMessages 0 oneRequest.stream).Reachable s ∧
    (machine smallMessages 0 oneRequest.stream).step s (.receive .closed) = some t ∧ t.calls.rc.closing = true ∧
    oneRequest.requests s.calls.received = [.request 7 [97] [] none] ∧ requests t.dispatched = [] := by
  obtain ⟨s, hReached, hTest⟩ := Machine.exists_reachable_of_exec
    (fun s => ((machine smallMessages 0 oneRequest.stream).step s (.receive .closed)).any (fun t =>
      t.calls.rc.closing && oneRequest.requests s.calls.received == [.request 7 [97] [] none] &&
        requests t.dispatched == []) = true)
    [.enter granted, .receive (.bytes 64 none)]
    (M := machine smallMessages 0 oneRequest.stream) (s := StrictBudget.start) start_initial (by decide)
  obtain ⟨t, hStep, hEnd⟩ := (Option.any_eq_true _ _).mp hTest
  simp only [Bool.and_eq_true, beq_iff_eq] at hEnd
  exact ⟨s, t, hReached, hStep, hEnd.1.1, hEnd.1.2, hEnd.2⟩

/-- The end of the stream comes in a call of its own. -/
theorem eof_in_later_call : ∃ s t, (machine smallMessages 0 oneRequest.stream).Reachable s ∧
    (machine smallMessages 0 oneRequest.stream).step s (.receive .closed) = some t ∧ t.calls.rc.closing = true ∧
    requests t.dispatched = oneRequest.requests s.calls.received := by
  obtain ⟨s, hReached, hParsed, hTest⟩ := Machine.exists_reachable_of_exec
    (fun s => available s.calls.rc = 0 ∧
      ((machine smallMessages 0 oneRequest.stream).step s (.receive .closed)).any (·.calls.rc.closing) = true)
    [.enter granted, .receive (.bytes 64 none), .receive .wouldBlock, .pass granted, .pass granted, .pass granted,
      .enter granted]
    (M := machine smallMessages 0 oneRequest.stream) (s := StrictBudget.start) start_initial (by decide)
  obtain ⟨t, hStep, hClosing⟩ := (Option.any_eq_true _ _).mp hTest
  refine ⟨s, t, hReached, hStep, hClosing,
    (eof_after_requests smallMessages 0 oneRequest s t hReached hStep).mpr fun last hUnparsed hReceived => ?_⟩
  omega

end EasyUds.Reactor.EndOfStream

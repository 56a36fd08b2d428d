import EasyUds.Lib.Machine
import EasyUds.Lib.Segment
import EasyUds.Reactor.Parser

/-! # Calls of the parser over the life of a connection

The calls of `consume` on one connection, taken apart into the receives and the passes of its two
loops, and the leases of the workers that read from the same socket in between. A byte of the peer may
carry a descriptor. The kernel delivers it with the receive result that contains the byte, and a
receive result carries at most one; a worker's plain receive drops it.

The state counts the bytes that were received and those that were parsed, and records where in the
stream each header began.
-/

namespace EasyUds.Reactor.ParserCalls

open Lib Protocol.Codec Reactor.Parser

/-- The bytes that the peer sends, each with the descriptor attached to it. -/
abbrev Stream := List (UInt8 × Option Nat)

def bytes (stream : Stream) (first last : Nat) : List UInt8 := (segment stream first last).map Prod.fst

def attached (stream : Stream) (first last : Nat) : List Nat := (segment stream first last).filterMap Prod.snd

section Positions

variable {stream : Stream}

theorem attached_append {first middle last : Nat} (hFirst : first ≤ middle) (hLast : middle ≤ last) :
    attached stream first last = attached stream first middle ++ attached stream middle last := by
  rw [attached, segment_append hFirst hLast, List.filterMap_append]
  rfl

theorem attached_nil (first : Nat) : attached stream first first = [] := by
  rw [attached, segment_nil]
  rfl

theorem bytes_nil (first : Nat) : bytes stream first first = [] := by
  rw [bytes, segment_nil]
  rfl

theorem bytes_append {first middle last : Nat} (hFirst : first ≤ middle) (hLast : middle ≤ last) :
    bytes stream first last = bytes stream first middle ++ bytes stream middle last := by
  rw [bytes, segment_append hFirst hLast, List.map_append]
  rfl

theorem length_bytes {first last : Nat} (hLast : last ≤ stream.length) :
    (bytes stream first last).length = last - first := by
  rw [bytes, List.length_map, segment_length hLast]

theorem drop_bytes (first last dropped : Nat) :
    (bytes stream first last).drop dropped = bytes stream (first + dropped) last := by
  rw [bytes, ← List.map_drop, segment_drop]
  rfl

theorem take_bytes {first last taken : Nat} (h : first + taken ≤ last) :
    (bytes stream first last).take taken = bytes stream first (first + taken) := by
  rw [bytes, ← List.map_take, segment_take stream h]
  rfl

end Positions

inductive Call
  | idle
  | reading (readAhead : Nat)
  | parsing
  | closed
  deriving DecidableEq, Repr

structure Head where
  start : Nat
  header : HeaderBytes
  deriving DecidableEq, Repr

structure Exposed where
  head : Head
  fd : Option Nat
  deriving DecidableEq, Repr

/-- `lent` is the part of `pending` that a stream worker took along. -/
structure State where
  rc : ReactorConnection
  call : Call
  lent : List UInt8
  received : Nat
  parsed : Nat
  current : Head
  heads : List Head
  exposed : List Exposed
  deriving DecidableEq, Repr

inductive Action
  | enter (answer : Answer)
  | receive (receive : Receive)
  | pass (answer : Answer)
  | resume
  | rearm (taken : Nat) (replayed busy : Bool)
  | close
  deriving DecidableEq, Repr

def after : Pass → ReactorConnection
  | .again rc _ | .stop rc _ | .threw rc _ => rc

def passTake (rc : ReactorConnection) : Nat :=
  match rc.phase with
  | .header => min (available rc) (headerSize - rc.headerReceived)
  | .requestPayload => min (available rc) (rc.payloadTotal - rc.payloadReceived)
  | _ => min (available rc) (rc.arg1.toNat - rc.routeBuffer.length)

def completes (rc : ReactorConnection) : Bool :=
  rc.phase == .header && rc.headerReceived + passTake rc == headerSize

def nextHead (s : State) : Head :=
  if completes s.rc then ⟨s.parsed - s.rc.headerReceived, (copyHeader s.rc (passTake s.rc)).header⟩ else s.current

def exposures (head : Head) (events : List Event) : List Exposed :=
  events.filterMap fun
    | .request _ _ _ fd => some ⟨head, fd⟩
    | _ => none

def State.advance (s : State) : State :=
  { s with
    parsed := s.parsed + passTake s.rc
    current := nextHead s
    heads := if completes s.rc then s.heads ++ [nextHead s] else s.heads }

def State.land (s : State) : Pass → State
  | .again next events => { s.advance with rc := next, exposed := s.exposed ++ exposures (nextHead s) events }
  | .stop next events =>
    { s.advance with
      rc := next
      call := if next.closing then .closed else .idle
      lent := (unparsed s.rc).drop (passTake s.rc)
      exposed := s.exposed ++ exposures (nextHead s) events }
  | .threw next _ => { s.advance with rc := next, call := .closed }

def passStep (opts : Options) (answer : Answer) (s : State) : State := s.land (parsePass opts answer s.rc)

def delivered (stream : Stream) (first last : Nat) : Receive → Bool
  | .bytes _ fd => fd.toList == attached stream first last
  | _ => true

def receiveStep (opts : Options) (stream : Stream) (s : State) (readAhead : Nat) (receive : Receive) : State :=
  match readPass opts s.rc (bytes stream s.received stream.length) readAhead receive with
  | .more next left ahead => { s with rc := next, received := stream.length - left.length, call := .reading ahead }
  | .parse next left => { s with rc := next, received := stream.length - left.length, call := .parsing }
  | .stop next left => { s with rc := next, received := stream.length - left.length, call := .closed }
  | .threw next left _ => { s with rc := next, received := stream.length - left.length, call := .closed }

/-- `rearm_connection`: a parse state is used again after a continuation lease, unless the reactor is
busy with it. -/
def rearmed (rc : ReactorConnection) (pending : List UInt8) (busy : Bool) : ReactorConnection :=
  let reused := !rc.streamActive && !busy
  { accepted with
    pending
    wireVersion := rc.wireVersion
    requestFlags := if reused then rc.requestFlags else 0
    receivedFds := if reused then rc.receivedFds else []
    receivedFd := if reused then rc.receivedFd else none }

def leased (opts : Options) (rc : ReactorConnection) : Bool :=
  rc.streamActive || (!opts.strictBudget && rc.phase == .header && !rc.readPaused &&
    rc.pendingOffset == rc.pending.length)

def State.buffered (s : State) : List UInt8 := if s.rc.streamActive then s.lent else []

/-- The worker takes bytes from its buffer first and then from the socket, exactly as many as it needs.
The header of a stream request under a continuation lease is put back. -/
def rearmStep (stream : Stream) (s : State) (taken : Nat) (replayed busy : Bool) : State :=
  let read := taken + if replayed then headerSize else 0
  let received := s.received + (read - s.buffered.length)
  { s with
    rc := rearmed s.rc ((s.buffered ++ bytes stream s.received received).drop taken) busy
    received
    parsed := s.parsed + taken
    lent := [] }

def step (opts : Options) (stream : Stream) (s : State) : Action → Option State
  | .enter answer =>
    if s.call = .idle ∧ s.rc.streamActive = false then
      let ready := retryBudget opts answer s.rc
      some { s with rc := ready.1, call := if ready.2 then .reading 0 else .idle }
    else none
  | .receive receive =>
    match s.call with
    | .reading readAhead =>
      let next := receiveStep opts stream s readAhead receive
      if delivered stream s.received next.received receive then some next else none
    | _ => none
  | .pass answer => if s.call = .parsing then some (passStep opts answer s) else none
  | .resume => if s.call = .idle then some { s with rc := { s.rc with readPaused := false } } else none
  | .rearm taken replayed busy =>
    let next := rearmStep stream s taken replayed busy
    if s.call = .idle ∧ leased opts s.rc ∧ (replayed → s.rc.streamActive = false) ∧ next.received ≤ stream.length then
      some next
    else none
  | .close => some { s with call := .closed }

def start : State where
  rc := accepted
  call := .idle
  lent := []
  received := 0
  parsed := 0
  current := ⟨0, []⟩
  heads := []
  exposed := []

def machine (opts : Options) (stream : Stream) : Machine State Action where
  initial s := s = start
  step := step opts stream

section

variable (opts : Options) (stream : Stream) (s : State)

inductive Step : Action → State → Prop
  | enter (answer : Answer) : s.call = .idle → s.rc.streamActive = false → Step (.enter answer)
        { s with
          rc := (retryBudget opts answer s.rc).1
          call := if (retryBudget opts answer s.rc).2 then .reading 0 else .idle }
  | receive (readAhead : Nat) (receive : Receive) : s.call = .reading readAhead →
      delivered stream s.received (receiveStep opts stream s readAhead receive).received receive = true →
      Step (.receive receive) (receiveStep opts stream s readAhead receive)
  | pass (answer : Answer) : s.call = .parsing → Step (.pass answer) (passStep opts answer s)
  | resume : s.call = .idle → Step .resume { s with rc := { s.rc with readPaused := false } }
  | rearm (taken : Nat) (replayed busy : Bool) : s.call = .idle → leased opts s.rc = true →
      (replayed = true → s.rc.streamActive = false) →
      (rearmStep stream s taken replayed busy).received ≤ stream.length →
      Step (.rearm taken replayed busy) (rearmStep stream s taken replayed busy)
  | close : Step .close { s with call := .closed }

end

theorem step_cases {opts : Options} {stream : Stream} {s t : State} {action : Action}
    (h : step opts stream s action = some t) : Step opts stream s action t := by
  cases action with
  | enter answer =>
    simp only [step] at h
    split at h
    · rename_i hIdle
      cases h
      exact .enter answer hIdle.1 hIdle.2
    · cases h
  | receive receive =>
    simp only [step] at h
    split at h
    · rename_i readAhead hCall
      split at h
      · rename_i hDelivered
        cases h
        exact .receive readAhead receive hCall hDelivered
      · cases h
    · cases h
  | pass answer =>
    simp only [step] at h
    split at h
    · rename_i hCall
      cases h
      exact .pass answer hCall
    · cases h
  | resume =>
    simp only [step] at h
    split at h
    · rename_i hCall
      cases h
      exact .resume hCall
    · cases h
  | rearm taken replayed busy =>
    simp only [step] at h
    split at h
    · rename_i hLease
      cases h
      exact .rearm taken replayed busy hLease.1 hLease.2.1 hLease.2.2.1 hLease.2.2.2
    · cases h
  | close =>
    cases h
    exact .close

section

variable (opts : Options) (stream : Stream) (s : State) (readAhead : Nat)

inductive Receives : State → Prop
  | nothing (call : Call) : call = .parsing ∨ call = .reading readAhead → Receives { s with call }
  | closed (closing : Bool) : Receives { s with rc := { s.rc with closing }, call := .closed }
  | some (data : List UInt8) (fd : Option Nat) : data ≠ [] → data = bytes stream s.received (s.received + data.length) →
      s.received + data.length ≤ stream.length → fd.toList = attached stream s.received (s.received + data.length) →
      data.length ≤ requestSize opts s.rc readAhead → Receives { s with
          rc := appendPending s.rc data fd
          received := s.received + data.length
          call := if opts.strictBudget then .parsing else .reading (readAhead + data.length) }

end

theorem receiveStep_receives {opts : Options} {stream : Stream} {s : State} {readAhead : Nat} {receive : Receive}
    (hReceived : s.received ≤ stream.length)
    (hDelivered : delivered stream s.received (receiveStep opts stream s readAhead receive).received receive = true) :
    Receives opts stream s readAhead (receiveStep opts stream s readAhead receive) := by
  have hReads := readPass_reads opts s.rc (bytes stream s.received stream.length) readAhead receive
  have hLeft : stream.length - (bytes stream s.received stream.length).length = s.received := by
    rw [length_bytes (Nat.le_refl _)]
    omega
  rw [receiveStep] at hDelivered ⊢
  generalize readPass opts s.rc (bytes stream s.received stream.length) readAhead receive =
    result at hReads hDelivered ⊢
  cases hReads with
  | nothing receive =>
    simp only [hLeft]
    exact .nothing .parsing (.inl rfl)
  | interrupted =>
    simp only [hLeft]
    exact .nothing (.reading readAhead) (.inr rfl)
  | stopped receive _ =>
    simp only [hLeft]
    exact .closed true
  | invalid error =>
    simp only [hLeft]
    exact .closed s.rc.closing
  | some count fd data rest hSome hSocket hAhead hSize =>
    have hLength := congrArg List.length hSocket
    rw [length_bytes (Nat.le_refl _), List.length_append] at hLength
    have hEnd : s.received + data.length ≤ stream.length := by omega
    have hRest : stream.length - rest.length = s.received + data.length := by omega
    have hData : data = bytes stream s.received (s.received + data.length) := by
      rw [← take_bytes hEnd, hSocket, List.take_left]
    have hNext := @Receives.some opts stream s readAhead data fd hSome hData hEnd
    cases hStrict : opts.strictBudget with
    | true =>
      simp only [hStrict, if_true, delivered, hRest, beq_iff_eq] at hDelivered hNext ⊢
      exact hNext hDelivered hSize
    | false =>
      simp only [hStrict, Bool.false_eq_true, if_false, delivered, hRest, beq_iff_eq] at hDelivered hNext ⊢
      exact hNext hDelivered hSize

end EasyUds.Reactor.ParserCalls

import EasyUds.Reactor.OutputPlaces

/-! # Response framing on the wire

In every run that follows the rule of the queued link, the bytes of every connection are complete
frames of accepted responses in the order in which their writers held `output_mutex`, the last one
perhaps in part. The code does not enforce the rule: a writer whose partly sent frame is refused frees
`output_mutex` before the socket is shut down, and no writer reads `closing` before it sends.
-/

namespace EasyUds.Reactor.OutputFraming

open Lib Lib.Framing Lib.QueuedLink
open Protocol.Codec Reactor.Output Reactor.OutputStep Reactor.OutputPlaces

def tornAt (s : State) (connIndex : Nat) : Bool :=
  s.threads.any fun thread => thread.conn == connIndex && torn thread.pc

/-- No writer takes the `output_mutex` of a connection while another one stands between its partly
sent, dropped frame and the shutdown of the socket. -/
def writesUntorn (s : State) : Action → Bool
  | .thread index _ =>
    match s.threads[index]? with
    | some ⟨connIndex, .writeLock _⟩ =>
      !tornAt s connIndex || (s.conns[connIndex]?.map Conn.shutdown).getD true
    | _ => true
  | _ => true

def handAt (s : State) (conn : Conn) : Option (Hand UInt8) :=
  conn.outputMutex.bind fun owner => s.threads[owner]?.bind fun thread => inHand thread.pc

structure Inv (opts : Options) (s : State) : Prop extends Places opts s where
  link : ∀ {connIndex : Nat} {conn : Conn}, s.conns[connIndex]? = some conn →
    QueuedLink.Inv (IsResponse opts conn.wireVersion) (connLink conn (handAt s conn) (tornAt s connIndex))

section ThreadStep

variable {opts : Options} {s : State} {index : Nat} {thread : Thread} {conn : Conn} {event : Event}
  {outcome : Outcome}

theorem handAt_before (hPlaces : Places opts s) (hThread : s.threads[index]? = some thread)
    (hConn : s.conns[thread.conn]? = some conn) :
    handAt s conn = handBefore thread.pc (handAt s conn) := by
  unfold handBefore
  split
  · rename_i hHolds
    exact heldAt_before hPlaces hThread hConn hHolds
  · rfl

theorem step_link (hInv : Inv opts s) (hThread : s.threads[index]? = some thread)
    (hConn : s.conns[thread.conn]? = some conn) (hLocal : Local opts index conn thread.pc outcome)
    (hGuard : ∀ frame, thread.pc = .writeLock frame → tornAt s thread.conn = true → conn.shutdown = true)
    (h : threadStep opts s index conn event thread.pc = some outcome) {connIndex : Nat} {now : Conn}
    (hNow : (apply s index thread outcome).conns[connIndex]? = some now) :
    QueuedLink.Inv (IsResponse opts now.wireVersion)
      (connLink now (handAt (apply s index thread outcome) now)
        (tornAt (apply s index thread outcome) connIndex)) := by
  obtain ⟨others, hBefore, hAfter⟩ := Pool.any_set hThread { thread with pc := outcome.pc }
    fun thread => thread.conn == connIndex && torn thread.pc
  have hTorn : tornAt (apply s index thread outcome) connIndex = _ := hAfter
  have hOldTorn : tornAt s connIndex = _ := hBefore
  obtain ⟨rfl, rfl⟩ | ⟨hAway, hNow⟩ := Pool.get_set_cases hConn hNow
  · have hLink := hInv.link hConn
    rw [handAt_before hInv.toPlaces hThread hConn, hOldTorn] at hLink
    have hHand : handAt (apply s index thread outcome) outcome.conn = handAfter thread.pc outcome.pc (handAt s conn) :=
      heldAt_after hInv.toPlaces hThread hConn hLocal
    rw [hHand, hTorn, hLocal.wireVersion]
    simp only [beq_self_eq_true, Bool.true_and] at hLink ⊢
    have hRefines : Refines opts conn thread.pc (handAt s conn) others outcome := by
      refine threadStep_refines (hInv.place hThread hConn) (hInv.table hConn) ?_ ?_ h
      · intro hNone
        rw [handAt, hNone]
        rfl
      · intro frame hPc hOthers
        refine hGuard frame hPc ?_
        rw [hOldTorn, hPc]
        simpa [torn] using hOthers
    exact hRefines.inv hLink
  · have hFalse : (thread.conn == connIndex) = false := by
      rw [beq_eq_false_iff_ne]
      exact Ne.symm hAway
    simp only [hFalse, Bool.false_and, Bool.or_false] at hTorn hOldTorn
    have hHand : handAt (apply s index thread outcome) now = handAt s now :=
      heldAt_away hInv.toPlaces hThread hNow rfl (.inl hAway)
    rw [hHand, hTorn, ← hOldTorn]
    exact hInv.link hNow

theorem thread_inv (hInv : Inv opts s) (hThread : s.threads[index]? = some thread)
    (hConn : s.conns[thread.conn]? = some conn)
    (hGuard : ∀ frame, thread.pc = .writeLock frame → tornAt s thread.conn = true → conn.shutdown = true)
    (h : threadStep opts s index conn event thread.pc = some outcome) :
    Inv opts (apply s index thread outcome) := by
  have hLocal : Local opts index conn thread.pc outcome := threadStep_local (hInv.place hThread hConn) h
  exact ⟨hInv.toPlaces.applied hThread hConn hLocal, step_link hInv hThread hConn hLocal hGuard h⟩

end ThreadStep

section Environment

variable {opts : Options} {s : State}

theorem spawn_inv (hInv : Inv opts s) {connIndex : Nat} {pc : Pc} (hHolds : holds pc = false)
    (hTorn : torn pc = false) (hPlace : ∀ conn, PcOk opts conn pc) :
    Inv opts { s with threads := s.threads ++ [⟨connIndex, pc⟩] } := by
  refine ⟨hInv.toPlaces.spawn hHolds hPlace, fun {current conn} hConn => ?_⟩
  have hSame : tornAt { s with threads := s.threads ++ [⟨connIndex, pc⟩] } current = tornAt s current := by
    simp [tornAt, hTorn]
  have hHand : handAt { s with threads := s.threads ++ [⟨connIndex, pc⟩] } conn = handAt s conn :=
    heldAt_spawn hInv.toPlaces hConn
  rw [hSame, hHand]
  exact hInv.link hConn

theorem outside_refines {old now : Conn} (h : Outside old now) (hand : Option (Hand UInt8)) (torn : Bool) :
    Step (IsResponse opts now.wireVersion) (connLink old hand torn) (connLink now hand torn) := by
  by_cases hSame : now.shutdown = old.shutdown
  · refine Step.of_eq (.stutter _) ?_
    simp only [connLink, h.wire, h.accepted, h.tickets, h.queue, hSame]
  · have hShut : now.shutdown = true := by
      cases hOld : old.shutdown with
      | true => exact h.shutdown hOld
      | false =>
        rw [hOld] at hSame
        exact Bool.eq_true_of_not_eq_false hSame
    refine Step.of_eq (.shut _ torn) ?_
    simp only [connLink, h.wire, h.accepted, h.tickets, h.queue, hShut]

theorem modify_inv (hInv : Inv opts s) {connIndex : Nat} {f : Conn → Conn} (hOutside : ∀ conn, Outside conn (f conn)) :
    Inv opts { s with conns := s.conns.modify connIndex f } := by
  refine ⟨hInv.toPlaces.modify hOutside, fun {current conn} hConn => ?_⟩
  obtain ⟨old, hOld, hOut⟩ := Outside.modified hOutside hConn
  have hHand : handAt { s with conns := s.conns.modify connIndex f } conn = handAt s old := by
    unfold handAt
    rw [hOut.outputMutex]
  rw [hHand]
  refine (outside_refines hOut _ _).inv ?_
  rw [hOut.wireVersion]
  exact hInv.link hOld

theorem step_inv {action : Action} {t : State} (hInv : Inv opts s) (hGuard : writesUntorn s action = true)
    (h : step opts s action = some t) : Inv opts t := by
  cases action with
  | respond connIndex requestId response deadline | flush connIndex | close connIndex =>
    rw [step, spawn] at h
    split at h
    · cases h
      exact spawn_inv hInv rfl rfl fun _ => trivial
    · cases h
  | thread index event =>
    rw [step] at h
    split at h
    · cases h
    · rename_i thread hThread
      split at h
      · cases h
      · rename_i conn hConn
        obtain ⟨outcome, hOutcome, rfl⟩ := Option.map_eq_some_iff.mp h
        refine thread_inv hInv hThread hConn ?_ hOutcome
        intro frame hPc hTorn
        obtain ⟨connIndex, pc⟩ := thread
        cases hPc
        simpa [writesUntorn, hThread, hTorn, hConn] using hGuard
  | server connIndex view =>
    cases h
    exact modify_inv hInv fun _ => ⟨rfl, rfl, rfl, id, rfl, rfl, rfl, rfl, rfl⟩
  | readiness fd =>
    cases h
    exact ⟨hInv.toPlaces.next (.readiness fd), hInv.link⟩
  | shutdownFd connIndex =>
    cases h
    exact modify_inv hInv fun _ => ⟨rfl, rfl, rfl, fun _ => rfl, rfl, rfl, rfl, rfl, rfl⟩

end Environment

theorem inv_initial {opts : Options} {s : State} (hInit : Initial s) : Inv opts s := by
  refine ⟨.start hInit, fun {connIndex conn} hConn => ?_⟩
  obtain ⟨hMutex, hQueue, _, hWire, hAccepted, _, _, _⟩ := hInit.conns conn (List.mem_of_getElem? hConn)
  have hHand : handAt s conn = none := by rw [handAt, hMutex]; rfl
  rw [hHand]
  constructor
  · simp [connLink, hAccepted]
  · simp [connLink, hAccepted, Ordered]
  · simp [connLink, hAccepted]
  · simp [connLink, hAccepted, hWire, Framed]
  · intro frame rest hNone
    cases hNone
  · refine .inr (.inr ?_)
    rw [owed_of_none rfl]
    simp [connLink, hAccepted, hWire, hQueue]

theorem inv_of_reached {opts : Options} {s : State}
    (h : (machine opts).Reached (fun s a => writesUntorn s a = true) s) : Inv opts s := by
  refine Machine.Reached.invariant (fun s (hInit : Initial s) => inv_initial hInit) ?_ h
  intro s action t _ hInv hGuard hStep
  exact step_inv hInv hGuard hStep

/-- The socket holds complete frames of accepted responses, in the order in which their writers held
`output_mutex`, and after them at most a first part of the next one. -/
structure WellFramed (opts : Options) (conn : Conn) : Prop where
  responses : ∀ write ∈ conn.accepted, IsResponse opts conn.wireVersion write.frame
  order : Ordered conn.accepted
  framed : Framed conn.accepted conn.wire

/-- In every run in which no writer takes `output_mutex` between another writer's partly sent, dropped
frame and the shutdown of the socket, every connection is well framed. -/
theorem responses_framed (opts : Options) (s : State)
    (h : (machine opts).Reached (fun s a => writesUntorn s a = true) s) :
    ∀ conn ∈ s.conns, WellFramed opts conn := by
  intro conn hConn
  obtain ⟨connIndex, hGet⟩ := List.mem_iff_getElem?.mp hConn
  have hLink := (inv_of_reached h).link hGet
  exact ⟨hLink.frames, hLink.order, hLink.framed⟩

def smallOptions : Options where
  maxMessageSize := 4
  maxOutputBytesPerConnection := 24
  maxTotalOutputBytes := 24
  includeHandlerErrorMessages := false

def openConn : Conn where
  wireVersion := 3
  inTable := true
  closing := false
  shutdown := false
  view := ⟨false, false, false, 1, 0⟩
  registeredEvents := ⟨true, false⟩
  outputMutex := none
  outputQueue := []
  queuedOutputBytes := 0
  wire := []
  accepted := []
  tickets := 0

def serving : State where
  readinessFd := 5
  conns := [openConn, openConn]
  threads := []
  totalQueuedOutputBytes := 0
  connectionsMutex := none

theorem serving_initial : (machine smallOptions).initial serving := by
  refine ⟨?_, rfl, rfl, rfl⟩
  intro conn hConn
  simp only [serving, List.mem_cons, List.not_mem_nil, or_false, or_self] at hConn
  subst hConn
  exact ⟨rfl, rfl, rfl, rfl, rfl, rfl, rfl, rfl⟩

def tornResponse : List Action :=
  [.respond 1 1 ⟨200, [1, 2, 3, 4]⟩ none, .thread 0 (.clock 0), .thread 0 .proceed,
    .thread 0 .wouldBlock, .thread 0 .proceed, .thread 0 .proceed,
    .respond 0 2 ⟨200, [5, 6, 7, 8]⟩ none, .respond 0 3 ⟨200, [9, 9, 9, 9]⟩ none,
    .thread 1 (.clock 0), .thread 2 (.clock 0),
    .thread 1 .proceed, .thread 1 (.sent 4), .thread 1 .proceed]

theorem responses_framed_torn : ∃ s,
    (machine smallOptions).Reached (fun s a => writesUntorn s a = true) s ∧ tornAt s 0 = true ∧
      (∃ conn ∈ s.conns, conn.wire.length = 4) ∧ ∀ conn ∈ s.conns, WellFramed smallOptions conn := by
  obtain ⟨s, hReached, hTorn, hWire⟩ := Machine.exists_reached_of_exec
    (fun s => tornAt s 0 = true ∧ ∃ conn ∈ s.conns, conn.wire.length = 4) writesUntorn tornResponse serving_initial
    (by decide)
  exact ⟨s, hReached, hTorn, hWire, responses_framed smallOptions s hReached⟩

/-- The bytes of the socket, whatever writes they come from, start no list of complete responses. -/
def Garbled (opts : Options) (conn : Conn) : Prop :=
  ¬ ∃ frames : List (List UInt8), (∀ frame ∈ frames, IsResponse opts conn.wireVersion frame) ∧
    conn.wire.map Prod.snd <+: frames.flatten

theorem isResponse_version {opts : Options} {wireVersion : UInt8} {frame : List UInt8}
    (h : IsResponse opts wireVersion frame) : frame[4]? = some (responseVersion wireVersion) := by
  obtain ⟨_, _, _, rfl⟩ := h
  rfl

theorem garbled_of_byte {opts : Options} {conn : Conn} {byte : UInt8}
    (hByte : (conn.wire.map Prod.snd)[4]? = some byte) (hNe : byte ≠ responseVersion conn.wireVersion) :
    Garbled opts conn := by
  rintro ⟨frames, hFrames, hBytes⟩
  exact hNe (common_byte (fun frame hFrame => isResponse_version (hFrames frame hFrame)) hBytes hByte)

/-- The writer that waits for `output_mutex` sends its whole response before the first one has shut
the socket down. -/
def responseAfterTorn : List Action := tornResponse ++ [Action.thread 2 .proceed, .thread 2 (.sent 24)]

theorem response_after_torn_frame : ∃ s, (machine smallOptions).Reachable s ∧ ∃ conn ∈ s.conns,
    conn.wire.length = 28 ∧ Garbled smallOptions conn ∧ ¬ WellFramed smallOptions conn := by
  obtain ⟨s, hReached, conn, hConn, hLength, hVersion, hByte⟩ := Machine.exists_reachable_of_exec
    (fun s => ∃ conn ∈ s.conns, conn.wire.length = 28 ∧ conn.wireVersion = 3 ∧
      (conn.wire.map Prod.snd)[4]? = some 69) responseAfterTorn serving_initial (by decide)
  have hGarbled : Garbled smallOptions conn := garbled_of_byte hByte (by rw [hVersion]; decide)
  refine ⟨s, hReached, conn, hConn, hLength, hGarbled, ?_⟩
  intro hFramed
  refine hGarbled ⟨conn.accepted.map Write.frame, ?_, hFramed.framed.bytes⟩
  intro frame hFrame
  obtain ⟨write, hWrite, rfl⟩ := List.mem_map.mp hFrame
  exact hFramed.responses write hWrite

end EasyUds.Reactor.OutputFraming

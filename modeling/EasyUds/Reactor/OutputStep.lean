import EasyUds.Lib.Pool
import EasyUds.Lib.QueuedLink
import EasyUds.Reactor.Output

/-! # One step of an output thread

Each connection is seen as a queued link: the frame of the writer that owns `output_mutex` is in hand,
`output_queue` is the backlog, and a writer whose partly sent frame is refused by a byte budget tears
the link until `close_connection` shuts the socket down. `Refines` says that a step of a thread is a
step of the link of its connection, and `Local` what the step leaves to the other threads.
-/

namespace EasyUds.Reactor.OutputStep

open Lib Lib.Framing Lib.QueuedLink
open Protocol.Codec Reactor.Output

def IsResponse (opts : Options) (wireVersion : UInt8) (bytes : List UInt8) : Prop :=
  ∃ requestId response deadline,
    bytes = frameBytes (outgoingFrame wireVersion requestId (acceptedResponse opts response) deadline)

def torn : Pc → Bool
  | .writeOverflow frame | .closeEnter (some frame) | .closeShutdown (some frame) => frame.offset != 0
  | _ => false

def holds : Pc → Bool
  | .writeSend .. | .writeReserve .. | .writePush .. | .flushTest _ | .flushSend _
  | .flushSubConnection .. | .flushSubTotal .. | .closeTotal .. => true
  | _ => false

def inHand : Pc → Option (Hand UInt8)
  | .writeSend frame _ | .writeReserve frame _ | .writePush frame _ =>
    some ⟨frameBytes frame, remainingBytes frame⟩
  | _ => none

def backlog (queue : List OutgoingFrame) : List (Nat × UInt8) :=
  queue.flatMap fun frame => tag frame.ticket (remainingBytes frame)

def connLink (conn : Conn) (hand : Option (Hand UInt8)) (torn : Bool) : Link UInt8 where
  wire := conn.wire
  accepted := conn.accepted
  tickets := conn.tickets
  backlog := backlog conn.outputQueue
  hand
  torn
  shutdown := conn.shutdown

def PcOk (opts : Options) (conn : Conn) : Pc → Prop
  | .writeLock frame => frame.offset = 0 ∧ IsResponse opts conn.wireVersion (frameBytes frame)
  | .writeSend frame _ => frame.offset = 0 ∧ frame.ticket = conn.tickets ∧ conn.outputQueue = [] ∧
    frameBytes frame ≠ []
  | .writeReserve frame _ | .writePush frame _ => frame.ticket = conn.tickets ∧
    (frame.offset = 0 ∨ 0 < frame.offset ∧ frame.offset < (frameBytes frame).length)
  | .closeOutput _ | .closeTotal .. | .closeLeave _ => conn.shutdown = true
  | _ => True

variable {frame : OutgoingFrame}

theorem remainingBytes_eq (frame : OutgoingFrame) :
    remainingBytes frame = (frameBytes frame).drop frame.offset := by
  unfold remainingBytes remainingParts frameBytes
  split
  · rename_i hHeader
    rw [List.drop_append_of_le_length (Nat.le_of_lt hHeader)]
    split
    · rename_i hBody
      simp [List.isEmpty_iff.mp hBody]
    · simp
  · rename_i hHeader
    have hPast : frame.header.drop frame.offset = [] := List.drop_eq_nil_of_le (by omega)
    rw [List.drop_append, hPast]
    simp

theorem frameBytes_length (frame : OutgoingFrame) : (frameBytes frame).length = frameSize frame :=
  List.length_append

theorem remainingBytes_whole (h : frame.offset = 0) : remainingBytes frame = frameBytes frame := by
  rw [remainingBytes_eq, h, List.drop_zero]

theorem isResponse_ne_nil {opts : Options} {wireVersion : UInt8} {bytes : List UInt8}
    (h : IsResponse opts wireVersion bytes) : bytes ≠ [] := by
  obtain ⟨requestId, response, deadline, rfl⟩ := h
  intro hNil
  have hLength := congrArg List.length hNil
  simp [frameBytes, outgoingFrame, headerSize] at hLength

@[simp] theorem backlog_nil : backlog [] = [] := rfl

@[simp] theorem backlog_append (left right : List OutgoingFrame) :
    backlog (left ++ right) = backlog left ++ backlog right := List.flatMap_append

@[simp] theorem backlog_cons (frame : OutgoingFrame) (rest : List OutgoingFrame) :
    backlog (frame :: rest) = tag frame.ticket (remainingBytes frame) ++ backlog rest := List.flatMap_cons

theorem backlog_popComplete (queue : List OutgoingFrame) : backlog (popComplete queue) = backlog queue := by
  cases queue with
  | nil => rfl
  | cons front rest =>
    rw [popComplete]
    split
    · rename_i hComplete
      rw [backlog_cons, remainingBytes_eq, hComplete, ← frameBytes_length, List.drop_length, tag_nil,
        List.nil_append]
    · rfl

def handBefore (pc : Pc) (other : Option (Hand UInt8)) : Option (Hand UInt8) :=
  if holds pc then inHand pc else other

def handAfter (pc next : Pc) (other : Option (Hand UInt8)) : Option (Hand UInt8) :=
  if holds next then inHand next else if holds pc then none else other

section ThreadStep

variable {opts : Options} {s : State} {index : Nat} {conn : Conn} {event : Event} {outcome : Outcome}
  {other : Option (Hand UInt8)} {others : Bool}

def Refines (opts : Options) (conn : Conn) (pc : Pc) (other : Option (Hand UInt8)) (others : Bool)
    (outcome : Outcome) : Prop :=
  Step (IsResponse opts conn.wireVersion) (connLink conn (handBefore pc other) (others || torn pc))
    (connLink outcome.conn (handAfter pc outcome.pc other) (others || torn outcome.pc))

variable {dropped : Option OutgoingFrame} {pending : UInt64} {pc : Pc} {flushed : Nat} {deadline : Option Nat}
  {response : Response} {requestId : UInt32}

theorem writeCheck_refines (h : writeCheckStep opts s conn event requestId response deadline = some outcome) :
    Refines opts conn (.writeCheck requestId response deadline) other others outcome := by
  unfold writeCheckStep at h
  split at h
  · split at h <;> cases h <;> exact .stutter _
  · cases h

theorem writeLock_refines (hOk : PcOk opts conn (.writeLock frame)) (hFree : conn.outputMutex = none → other = none)
    (hGuard : (others || false) = true → conn.shutdown = true) (h : writeLockStep s index conn frame = some outcome) :
    Refines opts conn (.writeLock frame) other others outcome := by
  unfold writeLockStep at h
  split at h
  · cases h
  · rename_i hMutex
    have hNone := hFree (Option.not_isSome_iff_eq_none.mp hMutex)
    subst hNone
    have hEnter := Step.enter (l := connLink conn none (others || false)) rfl hGuard hOk.2
    have hWhole : remainingBytes { frame with ticket := conn.tickets + 1 } = frameBytes frame :=
      remainingBytes_whole hOk.1
    have hHand : (⟨frameBytes frame, frameBytes frame⟩ : Hand UInt8) =
        ⟨frameBytes frame, remainingBytes { frame with ticket := conn.tickets + 1 }⟩ := by rw [hWhole]
    rw [hHand] at hEnter
    cases h
    unfold Refines
    split <;> exact hEnter

theorem writeSend_refines (hOk : PcOk opts conn (.writeSend frame pending))
    (h : writeSendStep s conn event frame pending = some outcome) :
    Refines opts conn (.writeSend frame pending) other others outcome := by
  obtain ⟨hOffset, hTicket, hQueue, _⟩ := hOk
  have hWhole := remainingBytes_whole hOffset
  have hHand : (connLink conn (handBefore (.writeSend frame pending) other)
      (others || torn (.writeSend frame pending))).hand = some ⟨frameBytes frame, frameBytes frame⟩ := by
    change some (⟨frameBytes frame, remainingBytes frame⟩ : Hand UInt8) = _
    rw [hWhole]
  unfold writeSendStep at h
  split at h
  case h_1 count =>
    split at h
    · cases h
    · rename_i hEnabled
      push Not at hEnabled
      obtain ⟨hOpen, hCount⟩ := hEnabled
      rw [hWhole] at hCount
      split at h
      · cases h
        exact .stutter _
      · rename_i hPos
        have hBacklog : backlog conn.outputQueue = [] := by rw [hQueue]; rfl
        have hLength := frameBytes_length frame
        split at h <;> cases h
        all_goals
          refine (Step.send hHand hBacklog (Bool.eq_false_iff.mpr hOpen) (Nat.pos_of_ne_zero hPos)
            hCount).of_eq ?_
        · rename_i hAll
          simp [connLink, handAfter, holds, torn, takeBytes, acceptFrame, releaseOutput, hTicket, hWhole,
            hLength, hAll]
        · rename_i hPart
          simp only [connLink, handAfter, holds, inHand, torn, takeBytes, acceptFrame, hTicket, hWhole,
            hLength, if_neg hPart, if_true]
          congr 2
          rw [remainingBytes_eq]
          rfl
  case h_2 =>
    split at h
    · cases h
    · cases h
      exact .stutter _
  case h_3 =>
    cases h
    refine (Step.abandon hHand).of_eq ?_
    simp [connLink, handAfter, holds, torn, releaseOutput]
  case h_4 => cases h

theorem writeReserve_refines (hOk : PcOk opts conn (.writeReserve frame pending))
    (h : writeReserveStep opts s conn frame pending = some outcome) :
    Refines opts conn (.writeReserve frame pending) other others outcome := by
  unfold writeReserveStep at h
  split at h
  · cases h
    exact .stutter _
  · cases h
    refine Step.of_eq (Step.abandon rfl) ?_
    have hTorn : decide ((remainingBytes frame).length < (frameBytes frame).length) = (frame.offset != 0) := by
      obtain ⟨_, hOffset⟩ := hOk
      rw [remainingBytes_eq, List.length_drop, Bool.eq_iff_iff, decide_eq_true_iff, bne_iff_ne]
      omega
    simp [connLink, handAfter, holds, torn, releaseOutput, hTorn]

theorem writePush_refines (hOk : PcOk opts conn (.writePush frame pending))
    (h : writePushStep s conn frame pending = some outcome) :
    Refines opts conn (.writePush frame pending) other others outcome := by
  obtain ⟨hTicket, hOffset⟩ := hOk
  have hPart : (remainingBytes frame).length < (frameBytes frame).length ↔ frame.offset ≠ 0 := by
    rw [remainingBytes_eq, List.length_drop]
    omega
  unfold writePushStep at h
  cases h
  refine Step.of_eq (Step.enqueue rfl) ?_
  by_cases hZero : frame.offset = 0 <;>
    simp [connLink, handAfter, holds, torn, releaseOutput, acceptFrame, hPart, hZero, hTicket]

theorem refresh_refines {next : Pc} {succeeds : Bool} (hHolds : holds pc = false) (hNext : holds next = false)
    (hTorn : torn pc = false) (hNextTorn : torn next = false) (total : UInt64) (mutex : Option Nat) :
    Refines opts conn pc other others
      ⟨(refreshConnectionEvents s.readinessFd conn succeeds).1, total, mutex, next⟩ := by
  unfold Refines
  simp only [hTorn, hNextTorn, handBefore, hHolds, handAfter, hNext, Bool.false_eq_true, if_false]
  unfold refreshConnectionEvents
  split
  · exact .stutter _
  · split
    · exact .stutter _
    · split
      · exact .stutter _
      · exact .shut _ _

theorem afterRefresh_quiet (enabled : Bool) :
    holds (afterRefresh enabled) = false ∧ torn (afterRefresh enabled) = false := by
  cases enabled <;> exact ⟨rfl, rfl⟩

theorem afterClose_quiet (dropped : Option OutgoingFrame) :
    holds (afterClose dropped) = false ∧ torn (afterClose dropped) = false := by
  cases dropped <;> exact ⟨rfl, rfl⟩

theorem writeRefresh_refines (h : writeRefreshStep s conn event = some outcome) :
    Refines opts conn .writeRefresh other others outcome := by
  unfold writeRefreshStep at h
  split at h
  · split at h
    · cases h
    · cases h
      exact refresh_refines rfl (afterRefresh_quiet _).1 rfl (afterRefresh_quiet _).2 _ _
  · cases h

theorem flushRefresh_refines (h : flushRefreshStep s conn event = some outcome) :
    Refines opts conn .flushRefresh other others outcome := by
  unfold flushRefreshStep at h
  split at h
  · split at h
    · cases h
    · cases h
      exact refresh_refines rfl rfl rfl rfl _ _
  · cases h

theorem flushTest_refines (h : flushTestStep s conn event flushed = some outcome) :
    Refines opts conn (.flushTest flushed) other others outcome := by
  unfold flushTestStep at h
  split at h
  · split at h
    · cases h
      exact .stutter _
    · split at h
      · cases h
        exact .stutter _
      · split at h <;> cases h <;> exact .stutter _
  · cases h

theorem flushSend_refines (h : flushSendStep s conn event flushed = some outcome) :
    Refines opts conn (.flushSend flushed) other others outcome := by
  unfold flushSendStep at h
  split at h
  · cases h
  · rename_i front rest hQueue
    split at h
    case h_1 count =>
      split at h
      · cases h
      · rename_i hEnabled
        push Not at hEnabled
        obtain ⟨hOpen, hCount⟩ := hEnabled
        split at h
        · cases h
          exact .stutter _
        · cases h
          have hBacklog : backlog conn.outputQueue =
              tag front.ticket ((remainingBytes front).take count) ++
                (tag front.ticket ((remainingBytes front).drop count) ++ backlog rest) := by
            rw [hQueue, backlog_cons, ← List.append_assoc, ← tag_append, List.take_append_drop]
          refine Step.of_eq (Step.drain rfl (Bool.eq_false_iff.mpr hOpen) hBacklog) ?_
          · simp only [connLink, handAfter, holds, inHand, torn, takeBytes, backlog_cons, if_true]
            congr 2
            rw [remainingBytes_eq, remainingBytes_eq, List.drop_drop]
            rfl
    case h_2 =>
      split at h <;> cases h
      exact .stutter _
    case h_3 =>
      cases h
      exact .stutter _
    case h_4 => cases h

theorem closeEnter_refines (hTable : conn.inTable = false → conn.shutdown = true)
    (h : closeEnterStep s index conn dropped = some outcome) :
    Refines opts conn (.closeEnter dropped) other others outcome := by
  unfold closeEnterStep at h
  split at h
  · cases h
  · split at h
    · cases h
      cases dropped <;> exact .stutter _
    · rename_i hAbsent
      have hShut := hTable (Bool.eq_false_iff.mpr hAbsent)
      cases h
      refine Step.of_eq (Step.shut _ (others || torn (afterClose dropped))) ?_
      simp only [connLink, handAfter, (afterClose_quiet dropped).1, hShut]
      rfl

theorem closeOutput_refines (hOk : PcOk opts conn (.closeOutput dropped))
    (hFree : conn.outputMutex = none → other = none) (h : closeOutputStep s index conn dropped = some outcome) :
    Refines opts conn (.closeOutput dropped) other others outcome := by
  unfold closeOutputStep at h
  split at h
  · cases h
  · rename_i hMutex
    have hNone := hFree (Option.not_isSome_iff_eq_none.mp hMutex)
    subst hNone
    cases h
    exact Step.clear hOk

theorem threadStep_refines (hOk : PcOk opts conn pc) (hTable : conn.inTable = false → conn.shutdown = true)
    (hFree : conn.outputMutex = none → other = none)
    (hGuard : ∀ frame, pc = .writeLock frame → (others || false) = true → conn.shutdown = true)
    (h : threadStep opts s index conn event pc = some outcome) :
    Refines opts conn pc other others outcome := by
  unfold threadStep at h
  cases pc with
  | writeCheck requestId response deadline => exact writeCheck_refines h
  | writeLock frame => exact writeLock_refines hOk hFree (hGuard frame rfl) h
  | writeSend frame pending => exact writeSend_refines hOk h
  | writeReserve frame pending => exact writeReserve_refines hOk h
  | writePush frame pending => exact writePush_refines hOk h
  | writeOverflow frame =>
    cases h
    exact .stutter _
  | writeRefresh => exact writeRefresh_refines h
  | flushLock =>
    dsimp only at h
    split at h
    · cases h
    · rename_i hMutex
      have hNone := hFree (Option.not_isSome_iff_eq_none.mp hMutex)
      subst hNone
      cases h
      exact .stutter _
  | flushTest flushed => exact flushTest_refines h
  | flushSend flushed => exact flushSend_refines h
  | flushSubConnection flushed count =>
    cases h
    exact .stutter _
  | flushSubTotal flushed count =>
    cases h
    refine Step.of_eq (.stutter _) ?_
    simp only [connLink, handBefore, handAfter, holds, inHand, torn, backlog_popComplete, if_true]
  | flushRefresh => exact flushRefresh_refines h
  | closeEnter dropped => exact closeEnter_refines hTable h
  | closeShutdown dropped =>
    cases h
    exact .shut _ _
  | closeOutput dropped => exact closeOutput_refines hOk hFree h
  | closeTotal queued dropped =>
    cases h
    exact .stutter _
  | closeLeave dropped =>
    obtain ⟨hHolds, hTorn⟩ := afterClose_quiet dropped
    cases h
    refine Step.of_eq (.stutter _) ?_
    simp only [connLink, handAfter, hHolds, hTorn]
    rfl
  | returned result => cases h

/-- What a step of a thread leaves to its own place and to the other threads of the connection. -/
structure Local (opts : Options) (index : Nat) (conn : Conn) (pc : Pc) (outcome : Outcome) : Prop where
  place : PcOk opts outcome.conn outcome.pc
  wireVersion : outcome.conn.wireVersion = conn.wireVersion
  table : outcome.conn.shutdown = conn.shutdown ∧ outcome.conn.inTable = conn.inTable ∨ outcome.conn.shutdown = true
  mutex : (outcome.conn.outputMutex = conn.outputMutex ∧ holds outcome.pc = holds pc) ∨
    (conn.outputMutex = none ∧ outcome.conn.outputMutex = some index ∧ holds pc = false ∧
      holds outcome.pc = true) ∨
    (outcome.conn.outputMutex = none ∧ holds pc = true ∧ holds outcome.pc = false)
  quiet : holds pc = false → conn.outputMutex ≠ none →
    outcome.conn.outputQueue = conn.outputQueue ∧ outcome.conn.tickets = conn.tickets

theorem Local.shutdown (h : Local opts index conn pc outcome) (hShut : conn.shutdown = true) :
    outcome.conn.shutdown = true :=
  h.table.elim (fun hSame => hSame.1.trans hShut) id

theorem local_outside (hPc : holds pc = false) (hNext : holds outcome.pc = false)
    (hPlace : PcOk opts outcome.conn outcome.pc)
    (hSame : outcome.conn.wireVersion = conn.wireVersion ∧ outcome.conn.outputMutex = conn.outputMutex ∧
      outcome.conn.outputQueue = conn.outputQueue ∧ outcome.conn.tickets = conn.tickets)
    (hTable : outcome.conn.shutdown = conn.shutdown ∧ outcome.conn.inTable = conn.inTable ∨
      outcome.conn.shutdown = true) : Local opts index conn pc outcome :=
  ⟨hPlace, hSame.1, hTable, .inl ⟨hSame.2.1, hNext.trans hPc.symm⟩, fun _ _ => hSame.2.2⟩

theorem local_inside (hPc : holds pc = true) (hNext : holds outcome.pc = true)
    (hPlace : PcOk opts outcome.conn outcome.pc)
    (hSame : outcome.conn.wireVersion = conn.wireVersion ∧ outcome.conn.outputMutex = conn.outputMutex ∧
      outcome.conn.shutdown = conn.shutdown ∧ outcome.conn.inTable = conn.inTable) :
    Local opts index conn pc outcome :=
  ⟨hPlace, hSame.1, .inl hSame.2.2, .inl ⟨hSame.2.1, hNext.trans hPc.symm⟩,
    fun hFalse => absurd (hFalse.symm.trans hPc) Bool.false_ne_true⟩

theorem local_release (hPc : holds pc = true) (hNext : holds outcome.pc = false)
    (hPlace : PcOk opts outcome.conn outcome.pc)
    (hSame : outcome.conn.wireVersion = conn.wireVersion ∧ outcome.conn.outputMutex = none ∧
      outcome.conn.shutdown = conn.shutdown ∧ outcome.conn.inTable = conn.inTable) :
    Local opts index conn pc outcome :=
  ⟨hPlace, hSame.1, .inl hSame.2.2, .inr (.inr ⟨hSame.2.1, hPc, hNext⟩),
    fun hFalse => absurd (hFalse.symm.trans hPc) Bool.false_ne_true⟩

theorem local_acquire (hPc : holds pc = false) (hNext : holds outcome.pc = true)
    (hPlace : PcOk opts outcome.conn outcome.pc) (hMutex : conn.outputMutex = none)
    (hSame : outcome.conn.wireVersion = conn.wireVersion ∧ outcome.conn.outputMutex = some index ∧
      outcome.conn.shutdown = conn.shutdown ∧ outcome.conn.inTable = conn.inTable) :
    Local opts index conn pc outcome :=
  ⟨hPlace, hSame.1, .inl hSame.2.2, .inr (.inl ⟨hMutex, hSame.2.1, hPc, hNext⟩),
    fun _ hSome => absurd hMutex hSome⟩

theorem writeCheck_local (h : writeCheckStep opts s conn event requestId response deadline = some outcome) :
    Local opts index conn (.writeCheck requestId response deadline) outcome := by
  unfold writeCheckStep at h
  split at h
  · split at h
    · cases h
      exact local_outside rfl rfl trivial ⟨rfl, rfl, rfl, rfl⟩ (.inl ⟨rfl, rfl⟩)
    · cases h
      exact local_outside rfl rfl ⟨rfl, _, _, _, rfl⟩ ⟨rfl, rfl, rfl, rfl⟩ (.inl ⟨rfl, rfl⟩)
  · cases h

theorem writeLock_local (hOk : PcOk opts conn (.writeLock frame))
    (h : writeLockStep s index conn frame = some outcome) :
    Local opts index conn (.writeLock frame) outcome := by
  unfold writeLockStep at h
  split at h
  · cases h
  · rename_i hMutex
    have hNone := Option.not_isSome_iff_eq_none.mp hMutex
    cases h
    by_cases hEmpty : conn.outputQueue.isEmpty = true
    · rw [if_pos hEmpty]
      exact local_acquire rfl rfl ⟨hOk.1, rfl, List.isEmpty_iff.mp hEmpty, isResponse_ne_nil hOk.2⟩ hNone
        ⟨rfl, rfl, rfl, rfl⟩
    · rw [if_neg hEmpty]
      exact local_acquire rfl rfl ⟨rfl, .inl hOk.1⟩ hNone ⟨rfl, rfl, rfl, rfl⟩

theorem writeSend_local (hOk : PcOk opts conn (.writeSend frame pending))
    (h : writeSendStep s conn event frame pending = some outcome) :
    Local opts index conn (.writeSend frame pending) outcome := by
  obtain ⟨hOffset, hTicket, _, _⟩ := hOk
  unfold writeSendStep at h
  split at h
  case h_1 count =>
    split at h
    · cases h
    · rename_i hEnabled
      push Not at hEnabled
      have hCount := hEnabled.2
      rw [remainingBytes_whole hOffset, frameBytes_length] at hCount
      split at h
      · cases h
        exact local_inside rfl rfl ⟨hTicket, .inl hOffset⟩ ⟨rfl, rfl, rfl, rfl⟩
      · rename_i hZero
        split at h
        · cases h
          exact local_release rfl rfl trivial ⟨rfl, rfl, rfl, rfl⟩
        · rename_i hPart
          have hLess : count < (frameBytes frame).length := by rw [frameBytes_length]; omega
          cases h
          exact local_inside rfl rfl ⟨hTicket, .inr ⟨Nat.pos_of_ne_zero hZero, hLess⟩⟩ ⟨rfl, rfl, rfl, rfl⟩
  case h_2 =>
    split at h
    · cases h
    · cases h
      exact local_inside rfl rfl ⟨hTicket, .inl hOffset⟩ ⟨rfl, rfl, rfl, rfl⟩
  case h_3 =>
    cases h
    exact local_release rfl rfl trivial ⟨rfl, rfl, rfl, rfl⟩
  case h_4 => cases h

theorem writeReserve_local (hOk : PcOk opts conn (.writeReserve frame pending))
    (h : writeReserveStep opts s conn frame pending = some outcome) :
    Local opts index conn (.writeReserve frame pending) outcome := by
  unfold writeReserveStep at h
  split at h
  · cases h
    exact local_inside rfl rfl hOk ⟨rfl, rfl, rfl, rfl⟩
  · cases h
    exact local_release rfl rfl trivial ⟨rfl, rfl, rfl, rfl⟩

theorem writePush_local (h : writePushStep s conn frame pending = some outcome) :
    Local opts index conn (.writePush frame pending) outcome := by
  unfold writePushStep at h
  cases h
  by_cases hZero : frame.offset = 0
  · rw [if_pos hZero]
    exact local_release rfl rfl trivial ⟨rfl, rfl, rfl, rfl⟩
  · rw [if_neg hZero]
    exact local_release rfl rfl trivial ⟨rfl, rfl, rfl, rfl⟩

theorem refresh_local {next : Pc} {succeeds : Bool} (hPc : holds pc = false) (hNext : holds next = false)
    (hPlace : ∀ conn', PcOk opts conn' next) (total : UInt64) (mutex : Option Nat) :
    Local opts index conn pc
      ⟨(refreshConnectionEvents s.readinessFd conn succeeds).1, total, mutex, next⟩ := by
  unfold refreshConnectionEvents
  split
  · exact local_outside hPc hNext (hPlace _) ⟨rfl, rfl, rfl, rfl⟩ (.inl ⟨rfl, rfl⟩)
  · split
    · exact local_outside hPc hNext (hPlace _) ⟨rfl, rfl, rfl, rfl⟩ (.inl ⟨rfl, rfl⟩)
    · split
      · exact local_outside hPc hNext (hPlace _) ⟨rfl, rfl, rfl, rfl⟩ (.inl ⟨rfl, rfl⟩)
      · exact local_outside hPc hNext (hPlace _) ⟨rfl, rfl, rfl, rfl⟩ (.inr rfl)

theorem writeRefresh_local (h : writeRefreshStep s conn event = some outcome) :
    Local opts index conn .writeRefresh outcome := by
  unfold writeRefreshStep at h
  split at h
  · split at h
    · cases h
    · cases h
      refine refresh_local rfl (afterRefresh_quiet _).1 ?_ _ _
      intro conn'
      unfold afterRefresh
      split <;> trivial
  · cases h

theorem flushRefresh_local (h : flushRefreshStep s conn event = some outcome) :
    Local opts index conn .flushRefresh outcome := by
  unfold flushRefreshStep at h
  split at h
  · split at h
    · cases h
    · cases h
      refine refresh_local rfl rfl ?_ _ _
      intro conn'
      trivial
  · cases h

theorem flushTest_local (h : flushTestStep s conn event flushed = some outcome) :
    Local opts index conn (.flushTest flushed) outcome := by
  unfold flushTestStep at h
  split at h
  · split at h
    · cases h
      exact local_release rfl rfl trivial ⟨rfl, rfl, rfl, rfl⟩
    · split at h
      · cases h
        exact local_release rfl rfl trivial ⟨rfl, rfl, rfl, rfl⟩
      · split at h
        · cases h
          exact local_release rfl rfl trivial ⟨rfl, rfl, rfl, rfl⟩
        · cases h
          exact local_inside rfl rfl trivial ⟨rfl, rfl, rfl, rfl⟩
  · cases h

theorem flushSend_local (h : flushSendStep s conn event flushed = some outcome) :
    Local opts index conn (.flushSend flushed) outcome := by
  unfold flushSendStep at h
  split at h
  · cases h
  · split at h
    · split at h
      · cases h
      · split at h
        · cases h
          exact local_release rfl rfl trivial ⟨rfl, rfl, rfl, rfl⟩
        · cases h
          exact local_inside rfl rfl trivial ⟨rfl, rfl, rfl, rfl⟩
    · split at h
      · cases h
      · cases h
        exact local_release rfl rfl trivial ⟨rfl, rfl, rfl, rfl⟩
    · cases h
      exact local_release rfl rfl trivial ⟨rfl, rfl, rfl, rfl⟩
    · cases h

theorem place_afterClose (conn : Conn) (dropped : Option OutgoingFrame) :
    PcOk opts conn (afterClose dropped) := by
  cases dropped <;> trivial

theorem closeEnter_local (h : closeEnterStep s index conn dropped = some outcome) :
    Local opts index conn (.closeEnter dropped) outcome := by
  unfold closeEnterStep at h
  split at h
  · cases h
  · split at h
    · cases h
      exact local_outside rfl rfl trivial ⟨rfl, rfl, rfl, rfl⟩ (.inl ⟨rfl, rfl⟩)
    · cases h
      exact local_outside rfl (afterClose_quiet dropped).1 (place_afterClose conn dropped)
        ⟨rfl, rfl, rfl, rfl⟩ (.inl ⟨rfl, rfl⟩)

theorem closeOutput_local (hOk : PcOk opts conn (.closeOutput dropped))
    (h : closeOutputStep s index conn dropped = some outcome) :
    Local opts index conn (.closeOutput dropped) outcome := by
  unfold closeOutputStep at h
  split at h
  · cases h
  · rename_i hMutex
    cases h
    exact local_acquire rfl rfl hOk (Option.not_isSome_iff_eq_none.mp hMutex) ⟨rfl, rfl, rfl, rfl⟩

theorem threadStep_local (hOk : PcOk opts conn pc) (h : threadStep opts s index conn event pc = some outcome) :
    Local opts index conn pc outcome := by
  unfold threadStep at h
  cases pc with
  | writeCheck requestId response deadline => exact writeCheck_local h
  | writeLock frame => exact writeLock_local hOk h
  | writeSend frame pending => exact writeSend_local hOk h
  | writeReserve frame pending => exact writeReserve_local hOk h
  | writePush frame pending => exact writePush_local h
  | writeOverflow frame =>
    cases h
    exact local_outside rfl rfl trivial ⟨rfl, rfl, rfl, rfl⟩ (.inl ⟨rfl, rfl⟩)
  | writeRefresh => exact writeRefresh_local h
  | flushLock =>
    dsimp only at h
    split at h
    · cases h
    · rename_i hMutex
      cases h
      exact local_acquire rfl rfl trivial (Option.not_isSome_iff_eq_none.mp hMutex) ⟨rfl, rfl, rfl, rfl⟩
  | flushTest flushed => exact flushTest_local h
  | flushSend flushed => exact flushSend_local h
  | flushSubConnection flushed count | flushSubTotal flushed count =>
    cases h
    exact local_inside rfl rfl trivial ⟨rfl, rfl, rfl, rfl⟩
  | flushRefresh => exact flushRefresh_local h
  | closeEnter dropped => exact closeEnter_local h
  | closeShutdown dropped =>
    cases h
    exact local_outside rfl rfl rfl ⟨rfl, rfl, rfl, rfl⟩ (.inr rfl)
  | closeOutput dropped => exact closeOutput_local hOk h
  | closeTotal queued dropped =>
    cases h
    exact local_release rfl rfl hOk ⟨rfl, rfl, rfl, rfl⟩
  | closeLeave dropped =>
    cases h
    exact local_outside rfl (afterClose_quiet dropped).1 (place_afterClose _ dropped) ⟨rfl, rfl, rfl, rfl⟩
      (.inr hOk)
  | returned result => cases h

theorem PcOk.kept {conn' : Conn} (h : PcOk opts conn pc) (hVersion : conn'.wireVersion = conn.wireVersion)
    (hShut : conn.shutdown = true → conn'.shutdown = true)
    (hOwned : holds pc = true → conn'.outputQueue = conn.outputQueue ∧ conn'.tickets = conn.tickets) :
    PcOk opts conn' pc := by
  cases pc with
  | writeLock frame => exact ⟨h.1, by rw [hVersion]; exact h.2⟩
  | writeSend frame pending =>
    obtain ⟨hQueue, hTickets⟩ := hOwned rfl
    exact ⟨h.1, h.2.1.trans hTickets.symm, hQueue.trans h.2.2.1, h.2.2.2⟩
  | writeReserve frame pending | writePush frame pending => exact ⟨h.1.trans (hOwned rfl).2.symm, h.2⟩
  | closeOutput dropped | closeTotal queued dropped | closeLeave dropped => exact hShut h
  | _ => trivial

end ThreadStep

end EasyUds.Reactor.OutputStep

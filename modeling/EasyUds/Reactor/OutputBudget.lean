import EasyUds.Reactor.OutputFraming

/-! # Queued output bytes

`queued_output_bytes` is the sum of what the frames of `output_queue` still have to send, and
`total_queued_output_bytes` the sum over the connections. Each of the two is behind by the bytes of a
thread that stands between the change of the queue and its atomic operation.
-/

namespace EasyUds.Reactor.OutputBudget

open Lib Protocol.Codec Reactor.Output Reactor.OutputStep Reactor.OutputPlaces
open Reactor.OutputFraming (smallOptions serving_initial)

def frameRest (frame : OutgoingFrame) : Nat := frameSize frame - frame.offset

def queueBytes (queue : List OutgoingFrame) : Nat := (queue.map frameRest).sum

def unsettled : Pc → Option Nat
  | .flushSubConnection _ count => some count
  | _ => none

def behind (pc : Pc) : Nat := (unsettled pc).getD 0

/-- The bytes that the total counts and no `queued_output_bytes` does: a reservation before its frame is
queued, and sent or dropped bytes before they are subtracted. -/
def inTransit : Pc → Nat
  | .writePush frame _ => frameRest frame
  | .flushSubTotal _ count => count
  | .closeTotal queued _ => queued.toNat
  | _ => 0

def countedBytes (s : State) : Nat :=
  (s.conns.map (·.queuedOutputBytes.toNat)).sum + (s.threads.map (inTransit ·.pc)).sum

variable {frame : OutgoingFrame} {connIndex flushed : Nat} {pending : UInt64} {opts : Options} {pc : Pc}
  {guard : State → Action → Prop} {s : State} {f : Conn → Conn}

theorem queueBytes_append (left right : List OutgoingFrame) :
    queueBytes (left ++ right) = queueBytes left + queueBytes right := by
  simp [queueBytes]

theorem queueBytes_cons (front : OutgoingFrame) (rest : List OutgoingFrame) :
    queueBytes (front :: rest) = frameRest front + queueBytes rest := by
  simp [queueBytes]

theorem queueBytes_popComplete (queue : List OutgoingFrame) : queueBytes (popComplete queue) = queueBytes queue := by
  cases queue with
  | nil => rfl
  | cons front rest =>
    rw [popComplete]
    split
    · rename_i hComplete
      rw [queueBytes_cons, frameRest, hComplete, Nat.sub_self, Nat.zero_add]
    · rfl

theorem remainingBytes_length (frame : OutgoingFrame) : (remainingBytes frame).length = frameRest frame := by
  rw [remainingBytes_eq, List.length_drop, frameBytes_length, frameRest]

theorem boundedErrorBody_length (message : List UInt8) (maxMessageSize : Nat) :
    (boundedErrorBody message maxMessageSize).length ≤ message.length := by
  unfold boundedErrorBody
  split
  · exact Nat.le_refl _
  · exact Nat.zero_le _

theorem errorResponse_small (opts : Options) {message : String} (h : (textBytes message).length ≤ maxWireField) :
    (errorResponse opts message).body.length ≤ maxWireField := by
  refine (boundedErrorBody_length _ _).trans ?_
  split
  · exact h
  · decide +kernel

theorem acceptedResponse_small (opts : Options) (response : Response) :
    (acceptedResponse opts response).body.length ≤ maxWireField := by
  unfold acceptedResponse
  split
  · exact errorResponse_small opts (by decide +kernel)
  · split
    · exact errorResponse_small opts (by decide +kernel)
    · rename_i hFits
      exact Nat.le_of_not_lt (not_or.mp hFits).2

theorem isResponse_small {wireVersion : UInt8} (h : IsResponse opts wireVersion (frameBytes frame)) :
    frameSize frame < 2 ^ 64 := by
  obtain ⟨requestId, response, deadline, hBytes⟩ := h
  rw [← frameBytes_length, hBytes, frameBytes_length, frameSize, outgoingFrame, encodeHeader_length]
  have hBody := acceptedResponse_small opts response
  simp only [maxWireField, headerSize] at hBody ⊢
  omega

def Charged (opts : Options) (conn : Conn) : Pc → Prop
  | .writeLock frame => frameSize frame < 2 ^ 64
  | .writeSend frame pending | .writeReserve frame pending =>
    frameSize frame < 2 ^ 64 ∧ pending = conn.queuedOutputBytes
  | .writePush frame pending => frameSize frame < 2 ^ 64 ∧ pending = conn.queuedOutputBytes ∧
    pending.toNat + frameRest frame ≤ opts.maxOutputBytesPerConnection.toNat
  | .flushSubTotal _ count => count < 2 ^ 64
  | _ => True

theorem Charged.kept {conn conn' : Conn} (h : Charged opts conn pc)
    (hOwned : holds pc = true → conn'.queuedOutputBytes = conn.queuedOutputBytes) : Charged opts conn' pc := by
  cases pc with
  | writeSend frame pending | writeReserve frame pending => exact ⟨h.1, h.2.trans (hOwned rfl).symm⟩
  | writePush frame pending => exact ⟨h.1, h.2.1.trans (hOwned rfl).symm, h.2.2⟩
  | writeLock frame | flushSubTotal flushed count => exact h
  | _ => trivial

def Plain (pc : Pc) : Prop := unsettled pc = none ∧ inTransit pc = 0

theorem plain_afterRefresh (enabled : Bool) : Plain (afterRefresh enabled) := by
  cases enabled <;> exact ⟨rfl, rfl⟩

theorem plain_afterClose (dropped : Option OutgoingFrame) : Plain (afterClose dropped) := by
  cases dropped <;> exact ⟨rfl, rfl⟩

theorem charged_afterRefresh (opts : Options) (conn : Conn) (enabled : Bool) :
    Charged opts conn (afterRefresh enabled) := by
  cases enabled <;> trivial

theorem charged_afterClose (opts : Options) (conn : Conn) (dropped : Option OutgoingFrame) :
    Charged opts conn (afterClose dropped) := by
  cases dropped <;> trivial

theorem remainingSize_toNat (h : frameSize frame < 2 ^ 64) :
    (remainingSize frame).toNat = frameRest frame :=
  UInt64.toNat_ofNat_of_lt' (Nat.lt_of_le_of_lt (Nat.sub_le _ _) h)

section

variable (opts : Options) (total : UInt64) (conn : Conn)

inductive Effect : Pc → Outcome → Prop
  | idle {pc : Pc} {outcome : Outcome} : outcome.conn.outputQueue = conn.outputQueue →
      outcome.conn.queuedOutputBytes = conn.queuedOutputBytes → outcome.total = total → Plain pc →
      Plain outcome.pc → Charged opts outcome.conn outcome.pc → Effect pc outcome
  | reserve {frame : OutgoingFrame} {pending : UInt64} {mutex : Option Nat} :
      frameRest frame ≤ opts.maxOutputBytesPerConnection.toNat →
      pending.toNat + frameRest frame ≤ opts.maxOutputBytesPerConnection.toNat →
      (opts.maxTotalOutputBytes = 0 ∨ total.toNat + frameRest frame ≤ opts.maxTotalOutputBytes.toNat) →
      Effect (.writeReserve frame pending)
        ⟨conn, total + UInt64.ofNat (frameRest frame), mutex, .writePush frame pending⟩
  | push {frame : OutgoingFrame} {pending : UInt64} {outcome : Outcome} :
      outcome.conn.outputQueue = conn.outputQueue ++ [frame] →
      outcome.conn.queuedOutputBytes = pending + remainingSize frame → outcome.total = total →
      outcome.pc = .writeRefresh → Effect (.writePush frame pending) outcome
  | sent {flushed count : Nat} {front : OutgoingFrame} {rest : List OutgoingFrame} {outcome : Outcome} :
      conn.outputQueue = front :: rest → count ≤ frameRest front →
      outcome.conn.outputQueue = { front with offset := front.offset + count } :: rest →
      outcome.conn.queuedOutputBytes = conn.queuedOutputBytes → outcome.total = total →
      outcome.pc = .flushSubConnection (flushed + count) count → Effect (.flushSend flushed) outcome
  | subConnection {flushed count : Nat} {mutex : Option Nat} : Effect (.flushSubConnection flushed count)
        ⟨{ conn with queuedOutputBytes := conn.queuedOutputBytes - UInt64.ofNat count }, total, mutex,
          .flushSubTotal flushed count⟩
  | subTotal {flushed count : Nat} {mutex : Option Nat} : Effect (.flushSubTotal flushed count)
        ⟨{ conn with outputQueue := popComplete conn.outputQueue }, total - UInt64.ofNat count, mutex,
          .flushTest flushed⟩
  | wipe {dropped : Option OutgoingFrame} {outcome : Outcome} : conn.outputMutex = none →
      outcome.conn.outputQueue = [] → outcome.conn.queuedOutputBytes = 0 → outcome.total = total →
      outcome.pc = .closeTotal conn.queuedOutputBytes dropped → Effect (.closeOutput dropped) outcome
  | wiped {queued : UInt64} {dropped : Option OutgoingFrame} {outcome : Outcome} :
      outcome.conn.outputQueue = conn.outputQueue → outcome.conn.queuedOutputBytes = conn.queuedOutputBytes →
      outcome.total = total - queued → outcome.pc = .closeLeave dropped →
      Effect (.closeTotal queued dropped) outcome

end

section ThreadStep

variable {opts : Options} {s : State} {index : Nat} {conn : Conn} {event : Event} {outcome : Outcome}
variable {dropped : Option OutgoingFrame}

theorem writeCheck_effect {requestId : UInt32} {response : Response} {deadline : Option Nat}
    (h : writeCheckStep opts s conn event requestId response deadline = some outcome) :
    Effect opts s.totalQueuedOutputBytes conn (.writeCheck requestId response deadline) outcome := by
  unfold writeCheckStep at h
  split at h
  · split at h <;> cases h
    · exact .idle rfl rfl rfl ⟨rfl, rfl⟩ ⟨rfl, rfl⟩ trivial
    · exact .idle rfl rfl rfl ⟨rfl, rfl⟩ ⟨rfl, rfl⟩ (isResponse_small ⟨_, _, _, rfl⟩)
  · cases h

theorem writeLock_effect (hCharged : Charged opts conn (.writeLock frame))
    (h : writeLockStep s index conn frame = some outcome) :
    Effect opts s.totalQueuedOutputBytes conn (.writeLock frame) outcome := by
  unfold writeLockStep at h
  split at h
  · cases h
  · cases h
    split
    · exact .idle rfl rfl rfl ⟨rfl, rfl⟩ ⟨rfl, rfl⟩ ⟨hCharged, rfl⟩
    · exact .idle rfl rfl rfl ⟨rfl, rfl⟩ ⟨rfl, rfl⟩ ⟨hCharged, rfl⟩

theorem writeSend_effect (hCharged : Charged opts conn (.writeSend frame pending))
    (h : writeSendStep s conn event frame pending = some outcome) :
    Effect opts s.totalQueuedOutputBytes conn (.writeSend frame pending) outcome := by
  unfold writeSendStep at h
  split at h
  · split at h
    · cases h
    · split at h
      · cases h
        exact .idle rfl rfl rfl ⟨rfl, rfl⟩ ⟨rfl, rfl⟩ hCharged
      · split at h <;> cases h
        · exact .idle rfl rfl rfl ⟨rfl, rfl⟩ ⟨rfl, rfl⟩ trivial
        · exact .idle rfl rfl rfl ⟨rfl, rfl⟩ ⟨rfl, rfl⟩ hCharged
  · split at h <;> cases h
    exact .idle rfl rfl rfl ⟨rfl, rfl⟩ ⟨rfl, rfl⟩ hCharged
  · cases h
    exact .idle rfl rfl rfl ⟨rfl, rfl⟩ ⟨rfl, rfl⟩ trivial
  · cases h

theorem reserveGlobalOutput_some {total bytes next : UInt64} (h : reserveGlobalOutput opts total bytes = some next) :
    next = total + bytes ∧
      (opts.maxTotalOutputBytes = 0 ∨ total.toNat + bytes.toNat ≤ opts.maxTotalOutputBytes.toNat) := by
  unfold reserveGlobalOutput at h
  split at h
  · rename_i hUnlimited
    exact ⟨(Option.some.inj h).symm, .inl hUnlimited⟩
  · split at h
    · rename_i hFits
      obtain ⟨hTotal, hBytes⟩ := hFits
      refine ⟨(Option.some.inj h).symm, .inr ?_⟩
      rw [UInt64.le_iff_toNat_le, UInt64.toNat_sub_of_le _ _ hTotal] at hBytes
      rw [UInt64.le_iff_toNat_le] at hTotal
      omega
    · cases h

theorem writeReserve_effect (hCharged : Charged opts conn (.writeReserve frame pending))
    (h : writeReserveStep opts s conn frame pending = some outcome) :
    Effect opts s.totalQueuedOutputBytes conn (.writeReserve frame pending) outcome := by
  have hSize := remainingSize_toNat hCharged.1
  unfold writeReserveStep at h
  split at h
  · rename_i total hReserved
    cases h
    unfold reserveOutput at hReserved
    split at hReserved
    · rename_i hRoom
      obtain ⟨hLimit, hPending⟩ := hRoom
      obtain ⟨rfl, hTotal⟩ := reserveGlobalOutput_some hReserved
      rw [UInt64.le_iff_toNat_le, UInt64.toNat_sub_of_le _ _ hLimit, hSize] at hPending
      rw [UInt64.le_iff_toNat_le, hSize] at hLimit
      rw [hSize] at hTotal
      exact .reserve hLimit (by omega) hTotal
    · cases hReserved
  · cases h
    exact .idle rfl rfl rfl ⟨rfl, rfl⟩ ⟨rfl, rfl⟩ trivial

theorem writePush_effect (h : writePushStep s conn frame pending = some outcome) :
    Effect opts s.totalQueuedOutputBytes conn (.writePush frame pending) outcome := by
  unfold writePushStep at h
  cases h
  exact .push rfl rfl rfl rfl

theorem refresh_effect {next : Pc} {succeeds : Bool} (hPc : Plain pc) (hNext : Plain next)
    (hCharged : ∀ conn', Charged opts conn' next) (mutex : Option Nat) :
    Effect opts s.totalQueuedOutputBytes conn pc
      ⟨(refreshConnectionEvents s.readinessFd conn succeeds).1, s.totalQueuedOutputBytes, mutex, next⟩ := by
  unfold refreshConnectionEvents
  split
  · exact .idle rfl rfl rfl hPc hNext (hCharged _)
  · split
    · exact .idle rfl rfl rfl hPc hNext (hCharged _)
    · split <;> exact .idle rfl rfl rfl hPc hNext (hCharged _)

theorem writeRefresh_effect (h : writeRefreshStep s conn event = some outcome) :
    Effect opts s.totalQueuedOutputBytes conn .writeRefresh outcome := by
  unfold writeRefreshStep at h
  split at h
  · split at h
    · cases h
    · cases h
      exact refresh_effect ⟨rfl, rfl⟩ (plain_afterRefresh _) (fun _ => charged_afterRefresh _ _ _) _
  · cases h

theorem flushRefresh_effect (h : flushRefreshStep s conn event = some outcome) :
    Effect opts s.totalQueuedOutputBytes conn .flushRefresh outcome := by
  unfold flushRefreshStep at h
  split at h
  · split at h
    · cases h
    · cases h
      exact refresh_effect ⟨rfl, rfl⟩ ⟨rfl, rfl⟩ (fun conn' => show Charged opts conn' (.returned _) from trivial) _
  · cases h

theorem flushTest_effect (h : flushTestStep s conn event flushed = some outcome) :
    Effect opts s.totalQueuedOutputBytes conn (.flushTest flushed) outcome := by
  unfold flushTestStep at h
  split at h
  · split at h
    · cases h
      exact .idle rfl rfl rfl ⟨rfl, rfl⟩ ⟨rfl, rfl⟩ trivial
    · split at h
      · cases h
        exact .idle rfl rfl rfl ⟨rfl, rfl⟩ ⟨rfl, rfl⟩ trivial
      · split at h <;> cases h <;> exact .idle rfl rfl rfl ⟨rfl, rfl⟩ ⟨rfl, rfl⟩ trivial
  · cases h

theorem flushSend_effect (h : flushSendStep s conn event flushed = some outcome) :
    Effect opts s.totalQueuedOutputBytes conn (.flushSend flushed) outcome := by
  unfold flushSendStep at h
  split at h
  · cases h
  · rename_i front rest hQueue
    split at h
    · split at h
      · cases h
      · rename_i hEnabled
        rw [remainingBytes_length] at hEnabled
        split at h
        · cases h
          exact .idle rfl rfl rfl ⟨rfl, rfl⟩ ⟨rfl, rfl⟩ trivial
        · cases h
          exact .sent hQueue (Nat.le_of_not_lt (not_or.mp hEnabled).2) rfl rfl rfl rfl
    · split at h <;> cases h
      exact .idle rfl rfl rfl ⟨rfl, rfl⟩ ⟨rfl, rfl⟩ trivial
    · cases h
      exact .idle rfl rfl rfl ⟨rfl, rfl⟩ ⟨rfl, rfl⟩ trivial
    · cases h

theorem closeEnter_effect (h : closeEnterStep s index conn dropped = some outcome) :
    Effect opts s.totalQueuedOutputBytes conn (.closeEnter dropped) outcome := by
  unfold closeEnterStep at h
  split at h
  · cases h
  · split at h <;> cases h
    · exact .idle rfl rfl rfl ⟨rfl, rfl⟩ ⟨rfl, rfl⟩ trivial
    · exact .idle rfl rfl rfl ⟨rfl, rfl⟩ (plain_afterClose dropped) (charged_afterClose _ _ dropped)

theorem closeOutput_effect (h : closeOutputStep s index conn dropped = some outcome) :
    Effect opts s.totalQueuedOutputBytes conn (.closeOutput dropped) outcome := by
  unfold closeOutputStep at h
  split at h
  · cases h
  · rename_i hMutex
    cases h
    exact .wipe (Option.not_isSome_iff_eq_none.mp hMutex) rfl rfl rfl rfl

theorem threadStep_effect (hCharged : Charged opts conn pc) (h : threadStep opts s index conn event pc = some outcome) :
    Effect opts s.totalQueuedOutputBytes conn pc outcome := by
  unfold threadStep at h
  cases pc with
  | writeCheck requestId response deadline => exact writeCheck_effect h
  | writeLock frame => exact writeLock_effect hCharged h
  | writeSend frame pending => exact writeSend_effect hCharged h
  | writeReserve frame pending => exact writeReserve_effect hCharged h
  | writePush frame pending => exact writePush_effect h
  | writeRefresh => exact writeRefresh_effect h
  | flushLock =>
    dsimp only at h
    split at h <;> cases h
    exact .idle rfl rfl rfl ⟨rfl, rfl⟩ ⟨rfl, rfl⟩ trivial
  | flushTest flushed => exact flushTest_effect h
  | flushSend flushed => exact flushSend_effect h
  | flushSubConnection flushed count =>
    cases h
    exact .subConnection
  | flushSubTotal flushed count =>
    cases h
    exact .subTotal
  | flushRefresh => exact flushRefresh_effect h
  | closeEnter dropped => exact closeEnter_effect h
  | writeOverflow frame | closeShutdown dropped =>
    cases h
    exact .idle rfl rfl rfl ⟨rfl, rfl⟩ ⟨rfl, rfl⟩ trivial
  | closeOutput dropped => exact closeOutput_effect h
  | closeTotal queued dropped =>
    cases h
    exact .wiped rfl rfl rfl rfl
  | closeLeave dropped =>
    cases h
    exact .idle rfl rfl rfl ⟨rfl, rfl⟩ (plain_afterClose dropped) (charged_afterClose _ _ dropped)
  | returned result => cases h

variable {pc : Pc} {total : UInt64} {others : Nat}

theorem Effect.quiet (h : Effect opts total conn pc outcome) (hPc : holds pc = false)
    (hMutex : conn.outputMutex ≠ none) : outcome.conn.queuedOutputBytes = conn.queuedOutputBytes := by
  cases h with
  | idle _ hQueued => exact hQueued
  | wipe hNone => exact absurd hNone hMutex
  | reserve | push | sent | subConnection | subTotal | wiped => cases hPc

theorem count_le_queued {count : Nat} {queue : List OutgoingFrame} {queued : UInt64}
    (hHeld : others = behind (.flushSubConnection flushed count)) (h : queued.toNat = queueBytes queue + others) :
    (UInt64.ofNat count).toNat = count ∧ UInt64.ofNat count ≤ queued := by
  have hCount : others = count := hHeld
  have hLess := queued.toNat_lt
  have hExact : (UInt64.ofNat count).toNat = count := UInt64.toNat_ofNat_of_lt' (show count < 2 ^ 64 by omega)
  refine ⟨hExact, ?_⟩
  rw [UInt64.le_iff_toNat_le, hExact]
  omega

theorem push_toNat (hCharged : Charged opts conn (.writePush frame pending)) :
    (pending + remainingSize frame).toNat = conn.queuedOutputBytes.toNat + frameRest frame ∧
      pending + remainingSize frame ≤ opts.maxOutputBytesPerConnection := by
  obtain ⟨hSize, rfl, hRoom⟩ := hCharged
  have hLimit := opts.maxOutputBytesPerConnection.toNat_lt
  have hSum : (conn.queuedOutputBytes + remainingSize frame).toNat =
      conn.queuedOutputBytes.toNat + frameRest frame := by
    rw [UInt64.toNat_add, remainingSize_toNat hSize]
    omega
  refine ⟨hSum, ?_⟩
  rw [UInt64.le_iff_toNat_le, hSum]
  exact hRoom

theorem Effect.charged (h : Effect opts total conn pc outcome) (hCharged : Charged opts conn pc)
    (hHeld : holds pc = true → others = behind pc)
    (hBalanced : conn.queuedOutputBytes.toNat = queueBytes conn.outputQueue + others) :
    Charged opts outcome.conn outcome.pc := by
  cases h with
  | idle _ _ _ _ _ hNext => exact hNext
  | reserve _ hRoom => exact ⟨hCharged.1, hCharged.2, hRoom⟩
  | push _ _ _ hPc | sent _ _ _ _ _ hPc | wipe _ _ _ _ hPc | wiped _ _ _ hPc =>
    rw [hPc]
    trivial
  | @subConnection flushed count =>
    have hExact := (count_le_queued (hHeld rfl) hBalanced).1
    have hLess := (UInt64.ofNat count).toNat_lt
    rw [hExact] at hLess
    exact hLess
  | subTotal => trivial

theorem Effect.balanced (h : Effect opts total conn pc outcome) (hLocal : Local opts index conn pc outcome)
    (hCharged : Charged opts conn pc) (hFree : conn.outputMutex = none → others = 0)
    (hHeld : holds pc = true → others = behind pc)
    (hBalanced : conn.queuedOutputBytes.toNat = queueBytes conn.outputQueue + others) :
    outcome.conn.queuedOutputBytes.toNat = queueBytes outcome.conn.outputQueue +
      (if holds outcome.pc then behind outcome.pc else if holds pc then 0 else others) := by
  cases h with
  | idle hQueue hQueued _ hPlain hNext _ =>
    have hBehind : behind outcome.pc = 0 := by rw [behind, hNext.1]; rfl
    have hOthers : holds pc = true → others = 0 := by
      intro hHolds
      rw [hHeld hHolds, behind, hPlain.1]
      rfl
    rw [hQueue, hQueued, hBalanced, hBehind]
    obtain ⟨_, hSame⟩ | ⟨hNone, _, _, hHolds⟩ | ⟨_, hHolds, hLeft⟩ := hLocal.mutex
    · rw [hSame]
      split
      · rename_i hHolds
        rw [hOthers hHolds]
      · rfl
    · rw [if_pos hHolds, hFree hNone]
    · rw [hLeft, hHolds, if_neg Bool.false_ne_true, if_pos rfl, hOthers hHolds]
  | reserve =>
    rw [hHeld rfl] at hBalanced
    exact hBalanced
  | push hQueue hQueued _ hPc =>
    rw [hPc, hQueue, hQueued, (push_toNat hCharged).1, hBalanced, hHeld rfl, queueBytes_append, queueBytes_cons]
    rfl
  | @sent flushed count front rest _ hOld hCount hQueue hQueued _ hPc =>
    have hRest : frameRest front = frameRest { front with offset := front.offset + count } + count := by
      change frameSize front - front.offset = frameSize front - (front.offset + count) + count
      unfold frameRest at hCount
      omega
    rw [hPc, hQueue, hQueued, hBalanced, hHeld rfl, hOld, queueBytes_cons, queueBytes_cons, hRest]
    change _ + 0 = _ + count
    omega
  | @subConnection flushed count =>
    obtain ⟨hExact, hLe⟩ := count_le_queued (hHeld rfl) hBalanced
    have hOthers : others = count := hHeld rfl
    change (conn.queuedOutputBytes - UInt64.ofNat count).toNat = queueBytes conn.outputQueue + 0
    rw [UInt64.toNat_sub_of_le _ _ hLe, hExact, hBalanced]
    omega
  | subTotal =>
    have hOthers : others = 0 := hHeld rfl
    change conn.queuedOutputBytes.toNat = queueBytes (popComplete conn.outputQueue) + 0
    rw [queueBytes_popComplete, hBalanced, hOthers]
  | wipe hNone hQueue hQueued _ hPc =>
    rw [hPc, hQueue, hQueued]
    rfl
  | wiped hQueue hQueued _ hPc =>
    rw [hPc, hQueue, hQueued, hBalanced, hHeld rfl]
    rfl

theorem Effect.within (h : Effect opts total conn pc outcome) (hCharged : Charged opts conn pc)
    (hHeld : holds pc = true → others = behind pc)
    (hBalanced : conn.queuedOutputBytes.toNat = queueBytes conn.outputQueue + others)
    (hWithin : conn.queuedOutputBytes ≤ opts.maxOutputBytesPerConnection) :
    outcome.conn.queuedOutputBytes ≤ opts.maxOutputBytesPerConnection := by
  cases h with
  | idle _ hQueued | sent _ _ _ hQueued | wiped _ hQueued => exact hQueued ▸ hWithin
  | reserve | subTotal => exact hWithin
  | push _ hQueued => exact hQueued ▸ (push_toNat hCharged).2
  | @subConnection flushed count =>
    obtain ⟨_, hLe⟩ := count_le_queued (hHeld rfl) hBalanced
    refine UInt64.le_trans ?_ hWithin
    rw [UInt64.le_iff_toNat_le, UInt64.toNat_sub_of_le _ _ hLe]
    exact Nat.sub_le _ _
  | wipe _ _ hQueued => exact hQueued ▸ UInt64.zero_le

inductive Transfer (opts : Options) (total total' : UInt64) (share share' : Nat) : Prop
  | keep : total' = total → share' = share → Transfer opts total total' share share'
  | gain (count : Nat) : total' = total + UInt64.ofNat count → share' = share + count →
      (opts.maxTotalOutputBytes = 0 ∨ total.toNat + count ≤ opts.maxTotalOutputBytes.toNat) →
      Transfer opts total total' share share'
  | spend (count : Nat) : total' = total - UInt64.ofNat count → share = share' + count →
      Transfer opts total total' share share'

theorem Effect.transfer (h : Effect opts total conn pc outcome) (hCharged : Charged opts conn pc)
    (hHeld : holds pc = true → others = behind pc)
    (hBalanced : conn.queuedOutputBytes.toNat = queueBytes conn.outputQueue + others) :
    Transfer opts total outcome.total (conn.queuedOutputBytes.toNat + inTransit pc)
      (outcome.conn.queuedOutputBytes.toNat + inTransit outcome.pc) := by
  cases h with
  | idle _ hQueued hTotal hPlain hNext _ => exact .keep hTotal (by rw [hQueued, hPlain.2, hNext.2])
  | @reserve frame pending mutex _ _ hTotal => exact .gain (frameRest frame) rfl rfl hTotal
  | push _ hQueued hTotal hPc =>
    refine .keep hTotal ?_
    rw [hQueued, hPc, (push_toNat hCharged).1]
    rfl
  | sent _ _ _ hQueued hTotal hPc => exact .keep hTotal (by rw [hQueued, hPc]; rfl)
  | @subConnection flushed count =>
    obtain ⟨hExact, hLe⟩ := count_le_queued (hHeld rfl) hBalanced
    refine .keep rfl ?_
    change (conn.queuedOutputBytes - UInt64.ofNat count).toNat + count = conn.queuedOutputBytes.toNat + 0
    rw [UInt64.toNat_sub_of_le _ _ hLe, hExact]
    rw [UInt64.le_iff_toNat_le, hExact] at hLe
    omega
  | @subTotal flushed count => exact .spend count rfl rfl
  | wipe _ _ hQueued hTotal hPc =>
    refine .keep hTotal ?_
    rw [hQueued, hPc]
    exact Nat.add_comm _ _
  | @wiped queued dropped _ _ hQueued hTotal hPc =>
    refine .spend queued.toNat (by rw [hTotal, UInt64.ofNat_toNat]) ?_
    rw [hQueued, hPc]
    rfl

end ThreadStep

structure Inv (opts : Options) (s : State) : Prop where
  charged : ∀ {index : Nat} {thread : Thread} {conn : Conn}, s.threads[index]? = some thread →
    s.conns[thread.conn]? = some conn → Charged opts conn thread.pc
  balanced : ∀ {connIndex : Nat} {conn : Conn}, s.conns[connIndex]? = some conn →
    conn.queuedOutputBytes.toNat = queueBytes conn.outputQueue + (heldAt unsettled s conn).getD 0
  within : ∀ {connIndex : Nat} {conn : Conn}, s.conns[connIndex]? = some conn →
    conn.queuedOutputBytes ≤ opts.maxOutputBytesPerConnection
  total : s.totalQueuedOutputBytes = UInt64.ofNat (countedBytes s)
  bounded : opts.maxTotalOutputBytes ≠ 0 → countedBytes s ≤ opts.maxTotalOutputBytes.toNat

section Step

variable {opts : Options} {s : State} {index : Nat} {thread : Thread} {conn : Conn} {outcome : Outcome}

theorem Inv.total_toNat (hInv : Inv opts s) (h : opts.maxTotalOutputBytes ≠ 0 ∨ countedBytes s < 2 ^ 64) :
    s.totalQueuedOutputBytes.toNat = countedBytes s := by
  rw [hInv.total]
  refine UInt64.toNat_ofNat_of_lt' ?_
  obtain hLimited | hFits := h
  · exact Nat.lt_of_le_of_lt (hInv.bounded hLimited) opts.maxTotalOutputBytes.toNat_lt
  · exact hFits

theorem countedBytes_apply (outcome : Outcome) (hThread : s.threads[index]? = some thread)
    (hConn : s.conns[thread.conn]? = some conn) :
    ∃ others, countedBytes s = others + (conn.queuedOutputBytes.toNat + inTransit thread.pc) ∧
      countedBytes (apply s index thread outcome) =
        others + (outcome.conn.queuedOutputBytes.toNat + inTransit outcome.pc) := by
  obtain ⟨conns, hConns, hConns'⟩ := Pool.sum_set hConn outcome.conn (·.queuedOutputBytes.toNat)
  obtain ⟨threads, hThreads, hThreads'⟩ := Pool.sum_set hThread { thread with pc := outcome.pc } (inTransit ·.pc)
  refine ⟨conns + threads, ?_, ?_⟩
  · rw [countedBytes, hConns, hThreads]
    omega
  · rw [countedBytes, apply, hConns', hThreads']
    dsimp only
    omega

theorem Transfer.keeps {total total' : UInt64} {others share share' : Nat} (h : Transfer opts total total' share share')
    (hTotal : total = UInt64.ofNat (others + share))
    (hBounded : opts.maxTotalOutputBytes ≠ 0 → others + share ≤ opts.maxTotalOutputBytes.toNat) :
    total' = UInt64.ofNat (others + share') ∧
      (opts.maxTotalOutputBytes ≠ 0 → others + share' ≤ opts.maxTotalOutputBytes.toNat) := by
  cases h with
  | keep hSame hShare =>
    rw [hSame, hShare]
    exact ⟨hTotal, hBounded⟩
  | gain count hSum hShare hRoom =>
    refine ⟨by rw [hSum, hShare, hTotal, ← UInt64.ofNat_add, Nat.add_assoc], ?_⟩
    intro hLimited
    have hExact : total.toNat = others + share := by
      rw [hTotal]
      exact UInt64.toNat_ofNat_of_lt' (Nat.lt_of_le_of_lt (hBounded hLimited) opts.maxTotalOutputBytes.toNat_lt)
    obtain hUnlimited | hRoom := hRoom
    · exact absurd hUnlimited hLimited
    · omega
  | spend count hSub hShare =>
    refine ⟨?_, ?_⟩
    · rw [hSub, hTotal, hShare, ← Nat.add_assoc, UInt64.ofNat_add, UInt64.add_sub_cancel]
    · intro hLimited
      have := hBounded hLimited
      omega

theorem Inv.applied (hInv : Inv opts s) (hPlaces : Places opts s) (hThread : s.threads[index]? = some thread)
    (hConn : s.conns[thread.conn]? = some conn) (hLocal : Local opts index conn thread.pc outcome)
    (hEffect : Effect opts s.totalQueuedOutputBytes conn thread.pc outcome) :
    Inv opts (apply s index thread outcome) := by
  have hCharged := hInv.charged hThread hConn
  have hBalanced := hInv.balanced hConn
  have hHeld : holds thread.pc = true → (heldAt unsettled s conn).getD 0 = behind thread.pc := by
    intro hHolds
    rw [heldAt_before hPlaces hThread hConn hHolds, behind]
  have hFree : conn.outputMutex = none → (heldAt unsettled s conn).getD 0 = 0 := by
    intro hNone
    rw [heldAt, hNone]
    rfl
  obtain ⟨others, hBefore, hAfter⟩ := countedBytes_apply outcome hThread hConn
  obtain ⟨hTotal, hBounded⟩ := (hEffect.transfer hCharged hHeld hBalanced).keeps (hBefore ▸ hInv.total)
    (hBefore ▸ hInv.bounded)
  refine ⟨?_, ?_, ?_, hAfter ▸ hTotal, hAfter ▸ hBounded⟩
  · intro other current now hCurrent hNow
    obtain ⟨rfl, rfl⟩ | ⟨hNe, hCurrent⟩ := Pool.get_set_cases hThread hCurrent
    · obtain ⟨_, rfl⟩ | ⟨hAway, _⟩ := Pool.get_set_cases hConn hNow
      · exact hEffect.charged hCharged hHeld hBalanced
      · exact absurd rfl hAway
    · obtain ⟨hHere, rfl⟩ | ⟨_, hNow⟩ := Pool.get_set_cases hConn hNow
      · -- another thread on the same connection owns it, so the step has left its counter alone
        have hOther : s.conns[current.conn]? = some conn := hHere ▸ hConn
        refine (hInv.charged hCurrent hOther).kept fun hHolds => ?_
        have hOwner := hPlaces.holder hCurrent hOther hHolds
        refine hEffect.quiet (Bool.eq_false_iff.mpr fun hPc => hNe ?_) (by rw [hOwner]; simp)
        exact Option.some.inj (hOwner.symm.trans (hPlaces.holder hThread hConn hPc))
      · exact hInv.charged hCurrent hNow
  · intro connIndex now hNow
    obtain ⟨_, rfl⟩ | ⟨hAway, hNow⟩ := Pool.get_set_cases hConn hNow
    · rw [heldAt_after hPlaces hThread hConn hLocal, hEffect.balanced hLocal hCharged hFree hHeld hBalanced]
      split
      · rfl
      · split <;> rfl
    · rw [heldAt_away hPlaces hThread hNow rfl (.inl hAway)]
      exact hInv.balanced hNow
  · intro connIndex now hNow
    obtain ⟨_, rfl⟩ | ⟨_, hNow⟩ := Pool.get_set_cases hConn hNow
    · exact hEffect.within hCharged hHeld hBalanced (hInv.within hConn)
    · exact hInv.within hNow

theorem Inv.spawn (hInv : Inv opts s) (hPlaces : Places opts s) (hPlain : Plain pc)
    (hCharged : ∀ conn, Charged opts conn pc) : Inv opts { s with threads := s.threads ++ [⟨connIndex, pc⟩] } := by
  have hCounted : countedBytes { s with threads := s.threads ++ [⟨connIndex, pc⟩] } = countedBytes s := by
    simp [countedBytes, hPlain.2]
  refine ⟨?_, ?_, hInv.within, hCounted ▸ hInv.total, hCounted ▸ hInv.bounded⟩
  · intro index thread conn hThread hConn
    obtain hOld | rfl := spawn_cases hThread
    · exact hInv.charged hOld hConn
    · exact hCharged conn
  · intro current conn hConn
    rw [heldAt_spawn hPlaces hConn]
    exact hInv.balanced hConn

theorem Inv.modify (hInv : Inv opts s) (hOutside : ∀ conn, Outside conn (f conn)) :
    Inv opts { s with conns := s.conns.modify connIndex f } := by
  have hCounted : countedBytes { s with conns := s.conns.modify connIndex f } = countedBytes s := by
    have hSame : ∀ conn : Conn, (f conn).queuedOutputBytes.toNat = conn.queuedOutputBytes.toNat := fun conn =>
      congrArg UInt64.toNat (hOutside conn).queued
    rw [countedBytes, countedBytes, Pool.map_modify hSame]
  refine ⟨?_, ?_, ?_, hCounted ▸ hInv.total, hCounted ▸ hInv.bounded⟩
  · intro index thread conn hThread hConn
    obtain ⟨old, hOld, hOut⟩ := Outside.modified hOutside hConn
    exact (hInv.charged hThread hOld).kept fun _ => hOut.queued
  · intro current conn hConn
    obtain ⟨old, hOld, hOut⟩ := Outside.modified hOutside hConn
    rw [hOut.queued, hOut.queue, hInv.balanced hOld, heldAt, heldAt, hOut.outputMutex]
  · intro current conn hConn
    obtain ⟨old, hOld, hOut⟩ := Outside.modified hOutside hConn
    rw [hOut.queued]
    exact hInv.within hOld

theorem plain_of_entry (h : entry pc = true) : Plain pc := by
  cases pc <;> first | exact ⟨rfl, rfl⟩ | cases h

theorem charged_of_entry (h : entry pc = true) (conn : Conn) : Charged opts conn pc := by
  cases pc <;> trivial

theorem Inv.next {t : State} (hInv : Inv opts s) (hPlaces : Places opts s) (h : Change opts s t) : Inv opts t := by
  cases h with
  | spawn connIndex pc hEntry => exact hInv.spawn hPlaces (plain_of_entry hEntry) (charged_of_entry hEntry)
  | thread index event thread conn outcome hThread hConn hOutcome =>
    exact hInv.applied hPlaces hThread hConn
      (threadStep_local (hPlaces.place hThread hConn) hOutcome)
      (threadStep_effect (hInv.charged hThread hConn) hOutcome)
  | modify connIndex f hOutside => exact hInv.modify hOutside
  | readiness fd => exact ⟨hInv.charged, hInv.balanced, hInv.within, hInv.total, hInv.bounded⟩

end Step

theorem Inv.start (hInit : Initial s) : Inv opts s := by
  have hConn : ∀ {connIndex : Nat} {conn : Conn}, s.conns[connIndex]? = some conn →
      conn.outputMutex = none ∧ conn.outputQueue = [] ∧ conn.queuedOutputBytes = 0 := by
    intro connIndex conn hSome
    obtain ⟨hMutex, hQueue, hQueued, _⟩ := hInit.conns conn (List.mem_of_getElem? hSome)
    exact ⟨hMutex, hQueue, hQueued⟩
  have hCounted : countedBytes s = 0 := by
    rw [countedBytes, hInit.threads]
    refine List.sum_eq_zero_iff_forall_eq_nat.mpr fun count hCount => ?_
    obtain ⟨conn, hMem, rfl⟩ := List.mem_map.mp hCount
    rw [(hInit.conns conn hMem).2.2.1]
    rfl
  refine ⟨?_, ?_, ?_, ?_, fun _ => hCounted ▸ Nat.zero_le _⟩
  · intro index thread conn hThread
    rw [hInit.threads] at hThread
    cases hThread
  · intro connIndex conn hSome
    obtain ⟨hMutex, hQueue, hQueued⟩ := hConn hSome
    rw [hQueue, hQueued, heldAt, hMutex]
    rfl
  · intro connIndex conn hSome
    rw [(hConn hSome).2.2]
    exact UInt64.zero_le
  · rw [hInit.total, hCounted]
    rfl

theorem reached_inv (h : (machine opts).Reached guard s) : Inv opts s :=
  h.invariant (fun _ => Inv.start) fun _ _ _ hReached hInv _ hStep =>
    hInv.next (reached_places hReached) (step_change hStep)

/-! ## Connections that have left the table

A send fails once the socket is shut down, so nothing is queued after `close_connection` has dropped the
queue.
-/

def wiping : Pc → Bool
  | .closeTotal .. | .closeLeave _ => true
  | _ => false

def fills : Pc → Bool
  | .writeReserve .. | .writePush .. | .flushSend _ | .flushSubConnection .. | .flushSubTotal .. => true
  | _ => false

theorem holds_of_fills (h : fills pc = true) : holds pc = true := by
  cases pc <;> first | rfl | cases h

structure Drained (conn : Conn) : Prop where
  shutdown : conn.shutdown = true
  queue : conn.outputQueue = []
  queued : conn.queuedOutputBytes = 0

inductive Ending (conn : Conn) : Pc → Outcome → Prop
  | wipe {dropped : Option OutgoingFrame} {outcome : Outcome} : conn.outputMutex = none →
      Drained outcome.conn → fills outcome.pc = false → Ending conn (.closeOutput dropped) outcome
  | leave {dropped : Option OutgoingFrame} {outcome : Outcome} : fills outcome.pc = false →
      Ending conn (.closeLeave dropped) outcome
  | other {pc : Pc} {outcome : Outcome} : outcome.conn.inTable = conn.inTable →
      (wiping outcome.pc = true → wiping pc = true) →
      (Drained conn → fills pc = false → fills outcome.pc = false) → Ending conn pc outcome

section Close

variable {opts : Options} {s : State} {index : Nat} {thread : Thread} {conn : Conn} {event : Event} {outcome : Outcome}

theorem Ending.calm (hTable : outcome.conn.inTable = conn.inTable) (hWiping : wiping outcome.pc = false)
    (hFills : fills outcome.pc = false) : Ending conn pc outcome :=
  .other hTable (fun hTrue => absurd (hWiping.symm.trans hTrue) Bool.false_ne_true) fun _ _ => hFills

theorem Ending.filling (hTable : outcome.conn.inTable = conn.inTable) (hWiping : wiping outcome.pc = false)
    (hFills : fills pc = true) : Ending conn pc outcome :=
  .other hTable (fun hTrue => absurd (hWiping.symm.trans hTrue) Bool.false_ne_true) fun _ hFalse =>
    absurd (hFalse.symm.trans hFills) Bool.false_ne_true

theorem writeLock_ending (h : writeLockStep s index conn frame = some outcome) :
    Ending conn (.writeLock frame) outcome := by
  unfold writeLockStep at h
  split at h
  · cases h
  · cases h
    split
    · exact .calm rfl rfl rfl
    · rename_i hQueue
      refine .other rfl nofun fun hDrained _ => ?_
      exact absurd (List.isEmpty_iff.mpr hDrained.queue) hQueue

theorem writeSend_ending (h : writeSendStep s conn event frame pending = some outcome) :
    Ending conn (.writeSend frame pending) outcome := by
  unfold writeSendStep at h
  split at h
  · split at h
    · cases h
    · rename_i hEnabled
      have hOpen := (not_or.mp hEnabled).1
      split at h
      · cases h
        exact .other rfl nofun fun hDrained _ => absurd hDrained.shutdown hOpen
      · split at h <;> cases h
        · exact .calm rfl rfl rfl
        · exact .other rfl nofun fun hDrained _ => absurd hDrained.shutdown hOpen
  · split at h <;> cases h
    rename_i hOpen
    exact .other rfl nofun fun hDrained _ => absurd hDrained.shutdown hOpen
  · cases h
    exact .calm rfl rfl rfl
  · cases h

theorem refresh_ending {next : Pc} {succeeds : Bool} (hWiping : wiping next = false) (hFills : fills next = false)
    (total : UInt64) (mutex : Option Nat) :
    Ending conn pc ⟨(refreshConnectionEvents s.readinessFd conn succeeds).1, total, mutex, next⟩ := by
  unfold refreshConnectionEvents
  split
  · exact .calm rfl hWiping hFills
  · split
    · exact .calm rfl hWiping hFills
    · split <;> exact .calm rfl hWiping hFills

theorem flushTest_ending (h : flushTestStep s conn event flushed = some outcome) :
    Ending conn (.flushTest flushed) outcome := by
  unfold flushTestStep at h
  split at h
  · split at h
    · cases h
      exact .calm rfl rfl rfl
    · rename_i front rest hQueue
      split at h
      · cases h
        exact .calm rfl rfl rfl
      · split at h <;> cases h
        · exact .calm rfl rfl rfl
        · refine .other rfl nofun fun hDrained _ => ?_
          rw [hDrained.queue] at hQueue
          cases hQueue
  · cases h

theorem flushSend_ending (h : flushSendStep s conn event flushed = some outcome) :
    Ending conn (.flushSend flushed) outcome := by
  unfold flushSendStep at h
  split at h
  · cases h
  · split at h
    · split at h
      · cases h
      · split at h <;> cases h <;> exact .filling rfl rfl rfl
    · split at h <;> cases h
      exact .filling rfl rfl rfl
    · cases h
      exact .filling rfl rfl rfl
    · cases h

theorem afterClose_calm (dropped : Option OutgoingFrame) :
    wiping (afterClose dropped) = false ∧ fills (afterClose dropped) = false := by
  cases dropped <;> exact ⟨rfl, rfl⟩

theorem threadStep_ending (hOk : PcOk opts conn pc) (h : threadStep opts s index conn event pc = some outcome) :
    Ending conn pc outcome := by
  unfold threadStep at h
  cases pc with
  | writeCheck requestId response deadline =>
    dsimp only [writeCheckStep] at h
    split at h
    · split at h <;> cases h <;> exact .calm rfl rfl rfl
    · cases h
  | writeLock frame => exact writeLock_ending h
  | writeSend frame pending => exact writeSend_ending h
  | writeReserve frame pending =>
    dsimp only [writeReserveStep] at h
    split at h <;> cases h <;> exact .filling rfl rfl rfl
  | writePush frame pending =>
    cases h
    refine .filling ?_ rfl rfl
    dsimp only [releaseOutput]
    split <;> rfl
  | writeOverflow frame | closeShutdown dropped =>
    cases h
    exact .calm rfl rfl rfl
  | writeRefresh =>
    dsimp only [writeRefreshStep] at h
    split at h
    · split at h <;> cases h
      exact refresh_ending (by unfold afterRefresh; split <;> rfl) (by unfold afterRefresh; split <;> rfl) _ _
    · cases h
  | flushLock =>
    dsimp only at h
    split at h <;> cases h
    exact .calm rfl rfl rfl
  | flushTest flushed => exact flushTest_ending h
  | flushSend flushed => exact flushSend_ending h
  | flushSubConnection flushed count =>
    cases h
    exact .filling rfl rfl rfl
  | flushSubTotal flushed count =>
    cases h
    exact .calm rfl rfl rfl
  | flushRefresh =>
    dsimp only [flushRefreshStep] at h
    split at h
    · split at h <;> cases h
      exact refresh_ending rfl rfl _ _
    · cases h
  | closeEnter dropped =>
    dsimp only [closeEnterStep] at h
    split at h
    · cases h
    · split at h <;> cases h
      · exact .calm rfl rfl rfl
      · exact .calm rfl (afterClose_calm dropped).1 (afterClose_calm dropped).2
  | closeOutput dropped =>
    dsimp only [closeOutputStep] at h
    split at h <;> cases h
    rename_i hMutex
    exact .wipe (Option.not_isSome_iff_eq_none.mp hMutex) ⟨hOk, rfl, rfl⟩ rfl
  | closeTotal queued dropped =>
    cases h
    exact .other rfl (fun _ => rfl) fun _ _ => rfl
  | closeLeave dropped =>
    cases h
    exact .leave (afterClose_calm dropped).2
  | returned result => cases h

theorem Effect.drained {total : UInt64} (h : Effect opts total conn pc outcome)
    (hLocal : Local opts index conn pc outcome) (hDrained : Drained conn) (hFills : fills pc = false) :
    Drained outcome.conn := by
  refine ⟨hLocal.shutdown hDrained.shutdown, ?_, ?_⟩
  · cases h with
    | idle hQueue | wiped hQueue => exact hQueue.trans hDrained.queue
    | wipe _ hQueue => exact hQueue
    | reserve | push | sent | subConnection | subTotal => cases hFills
  · cases h with
    | idle _ hQueued | wiped _ hQueued => exact hQueued.trans hDrained.queued
    | wipe _ _ hQueued => exact hQueued
    | reserve | push | sent | subConnection | subTotal => cases hFills

def Leaving (s : State) (connIndex : Nat) (conn : Conn) : Prop :=
  conn.inTable = false ∨ ∃ thread ∈ s.threads, thread.conn = connIndex ∧ wiping thread.pc = true

structure Emptied (s : State) (connIndex : Nat) (conn : Conn) : Prop where
  drained : Drained conn
  still : ∀ thread ∈ s.threads, thread.conn = connIndex → fills thread.pc = false

def Closed (s : State) : Prop :=
  ∀ (connIndex : Nat) (conn : Conn), s.conns[connIndex]? = some conn → Leaving s connIndex conn →
    Emptied s connIndex conn

theorem leaving_before (hThread : s.threads[index]? = some thread) {now : Conn} (hAway : connIndex ≠ thread.conn)
    (h : Leaving (apply s index thread outcome) connIndex now) : Leaving s connIndex now := by
  obtain hAbsent | ⟨current, hMem, hHere, hWiping⟩ := h
  · exact .inl hAbsent
  · obtain ⟨other, hCurrent⟩ := List.mem_iff_getElem?.mp hMem
    obtain ⟨_, rfl⟩ | ⟨_, hCurrent⟩ := Pool.get_set_cases hThread hCurrent
    · exact absurd hHere.symm hAway
    · exact .inr ⟨current, List.mem_of_getElem? hCurrent, hHere, hWiping⟩

theorem leaving_here (hThread : s.threads[index]? = some thread) (hTable : outcome.conn.inTable = conn.inTable)
    (hWiping : wiping outcome.pc = true → wiping thread.pc = true)
    (h : Leaving (apply s index thread outcome) thread.conn outcome.conn) : Leaving s thread.conn conn := by
  obtain hAbsent | ⟨current, hMem, hHere, hNow⟩ := h
  · exact .inl (hTable ▸ hAbsent)
  · obtain ⟨other, hCurrent⟩ := List.mem_iff_getElem?.mp hMem
    obtain ⟨_, rfl⟩ | ⟨_, hCurrent⟩ := Pool.get_set_cases hThread hCurrent
    · exact .inr ⟨thread, List.mem_of_getElem? hThread, rfl, hWiping hNow⟩
    · exact .inr ⟨current, List.mem_of_getElem? hCurrent, hHere, hNow⟩

theorem still_applied (hThread : s.threads[index]? = some thread)
    (hOthers : ∀ {other : Nat} {current : Thread}, other ≠ index → s.threads[other]? = some current →
      current.conn = connIndex → fills current.pc = false)
    (hSelf : thread.conn = connIndex → fills outcome.pc = false) :
    ∀ current ∈ (apply s index thread outcome).threads, current.conn = connIndex → fills current.pc = false := by
  intro current hMem hHere
  obtain ⟨other, hCurrent⟩ := List.mem_iff_getElem?.mp hMem
  obtain ⟨_, rfl⟩ | ⟨hNe, hCurrent⟩ := Pool.get_set_cases hThread hCurrent
  · exact hSelf hHere
  · exact hOthers hNe hCurrent hHere

theorem Closed.applied (hClosed : Closed s) (hPlaces : Places opts s) (hThread : s.threads[index]? = some thread)
    (hConn : s.conns[thread.conn]? = some conn) (hLocal : Local opts index conn thread.pc outcome)
    (hEffect : Effect opts s.totalQueuedOutputBytes conn thread.pc outcome)
    (hEnding : Ending conn thread.pc outcome) : Closed (apply s index thread outcome) := by
  intro connIndex now hNow hLeaving
  obtain ⟨rfl, rfl⟩ | ⟨hAway, hNow⟩ := Pool.get_set_cases hConn hNow
  · -- a leaving connection stays empty, whichever of its threads steps
    have hKeeps : Emptied s thread.conn conn → fills outcome.pc = false →
        Emptied (apply s index thread outcome) thread.conn outcome.conn := by
      intro hEmptied hFills
      have hStill : fills thread.pc = false := hEmptied.still thread (List.mem_of_getElem? hThread) rfl
      refine ⟨hEffect.drained hLocal hEmptied.drained hStill, still_applied hThread ?_ fun _ => hFills⟩
      intro other current _ hCurrent hHere
      exact hEmptied.still current (List.mem_of_getElem? hCurrent) hHere
    generalize hPc : thread.pc = pc at hEnding
    cases hEnding with
    | wipe hNone hDrained hFills =>
      refine ⟨hDrained, still_applied hThread ?_ fun _ => hFills⟩
      intro other current _ hCurrent hHere
      refine Bool.eq_false_iff.mpr fun hTrue => ?_
      have hOwner := hPlaces.holder hCurrent (hHere ▸ hConn) (holds_of_fills hTrue)
      exact absurd (hNone.symm.trans hOwner) nofun
    | leave hFills =>
      have hWiping : wiping thread.pc = true := hPc ▸ rfl
      exact hKeeps (hClosed _ _ hConn (.inr ⟨thread, List.mem_of_getElem? hThread, rfl, hWiping⟩)) hFills
    | other hTable hWiping hFills =>
      have hEmptied := hClosed _ _ hConn (leaving_here hThread hTable (hPc ▸ hWiping) hLeaving)
      exact hKeeps hEmptied
        (hFills hEmptied.drained (hPc ▸ hEmptied.still thread (List.mem_of_getElem? hThread) rfl))
  · have hEmptied := hClosed _ _ hNow (leaving_before hThread hAway hLeaving)
    refine ⟨hEmptied.drained, still_applied hThread ?_ fun hHere => absurd hHere.symm hAway⟩
    intro other current _ hCurrent hHere
    exact hEmptied.still current (List.mem_of_getElem? hCurrent) hHere

theorem Closed.spawn (hClosed : Closed s) (hEntry : entry pc = true) :
    Closed { s with threads := s.threads ++ [⟨connIndex, pc⟩] } := by
  have hCalm : wiping pc = false ∧ fills pc = false := by
    cases pc <;> first | exact ⟨rfl, rfl⟩ | cases hEntry
  intro current conn hConn hLeaving
  have hBefore : Leaving s current conn := by
    obtain hAbsent | ⟨thread, hMem, hHere, hWiping⟩ := hLeaving
    · exact .inl hAbsent
    · obtain hOld | hNew := List.mem_append.mp hMem
      · exact .inr ⟨thread, hOld, hHere, hWiping⟩
      · cases List.mem_singleton.mp hNew
        exact absurd (hCalm.1.symm.trans hWiping) Bool.false_ne_true
  obtain ⟨hDrained, hStill⟩ := hClosed _ _ hConn hBefore
  refine ⟨hDrained, fun thread hMem hHere => ?_⟩
  obtain hOld | hNew := List.mem_append.mp hMem
  · exact hStill thread hOld hHere
  · cases List.mem_singleton.mp hNew
    exact hCalm.2

theorem Closed.modify (hClosed : Closed s) (hOutside : ∀ conn, Outside conn (f conn)) :
    Closed { s with conns := s.conns.modify connIndex f } := by
  intro current conn hConn hLeaving
  obtain ⟨old, hOld, hOut⟩ := Outside.modified hOutside hConn
  obtain ⟨hDrained, hStill⟩ := hClosed _ _ hOld (hLeaving.imp_left hOut.inTable.symm.trans)
  refine ⟨⟨hOut.shutdown hDrained.shutdown, ?_, ?_⟩, hStill⟩
  · exact hOut.queue.trans hDrained.queue
  · exact hOut.queued.trans hDrained.queued

theorem Closed.next {t : State} (hClosed : Closed s) (hPlaces : Places opts s) (hInv : Inv opts s)
    (h : Change opts s t) : Closed t := by
  cases h with
  | spawn connIndex pc hEntry => exact hClosed.spawn hEntry
  | thread index event thread conn outcome hThread hConn hOutcome =>
    have hPlace := hPlaces.place hThread hConn
    exact hClosed.applied hPlaces hThread hConn (threadStep_local hPlace hOutcome)
      (threadStep_effect (hInv.charged hThread hConn) hOutcome) (threadStep_ending hPlace hOutcome)
  | modify connIndex f hOutside => exact hClosed.modify hOutside
  | readiness fd =>
    intro connIndex conn hConn hLeaving
    obtain ⟨hDrained, hStill⟩ := hClosed _ _ hConn hLeaving
    exact ⟨hDrained, hStill⟩

end Close

theorem Closed.start (hInit : Initial s) : Closed s := by
  intro connIndex conn hConn hLeaving
  obtain ⟨_, _, _, _, _, _, hTable, _⟩ := hInit.conns conn (List.mem_of_getElem? hConn)
  rw [Leaving, hTable, hInit.threads] at hLeaving
  obtain hAbsent | ⟨thread, hMem, _⟩ := hLeaving
  · cases hAbsent
  · cases hMem

theorem reached_closed (h : (machine opts).Reached guard s) : Closed s :=
  h.invariant (I := Closed) (fun _ hInit => Closed.start hInit) fun _ _ _ hReached hClosed _ hStep =>
    hClosed.next (reached_places hReached) (reached_inv hReached) (step_change hStep)

/-- The accounts in a state. The total is a `size_t`: without a limit it is exact as long as the counted
bytes, which are in memory, can be addressed. -/
structure Accounted (opts : Options) (s : State) : Prop where
  exact : ∀ {connIndex : Nat} {conn : Conn}, s.conns[connIndex]? = some conn →
    (∀ thread ∈ s.threads, thread.conn = connIndex → unsettled thread.pc = none) →
    conn.queuedOutputBytes.toNat = queueBytes conn.outputQueue
  free : ∀ conn ∈ s.conns, conn.outputMutex = none → conn.queuedOutputBytes.toNat = queueBytes conn.outputQueue
  within : ∀ conn ∈ s.conns, conn.queuedOutputBytes ≤ opts.maxOutputBytesPerConnection
  absent : ∀ conn ∈ s.conns, conn.inTable = false → conn.outputQueue = [] ∧ conn.queuedOutputBytes = 0
  total : s.totalQueuedOutputBytes = UInt64.ofNat (countedBytes s)
  total_exact : opts.maxTotalOutputBytes ≠ 0 ∨ countedBytes s < 2 ^ 64 →
    s.totalQueuedOutputBytes.toNat = countedBytes s
  total_within : opts.maxTotalOutputBytes ≠ 0 → s.totalQueuedOutputBytes ≤ opts.maxTotalOutputBytes
  subtracts : ∀ {thread : Thread} {conn : Conn}, thread ∈ s.threads → s.conns[thread.conn]? = some conn →
    match thread.pc with
    | .writeReserve frame _ => frame.offset ≤ frameSize frame
    | .flushSubConnection _ count => count ≤ conn.queuedOutputBytes.toNat
    | .flushSubTotal _ count =>
      opts.maxTotalOutputBytes ≠ 0 ∨ countedBytes s < 2 ^ 64 → count ≤ s.totalQueuedOutputBytes.toNat
    | .closeTotal queued _ =>
      opts.maxTotalOutputBytes ≠ 0 ∨ countedBytes s < 2 ^ 64 → queued ≤ s.totalQueuedOutputBytes
    | _ => True

theorem share_le_countedBytes {thread : Thread} (hThread : thread ∈ s.threads) :
    inTransit thread.pc ≤ countedBytes s := by
  obtain ⟨index, hGet⟩ := List.mem_iff_getElem?.mp hThread
  obtain ⟨others, hSum, _⟩ := Pool.sum_set hGet thread (inTransit ·.pc)
  rw [countedBytes, hSum]
  omega

theorem output_accounted (opts : Options) (s : State) (h : (machine opts).Reachable s) : Accounted opts s := by
  have hPlaces := reached_places h
  have hInv := reached_inv h
  have hExact : ∀ {connIndex : Nat} {conn : Conn}, s.conns[connIndex]? = some conn →
      heldAt unsettled s conn = none → conn.queuedOutputBytes.toNat = queueBytes conn.outputQueue := by
    intro connIndex conn hConn hNone
    rw [hInv.balanced hConn, hNone]
    rfl
  refine ⟨?_, ?_, ?_, ?_, hInv.total, hInv.total_toNat, ?_, ?_⟩
  · intro connIndex conn hConn hSettled
    refine hExact hConn ?_
    unfold heldAt
    cases hMutex : conn.outputMutex with
    | none => rfl
    | some owner =>
      obtain ⟨thread, hThread, hHere, _⟩ := hPlaces.owner hConn hMutex
      rw [Option.bind_some, hThread, Option.bind_some, hSettled thread (List.mem_of_getElem? hThread) hHere]
  · intro conn hMem hMutex
    obtain ⟨connIndex, hConn⟩ := List.mem_iff_getElem?.mp hMem
    exact hExact hConn (by rw [heldAt, hMutex]; rfl)
  · intro conn hMem
    obtain ⟨connIndex, hConn⟩ := List.mem_iff_getElem?.mp hMem
    exact hInv.within hConn
  · intro conn hMem hAbsent
    obtain ⟨connIndex, hConn⟩ := List.mem_iff_getElem?.mp hMem
    obtain ⟨hDrained, _⟩ := reached_closed h _ _ hConn (.inl hAbsent)
    exact ⟨hDrained.queue, hDrained.queued⟩
  · intro hLimited
    rw [UInt64.le_iff_toNat_le, hInv.total_toNat (.inl hLimited)]
    exact hInv.bounded hLimited
  · intro thread conn hMem hConn
    obtain ⟨index, hThread⟩ := List.mem_iff_getElem?.mp hMem
    have hPlace := hPlaces.place hThread hConn
    have hShare := share_le_countedBytes hMem
    obtain ⟨connIndex, pc⟩ := thread
    cases pc with
    | writeReserve frame pending =>
      obtain ⟨_, hOffset⟩ := hPlace
      rw [frameBytes_length] at hOffset
      change frame.offset ≤ frameSize frame
      omega
    | flushSubConnection flushed count =>
      have hHeld : heldAt unsettled s conn = some count := heldAt_before hPlaces hThread hConn rfl
      have hBalanced := hInv.balanced hConn
      rw [hHeld] at hBalanced
      exact hBalanced ▸ Nat.le_add_left _ _
    | flushSubTotal flushed count =>
      intro hFits
      rw [hInv.total_toNat hFits]
      exact hShare
    | closeTotal queued dropped =>
      intro hFits
      rw [UInt64.le_iff_toNat_le, hInv.total_toNat hFits]
      exact hShare
    | _ => trivial

def flushedResponse : List Action :=
  [.respond 0 1 ⟨200, [1, 2, 3, 4]⟩ none, .thread 0 (.clock 0), .thread 0 .proceed, .thread 0 (.sent 5),
    .thread 0 .proceed, .thread 0 .proceed, .flush 0, .thread 1 .proceed, .thread 1 (.clock 0), .thread 1 (.sent 3)]

theorem output_accounted_flushed : ∃ s, (machine smallOptions).Reachable s ∧ s.totalQueuedOutputBytes = 19 ∧
    (∃ conn ∈ s.conns, queueBytes conn.outputQueue = 16) ∧ Accounted smallOptions s := by
  obtain ⟨s, hReached, hTotal, hQueue⟩ := Machine.exists_reachable_of_exec
    (fun s => s.totalQueuedOutputBytes = 19 ∧ ∃ conn ∈ s.conns, queueBytes conn.outputQueue = 16) flushedResponse
    serving_initial (by decide)
  exact ⟨s, hReached, hTotal, hQueue, output_accounted smallOptions s hReached⟩

end EasyUds.Reactor.OutputBudget

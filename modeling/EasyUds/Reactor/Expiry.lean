import Mathlib.Data.List.Basic
import Mathlib.Data.List.Nodup
import Mathlib.Tactic.ByContra
import EasyUds.Server.Core

/-! # Expiry of connections

`expire_reactor_connections` with the deadlines that it combines. Times are nanoseconds of the steady
clock and timeouts are milliseconds, in 64 bits with a sign; `noDeadline` is `Deadline::max()`.
-/

namespace EasyUds.Reactor.Expiry

open Server.Core (ParsePhase)

abbrev Deadline := Int64

def noDeadline : Deadline := Int64.maxValue

def nanosecondsPerMillisecond : Int64 := 1000000

structure OutgoingFrame where
  deadline : Deadline
  deriving DecidableEq, Repr

/-- What the function reads of a `ReactorConnection` and of its `Connection`. -/
structure ReactorConnection where
  phase : ParsePhase := .header
  pendingOffset : Nat := 0
  pendingSize : Nat := 0
  deadline : Deadline := noDeadline
  readPaused : Bool := false
  streamActive : Bool := false
  workerOwned : Bool := false
  closing : Bool := false
  activeRegular : Nat := 0
  pendingSerialized : Nat := 0
  lastIoProgress : Int64 := 0
  lastOutputProgress : Int64 := 0
  queuedOutputBytes : Nat := 0
  outputQueue : List OutgoingFrame := []
  deriving DecidableEq, Repr

def earlierDeadline (left right : Deadline) : Deadline := if left < right then left else right

/-- The body of `connection_inactivity_deadline` and of `inactivity_deadline`; the cast to milliseconds
truncates. -/
def deadlineAfter (progress timeout : Int64) : Deadline :=
  if timeout = 0 then noDeadline
  else
    let maxMs := (noDeadline - progress) / nanosecondsPerMillisecond
    if timeout ≥ maxMs then noDeadline - 1 else progress + timeout * nanosecondsPerMillisecond

def connectionInactivityDeadline (rc : ReactorConnection) (timeout : Int64) : Deadline :=
  deadlineAfter rc.lastIoProgress timeout

def inactivityDeadline (rc : ReactorConnection) (timeout : Int64) : Deadline :=
  deadlineAfter rc.lastOutputProgress timeout

def connectionOutputDeadline (rc : ReactorConnection) (ioTimeout : Int64) : Deadline :=
  if rc.queuedOutputBytes = 0 then noDeadline
  else if rc.outputQueue = [] then noDeadline
  else rc.outputQueue.foldl (fun deadline frame => earlierDeadline deadline frame.deadline)
    (inactivityDeadline rc ioTimeout)

def partialRequest (rc : ReactorConnection) : Bool := rc.phase != .header || rc.pendingOffset != rc.pendingSize

def responsePending (rc : ReactorConnection) : Bool := rc.activeRegular != 0 || rc.pendingSerialized != 0

def connectionDeadline (rc : ReactorConnection) (ioTimeout : Int64) : Deadline :=
  let deadline := earlierDeadline rc.deadline (connectionOutputDeadline rc ioTimeout)
  if partialRequest rc ∨ responsePending rc = false then
    earlierDeadline deadline (connectionInactivityDeadline rc ioTimeout)
  else deadline

def visit (now ioTimeout : Int64) (rc : ReactorConnection) (next : Deadline) : Bool × Deadline :=
  if rc.streamActive ∨ rc.workerOwned then (false, next)
  else if rc.closing then (true, next)
  else
    let deadline := connectionDeadline rc ioTimeout
    if deadline ≠ noDeadline ∧ now ≥ deadline then (true, next) else (false, earlierDeadline next deadline)

/-- The descriptors to close, and the next deadline. -/
def expireReactorConnections (now ioTimeout : Int64) :
    List (Nat × ReactorConnection) → List Nat → Deadline → List Nat × Deadline
  | [], expired, next => (expired, next)
  | (fd, rc) :: rest, expired, next =>
    let (selected, next) := visit now ioTimeout rc next
    expireReactorConnections now ioTimeout rest (if selected then expired ++ [fd] else expired) next

def Passed (now : Int64) (deadline : Deadline) : Prop := deadline ≠ noDeadline ∧ deadline ≤ now

instance (now : Int64) (deadline : Deadline) : Decidable (Passed now deadline) :=
  inferInstanceAs (Decidable (deadline ≠ noDeadline ∧ deadline ≤ now))

theorem lt_noDeadline {deadline : Deadline} (h : deadline ≠ noDeadline) : deadline < noDeadline := by
  rw [Int64.lt_iff_toInt_lt]
  have hLe := Int64.toInt_lt deadline
  have hNe : deadline.toInt ≠ noDeadline.toInt := fun hEq => h (Int64.toInt_inj.mp hEq)
  have hMax : noDeadline.toInt = 2 ^ 63 - 1 := by decide
  omega

theorem passed_earlier {now : Int64} {left right : Deadline} :
    Passed now (earlierDeadline left right) ↔ Passed now left ∨ Passed now right := by
  rw [earlierDeadline]
  split
  · rename_i hLt
    constructor
    · exact .inl
    · rintro (hLeft | hRight)
      · exact hLeft
      · refine ⟨?_, Int64.le_trans (Int64.le_of_lt hLt) hRight.2⟩
        rintro rfl
        exact Int64.lt_asymm hLt (lt_noDeadline hRight.1)
  · rename_i hNotLt
    have hLe : right ≤ left := Int64.not_lt.mp hNotLt
    constructor
    · exact .inr
    · rintro (hLeft | hRight)
      · refine ⟨?_, Int64.le_trans hLe hLeft.2⟩
        rintro rfl
        exact hNotLt (lt_noDeadline hLeft.1)
      · exact hRight

def selects (now ioTimeout : Int64) (rc : ReactorConnection) : Bool := (visit now ioTimeout rc noDeadline).1

theorem visit_selects (now ioTimeout : Int64) (rc : ReactorConnection) (next : Deadline) :
    (visit now ioTimeout rc next).1 = selects now ioTimeout rc := by
  unfold selects visit
  dsimp only
  split
  · rfl
  · split
    · rfl
    · split <;> rfl

theorem expired_eq (now ioTimeout : Int64) (table : List (Nat × ReactorConnection)) (expired : List Nat)
    (next : Deadline) : (expireReactorConnections now ioTimeout table expired next).1 =
      expired ++ (table.filter fun entry => selects now ioTimeout entry.2).map Prod.fst := by
  induction table generalizing expired next with
  | nil => simp [expireReactorConnections]
  | cons entry rest ih =>
    obtain ⟨fd, rc⟩ := entry
    have hVisit := visit_selects now ioTimeout rc next
    rw [expireReactorConnections, List.filter_cons]
    dsimp only
    rw [hVisit, ih]
    cases selects now ioTimeout rc <;> simp

theorem mem_expired {now ioTimeout : Int64} {table : List (Nat × ReactorConnection)}
    (hTable : (table.map Prod.fst).Nodup) {fd : Nat} {rc : ReactorConnection} (hMem : (fd, rc) ∈ table) :
    fd ∈ (expireReactorConnections now ioTimeout table [] noDeadline).1 ↔ selects now ioTimeout rc = true := by
  rw [expired_eq, List.nil_append, List.mem_map]
  constructor
  · rintro ⟨⟨other, found⟩, hFound, rfl⟩
    obtain ⟨hFoundMem, hSelects⟩ := List.mem_filter.mp hFound
    have hSame := List.inj_on_of_nodup_map hTable hFoundMem hMem rfl
    cases hSame
    exact hSelects
  · intro hSelects
    exact ⟨(fd, rc), List.mem_filter.mpr ⟨hMem, hSelects⟩, rfl⟩

def Leased (rc : ReactorConnection) : Prop := rc.streamActive = true ∨ rc.workerOwned = true

def Excused (now ioTimeout : Int64) (rc : ReactorConnection) : Prop :=
  rc.closing = true ∨ Passed now rc.deadline ∨ Passed now (connectionOutputDeadline rc ioTimeout)

/-- The read-inactivity rule applies to a connection with a request in progress when a part of a further
request has been read. -/
theorem selects_iff {now ioTimeout : Int64} {rc : ReactorConnection} (hPending : responsePending rc = true) :
    selects now ioTimeout rc = true ↔ ¬ Leased rc ∧ (Excused now ioTimeout rc ∨
      partialRequest rc = true ∧ Passed now (connectionInactivityDeadline rc ioTimeout)) := by
  have hDeadline : Passed now (connectionDeadline rc ioTimeout) ↔ Passed now rc.deadline ∨
      Passed now (connectionOutputDeadline rc ioTimeout) ∨
      partialRequest rc = true ∧ Passed now (connectionInactivityDeadline rc ioTimeout) := by
    rw [connectionDeadline]
    split
    · rename_i hRule
      have hPartial : partialRequest rc = true := by
        rcases hRule with hPartial | hNone
        · exact hPartial
        · rw [hPending] at hNone
          cases hNone
      rw [passed_earlier, passed_earlier, or_assoc, and_iff_right hPartial]
    · rename_i hRule
      have hWhole : ¬ partialRequest rc = true := fun hPartial => hRule (.inl hPartial)
      rw [passed_earlier, or_iff_left (fun h => hWhole h.1 : ¬ (partialRequest rc = true ∧ _))]
  unfold selects visit
  dsimp only
  split
  · rename_i hLeased
    simp only [Bool.false_eq_true, false_iff]
    exact fun h => h.1 hLeased
  · rename_i hFree
    split
    · rename_i hClosing
      simp only [true_iff]
      exact ⟨hFree, .inl (.inl hClosing)⟩
    · rename_i hOpen
      rw [Excused]
      rw [and_iff_right (show ¬ Leased rc from hFree), or_assoc, or_assoc, ← hDeadline, or_iff_right hOpen, Passed]
      split
      · rename_i hPassed
        simp only [true_iff]
        exact hPassed
      · rename_i hNotPassed
        simp only [Bool.false_eq_true, false_iff]
        exact hNotPassed

/-- A connection with a request in progress, paused or not, is spared by the read-inactivity rule exactly when no
part of a further request has been read, or less than `io_timeout` has passed since the last progress
(unless a worker has it, or there is another reason to close it). -/
theorem paused_spared (now ioTimeout : Int64) (table : List (Nat × ReactorConnection))
    (hTable : (table.map Prod.fst).Nodup) (fd : Nat) (rc : ReactorConnection) (hMem : (fd, rc) ∈ table)
    (hPending : responsePending rc = true) :
    (fd ∈ (expireReactorConnections now ioTimeout table [] noDeadline).1 → Excused now ioTimeout rc) ↔
      (rc.phase = .header ∧ rc.pendingOffset = rc.pendingSize) ∨
        ¬ Passed now (connectionInactivityDeadline rc ioTimeout) ∨ Leased rc ∨ Excused now ioTimeout rc := by
  have hWhole : ¬ partialRequest rc = true ↔ rc.phase = .header ∧ rc.pendingOffset = rc.pendingSize := by
    simp [partialRequest]
  rw [mem_expired hTable hMem, selects_iff hPending, ← hWhole]
  constructor
  · intro hSpared
    by_contra hNone
    simp only [not_or, not_not] at hNone
    obtain ⟨hPartial, hPassed, hFree, hNotExcused⟩ := hNone
    exact hNotExcused (hSpared ⟨hFree, .inr ⟨hPartial, hPassed⟩⟩)
  · rintro hCondition ⟨hFree, hExcused | ⟨hPartial, hPassed⟩⟩
    · exact hExcused
    · rcases hCondition with hNot | hNot | hLeased | hExcused
      · exact absurd hPartial hNot
      · exact absurd hPassed hNot
      · exact absurd hLeased hFree
      · exact hExcused

/-- A paused connection with one request at a worker and the bytes of a further one not yet parsed. -/
def backlogged : ReactorConnection :=
  { readPaused := true, activeRegular := 1, pendingSize := 24, lastIoProgress := 0 }

theorem backlogged_not_excused (size : Nat) : ¬ Excused 6000000000 5000 { backlogged with pendingSize := size } := by
  rintro (hClosing | hDeadline | hOutput)
  · cases hClosing
  · exact hDeadline.1 rfl
  · exact hOutput.1 rfl

theorem paused_spared_backlogged : (5, backlogged) ∈ [(5, backlogged)] ∧ backlogged.readPaused = true ∧
    responsePending backlogged = true ∧
    5 ∈ (expireReactorConnections 6000000000 5000 [(5, backlogged)] [] noDeadline).1 ∧
    ¬ Excused 6000000000 5000 backlogged := by
  exact ⟨List.mem_singleton.mpr rfl, rfl, rfl, by decide, backlogged_not_excused 24⟩

def atBoundary : ReactorConnection := { backlogged with pendingSize := 0 }

theorem paused_spared_boundary : responsePending atBoundary = true ∧
    5 ∉ (expireReactorConnections 6000000000 5000 [(5, atBoundary)] [] noDeadline).1 := by
  have hSpared := paused_spared 6000000000 5000 [(5, atBoundary)] (by decide) 5 atBoundary
    (List.mem_singleton.mpr rfl) rfl
  exact ⟨rfl, fun hExpired => backlogged_not_excused 0 (hSpared.mpr (.inl ⟨rfl, rfl⟩) hExpired)⟩

end EasyUds.Reactor.Expiry

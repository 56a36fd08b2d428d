import EasyUds.Lib.Signed
import EasyUds.Reactor.Expiry

/-! # Deadline arithmetic

The four functions that add a timeout in milliseconds to a time in nanoseconds, and the rounding of the
remaining time for the poll call. Time points and durations are 64-bit signed counts; every operation on
them, the conversions between the units included, is checked.
-/

namespace EasyUds.Transport.Deadlines

open Lib Lib.Signed Reactor
open Reactor.Expiry (Deadline noDeadline nanosecondsPerMillisecond deadlineAfter ReactorConnection)

def toMilliseconds (nanoseconds : Int64) : Option Int64 := div nanoseconds nanosecondsPerMillisecond

def toNanoseconds (milliseconds : Int64) : Option Int64 := mul milliseconds nanosecondsPerMillisecond

/-- The common body: the comparison is made in milliseconds, the addition in nanoseconds. -/
def saturatingDeadline (start timeout : Int64) : Option Deadline :=
  if timeout = 0 then some noDeadline
  else do
    let maxRemaining ← sub noDeadline start
    let maxMs ← toMilliseconds maxRemaining
    if timeout ≥ maxMs then sub noDeadline 1
    else
      let duration ← toNanoseconds timeout
      add start duration

/-- `now` is what `Clock::now()` returns. -/
def deadlineFromNow (now timeout : Int64) : Option Deadline := saturatingDeadline now timeout

def deadlineFrom (start timeout : Int64) : Option Deadline := saturatingDeadline start timeout

def connectionInactivityDeadline (connection : ReactorConnection) (timeout : Int64) : Option Deadline :=
  saturatingDeadline connection.lastIoProgress timeout

def inactivityDeadline (connection : ReactorConnection) (timeout : Int64) : Option Deadline :=
  saturatingDeadline connection.lastOutputProgress timeout

/-- `chrono::ceil<milliseconds>`: the truncated value is compared in nanoseconds. -/
def ceilMilliseconds (duration : Int64) : Option Int64 := do
  let truncated ← toMilliseconds duration
  let back ← toNanoseconds truncated
  if back < duration then add truncated 1 else some truncated

def pollTimeoutMs (deadline : Deadline) (now : Int64) : Option Int32 :=
  if deadline = noDeadline then some (-1)
  else if now ≥ deadline then some 0
  else do
    let duration ← sub deadline now
    let remaining ← ceilMilliseconds duration
    let bounded := min remaining Int32.maxValue.toInt64
    some (max 1 bounded.toInt32)

def saturated (start timeout : Int) : Int :=
  if (2 ^ 63 - 1 - start) / 1000000 ≤ timeout then 2 ^ 63 - 2 else start + timeout * 1000000

theorem noDeadline_toInt : noDeadline.toInt = 2 ^ 63 - 1 := Int64.toInt_maxValue

theorem perMillisecond_toInt : nanosecondsPerMillisecond.toInt = 1000000 := by decide

theorem toInt_one : (1 : Int64).toInt = 1 := by decide

theorem nonneg_toInt {value : Int64} : 0 ≤ value ↔ 0 ≤ value.toInt := by
  rw [Int64.le_iff_toInt_le]
  rfl

theorem eq_zero_toInt {value : Int64} : value = 0 ↔ value.toInt = 0 := by
  rw [← Int64.toInt_inj]
  rfl

theorem toMilliseconds_eq_some {nanoseconds milliseconds : Int64} (hNonneg : 0 ≤ nanoseconds.toInt) :
    toMilliseconds nanoseconds = some milliseconds ↔ milliseconds.toInt = nanoseconds.toInt / 1000000 := by
  rw [toMilliseconds, div_eq_some (by decide), perMillisecond_toInt, Int.tdiv_eq_ediv_of_nonneg hNonneg]

theorem toNanoseconds_eq_some {nanoseconds milliseconds : Int64} :
    toNanoseconds milliseconds = some nanoseconds ↔ nanoseconds.toInt = milliseconds.toInt * 1000000 := by
  rw [toNanoseconds, mul_eq_some, perMillisecond_toInt]

theorem saturatingDeadline_eq {start timeout : Int64} (hStart : 0 ≤ start.toInt) (hTimeout : 0 < timeout.toInt) :
    ∃ deadline, saturatingDeadline start timeout = some deadline ∧
      deadline.toInt = saturated start.toInt timeout.toInt := by
  have hHigh := Int64.toInt_lt start
  obtain ⟨maxRemaining, hRemaining⟩ := exists_toInt (2 ^ 63 - 1 - start.toInt) (by omega) (by omega)
  obtain ⟨maxMs, hMs⟩ := exists_toInt (maxRemaining.toInt / 1000000) (by omega) (by omega)
  have hSub : sub noDeadline start = some maxRemaining := sub_eq_some.mpr (by rw [noDeadline_toInt, hRemaining])
  have hCast : toMilliseconds maxRemaining = some maxMs := (toMilliseconds_eq_some (by omega)).mpr hMs
  have hTest : timeout ≥ maxMs ↔ (2 ^ 63 - 1 - start.toInt) / 1000000 ≤ timeout.toInt := by
    rw [ge_iff_le, Int64.le_iff_toInt_le, hMs, hRemaining]
  rw [saturatingDeadline, if_neg (by rw [eq_zero_toInt]; omega), hSub]
  simp only [Option.bind_eq_bind, Option.bind_some, hCast]
  rw [saturated]
  by_cases hSaturates : timeout ≥ maxMs
  · rw [if_pos hSaturates, if_pos (hTest.mp hSaturates)]
    obtain ⟨last, hLast⟩ := exists_toInt (2 ^ 63 - 2) (by omega) (by omega)
    refine ⟨last, sub_eq_some.mpr ?_, hLast⟩
    rw [noDeadline_toInt, toInt_one, hLast]
    rfl
  · have hRoom := mt hTest.mpr hSaturates
    rw [if_neg hSaturates, if_neg hRoom]
    obtain ⟨duration, hDuration⟩ := exists_toInt (timeout.toInt * 1000000) (by omega) (by omega)
    obtain ⟨deadline, hDeadline⟩ := exists_toInt (start.toInt + duration.toInt) (by omega) (by omega)
    rw [toNanoseconds_eq_some.mpr hDuration]
    exact ⟨deadline, add_eq_some.mpr hDeadline, by rw [hDeadline, hDuration]⟩

theorem saturated_bounds (start timeout : Int) :
    saturated start timeout ≤ 2 ^ 63 - 2 ∧
    min (start + timeout * 1000000) (2 ^ 63 - 2) ≤ saturated start timeout ∧
    saturated start timeout < min (start + timeout * 1000000) (2 ^ 63 - 2) + 1000000 := by
  unfold saturated
  split <;> omega

theorem saturated_mono {start later timeout longer : Int} (hLater : start ≤ later) (hLonger : timeout ≤ longer) :
    saturated start timeout ≤ saturated later longer := by
  unfold saturated
  split <;> split <;> omega

/-- What is to be shown of each of the four functions: `f start timeout` is the deadline. -/
structure Saturates (f : Int64 → Int64 → Option Deadline) (start timeout : Int64) : Prop where
  sentinel : f start timeout = some noDeadline ↔ timeout = 0
  exact : timeout ≠ 0 → ∃ deadline, f start timeout = some deadline ∧ deadline.toInt ≤ 2 ^ 63 - 2 ∧
    min (start.toInt + timeout.toInt * 1000000) (2 ^ 63 - 2) ≤ deadline.toInt ∧
    deadline.toInt < min (start.toInt + timeout.toInt * 1000000) (2 ^ 63 - 2) + 1000000
  later : ∀ later, start ≤ later → ∃ deadline next, f start timeout = some deadline ∧
    f later timeout = some next ∧ deadline ≤ next
  longer : ∀ longer, timeout ≠ 0 → timeout ≤ longer → ∃ deadline next, f start timeout = some deadline ∧
    f start longer = some next ∧ deadline ≤ next

theorem saturatingDeadline_zero (start : Int64) : saturatingDeadline start 0 = some noDeadline := if_pos rfl

theorem saturatingDeadline_le {start later timeout longer : Int64} (hStart : 0 ≤ start.toInt)
    (hTimeout : 0 < timeout.toInt) (hLater : start ≤ later) (hLonger : timeout ≤ longer) :
    ∃ deadline next, saturatingDeadline start timeout = some deadline ∧
      saturatingDeadline later longer = some next ∧ deadline ≤ next := by
  rw [Int64.le_iff_toInt_le] at hLater hLonger
  obtain ⟨deadline, hDeadline, hValue⟩ := saturatingDeadline_eq hStart hTimeout
  obtain ⟨next, hNext, hNextValue⟩ := @saturatingDeadline_eq later longer (by omega) (by omega)
  refine ⟨deadline, next, hDeadline, hNext, ?_⟩
  rw [Int64.le_iff_toInt_le, hValue, hNextValue]
  exact saturated_mono hLater hLonger

theorem saturatingDeadline_saturates {start timeout : Int64} (hStart : 0 ≤ start) (hTimeout : 0 ≤ timeout) :
    Saturates saturatingDeadline start timeout := by
  rw [nonneg_toInt] at hStart hTimeout
  have hPositive : timeout ≠ 0 → 0 < timeout.toInt := by
    intro hNonzero
    rw [Ne, eq_zero_toInt] at hNonzero
    omega
  refine ⟨⟨?_, ?_⟩, ?_, ?_, ?_⟩
  · intro hSentinel
    by_contra hNonzero
    obtain ⟨deadline, hDeadline, hValue⟩ := saturatingDeadline_eq hStart (hPositive hNonzero)
    obtain rfl : deadline = noDeadline := Option.some.inj (hDeadline.symm.trans hSentinel)
    have hBound := (saturated_bounds start.toInt timeout.toInt).1
    rw [← hValue, noDeadline_toInt] at hBound
    omega
  · rintro rfl
    exact saturatingDeadline_zero start
  · intro hNonzero
    obtain ⟨deadline, hDeadline, hValue⟩ := saturatingDeadline_eq hStart (hPositive hNonzero)
    refine ⟨deadline, hDeadline, ?_⟩
    rw [hValue]
    exact saturated_bounds _ _
  · intro later hLater
    by_cases hZero : timeout = 0
    · subst hZero
      exact ⟨noDeadline, noDeadline, saturatingDeadline_zero _, saturatingDeadline_zero _, Int64.le_refl _⟩
    · exact saturatingDeadline_le hStart (hPositive hZero) hLater (Int64.le_refl _)
  · intro longer hNonzero hLonger
    exact saturatingDeadline_le hStart (hPositive hNonzero) (Int64.le_refl _) hLonger

/-- The arithmetic of `Expiry` wraps around; it agrees wherever nothing overflows. -/
theorem deadlineAfter_eq {start timeout deadline : Int64} (h : saturatingDeadline start timeout = some deadline) :
    deadlineAfter start timeout = deadline := by
  unfold saturatingDeadline at h
  unfold deadlineAfter
  split at h
  · rename_i hZero
    rw [if_pos hZero]
    exact Option.some.inj h
  · rename_i hNonzero
    obtain ⟨maxRemaining, hRemaining, h⟩ := Option.bind_eq_some_iff.mp h
    obtain ⟨maxMs, hMs, h⟩ := Option.bind_eq_some_iff.mp h
    rw [if_neg hNonzero, sub_wraps hRemaining, div_wraps (by decide) hMs]
    dsimp only
    split at h
    · rename_i hSaturates
      rw [if_pos hSaturates]
      exact sub_wraps h
    · rename_i hRoom
      obtain ⟨duration, hDuration, h⟩ := Option.bind_eq_some_iff.mp h
      rw [if_neg hRoom, mul_wraps hDuration]
      exact add_wraps h

theorem expiry_exact (connection : ReactorConnection) {timeout : Int64} (hInput : 0 ≤ connection.lastIoProgress)
    (hOutput : 0 ≤ connection.lastOutputProgress) (hTimeout : 0 ≤ timeout) :
    connectionInactivityDeadline connection timeout = some (Expiry.connectionInactivityDeadline connection timeout) ∧
    inactivityDeadline connection timeout = some (Expiry.inactivityDeadline connection timeout) := by
  have hExact : ∀ start, 0 ≤ start → saturatingDeadline start timeout = some (deadlineAfter start timeout) := by
    intro start hStart
    obtain ⟨deadline, -, hDeadline, -⟩ := (saturatingDeadline_saturates hStart hTimeout).later start (Int64.le_refl _)
    rw [deadlineAfter_eq hDeadline, hDeadline]
  exact ⟨hExact _ hInput, hExact _ hOutput⟩

theorem expiry_exact_backlogged : connectionInactivityDeadline Expiry.backlogged 5000 = some 5000000000 :=
  (expiry_exact Expiry.backlogged (by decide) (by decide) (by decide)).1

theorem ceilMilliseconds_eq {duration : Int64} (hDuration : 0 < duration.toInt) :
    ∃ milliseconds, ceilMilliseconds duration = some milliseconds ∧ 1 ≤ milliseconds.toInt ∧
      duration.toInt ≤ milliseconds.toInt * 1000000 := by
  have hHigh := Int64.toInt_lt duration
  obtain ⟨truncated, hTruncated⟩ := exists_toInt (duration.toInt / 1000000) (by omega) (by omega)
  obtain ⟨back, hBack⟩ := exists_toInt (truncated.toInt * 1000000) (by omega) (by omega)
  rw [ceilMilliseconds, (toMilliseconds_eq_some (by omega)).mpr hTruncated]
  simp only [Option.bind_eq_bind, Option.bind_some, toNanoseconds_eq_some.mpr hBack]
  split
  · obtain ⟨next, hNext⟩ := exists_toInt (truncated.toInt + 1) (by omega) (by omega)
    refine ⟨next, add_eq_some.mpr (by rw [hNext, toInt_one]), ?_, ?_⟩ <;> omega
  · rename_i hExact
    rw [Int64.lt_iff_toInt_lt] at hExact
    refine ⟨truncated, rfl, ?_, ?_⟩ <;> omega

/-- The rounded time: at least what remains, unless that is more than an `int` holds. -/
structure Rounded (deadline : Deadline) (now : Int64) (timeoutMs : Int32) : Prop where
  unlimited : timeoutMs = -1 ↔ deadline = noDeadline
  reached : timeoutMs = 0 ↔ deadline ≠ noDeadline ∧ deadline ≤ now
  remaining : deadline ≠ noDeadline → now < deadline → 1 ≤ timeoutMs ∧
    (deadline.toInt - now.toInt ≤ timeoutMs.toInt * 1000000 ∨ timeoutMs = Int32.maxValue)

theorem toInt32_toInt {value : Int64} (hLow : 0 ≤ value.toInt) (hHigh : value.toInt < 2 ^ 31) :
    value.toInt32.toInt = value.toInt := by
  rw [Int64.toInt_toInt32]
  exact Int.bmod_eq_of_le (by omega) (by omega)

theorem bounded_toInt (remaining : Int64) (hRemaining : 1 ≤ remaining.toInt) :
    (max 1 (min remaining Int32.maxValue.toInt64).toInt32).toInt = min remaining.toInt (2 ^ 31 - 1) := by
  have hMax : Int32.maxValue.toInt64.toInt = 2 ^ 31 - 1 := by decide
  have hBounded : (min remaining Int32.maxValue.toInt64).toInt = min remaining.toInt (2 ^ 31 - 1) := by
    rw [toInt_min, hMax]
  generalize min remaining Int32.maxValue.toInt64 = bounded at hBounded
  have hCast : bounded.toInt32.toInt = bounded.toInt := toInt32_toInt (by omega) (by omega)
  have hAtLeast : (1 : Int32) ≤ bounded.toInt32 := by
    rw [Int32.le_iff_toInt_le, hCast, hBounded]
    change (1 : Int) ≤ _
    omega
  rw [show max 1 bounded.toInt32 = bounded.toInt32 from if_pos hAtLeast, hCast, hBounded]

theorem pollTimeoutMs_rounded (deadline : Deadline) {now : Int64} (hNow : 0 ≤ now) :
    ∃ timeoutMs, pollTimeoutMs deadline now = some timeoutMs ∧ Rounded deadline now timeoutMs := by
  unfold pollTimeoutMs
  by_cases hNone : deadline = noDeadline
  · rw [if_pos hNone]
    refine ⟨-1, rfl, ⟨fun _ => hNone, fun _ => rfl⟩, ⟨nofun, fun hReached => absurd hNone hReached.1⟩, ?_⟩
    exact fun hSome => absurd hNone hSome
  · rw [if_neg hNone]
    by_cases hReached : now ≥ deadline
    · rw [if_pos hReached]
      refine ⟨0, rfl, ⟨nofun, fun hSome => absurd hSome hNone⟩, ⟨fun _ => ⟨hNone, hReached⟩, fun _ => rfl⟩, ?_⟩
      exact fun _ hBefore => absurd hReached (Int64.not_le.mpr hBefore)
    · rw [if_neg hReached]
      have hBefore : now.toInt < deadline.toInt := Int64.lt_iff_toInt_lt.mp (Int64.not_le.mp hReached)
      have hHigh := Int64.toInt_lt deadline
      rw [nonneg_toInt] at hNow
      obtain ⟨duration, hDuration⟩ := exists_toInt (deadline.toInt - now.toInt) (by omega) (by omega)
      obtain ⟨remaining, hRemaining, hPositive, hEnough⟩ := @ceilMilliseconds_eq duration (by omega)
      simp only [sub_eq_some.mpr hDuration, hRemaining, Option.bind_eq_bind, Option.bind_some]
      have hValue := bounded_toInt remaining hPositive
      generalize max 1 (min remaining Int32.maxValue.toInt64).toInt32 = timeoutMs at hValue ⊢
      refine ⟨timeoutMs, rfl, ⟨?_, fun hSome => absurd hSome hNone⟩, ⟨?_, fun hPast => absurd hPast.2 hReached⟩, ?_⟩
      · rintro rfl
        change (-1 : Int) = _ at hValue
        omega
      · rintro rfl
        change (0 : Int) = _ at hValue
        omega
      · intro _ _
        rw [Int32.le_iff_toInt_le, hValue]
        change (1 : Int) ≤ _ ∧ _
        refine ⟨by omega, ?_⟩
        by_cases hFits : remaining.toInt ≤ 2 ^ 31 - 1
        · left
          omega
        · right
          apply Int32.toInt_inj.mp
          rw [hValue, Int32.toInt_maxValue]
          omega

/-- Each deadline is exact up to a millisecond and no operation on the way overflows; the poll call is given
a time that does not end before the deadline. -/
theorem deadline_arithmetic (connection : ReactorConnection) (start timeout now : Int64) (deadline : Deadline)
    (hStart : 0 ≤ start) (hTimeout : 0 ≤ timeout) (hNow : 0 ≤ now) :
    Saturates deadlineFrom start timeout ∧
    Saturates deadlineFromNow start timeout ∧
    Saturates (fun ticks => connectionInactivityDeadline { connection with lastIoProgress := ticks }) start timeout ∧
    Saturates (fun ticks => inactivityDeadline { connection with lastOutputProgress := ticks }) start timeout ∧
    ∃ timeoutMs, pollTimeoutMs deadline now = some timeoutMs ∧ Rounded deadline now timeoutMs := by
  have hBody := saturatingDeadline_saturates hStart hTimeout
  exact ⟨hBody, hBody, hBody, hBody, pollTimeoutMs_rounded deadline hNow⟩

/-- A timeout that saturates, one tick before the value that stands for no deadline. -/
theorem deadline_arithmetic_saturated : Saturates deadlineFrom 5 Int64.maxValue ∧
    deadlineFrom 5 Int64.maxValue = some (noDeadline - 1) ∧
    pollTimeoutMs (noDeadline - 1) 5 = some Int32.maxValue ∧ pollTimeoutMs 1000006 5 = some 2 := by
  refine ⟨?_, by decide, by decide, by decide⟩
  exact (deadline_arithmetic {} 5 Int64.maxValue 0 0 (by decide) (by decide) (by decide)).1

end EasyUds.Transport.Deadlines

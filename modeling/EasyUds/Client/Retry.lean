import EasyUds.Lib.Signed
import EasyUds.Protocol.Codec

/-! # Idempotent requests

`Client::request_idempotent` sends a request again after an error that may pass, with a delay that doubles
up to a limit. What the `k`-th call of `request` returns or throws is `outcomes k`, counted from one; the
arithmetic of the delay is checked.
-/

namespace EasyUds.Client.Retry

open Lib.Signed Protocol.Codec

inductive Errc
  | timedOut
  | connectionAborted
  | connectionReset
  | brokenPipe
  | notConnected
  | addressInUse
  | deviceOrResourceBusy
  | resourceUnavailableTryAgain
  | noSuchFileOrDirectory
  | connectionRefused
  | networkUnreachable
  | hostUnreachable
  | messageSize
  | operationCanceled
  | other
  deriving DecidableEq, Repr

def classifySystemError : Errc → ErrorCode
  | .timedOut => .timeout
  | .connectionAborted | .connectionReset | .brokenPipe | .notConnected => .closed
  | .addressInUse | .deviceOrResourceBusy | .resourceUnavailableTryAgain => .busy
  | .noSuchFileOrDirectory | .connectionRefused | .networkUnreachable | .hostUnreachable => .unavailable
  | .messageSize => .tooLarge
  | .operationCanceled => .cancelled
  | .other => .system

structure RetryOptions where
  maxAttempts : Nat := 3
  initialBackoff : Int64 := 5
  maxBackoff : Int64 := 100
  deriving DecidableEq, Repr

def RetryOptions.invalid (retry : RetryOptions) : Bool :=
  retry.maxAttempts == 0 || retry.initialBackoff < 0 || retry.maxBackoff < 0 ||
    retry.initialBackoff > retry.maxBackoff

/-- Only an `Error` is caught; every other exception leaves the loop. -/
def retryable : Exception → Bool
  | .error kind _ => kind == .timeout || kind == .closed || kind == .unavailable
  | _ => false

inductive Step
  | request
  | sleep (milliseconds : Int)
  deriving DecidableEq, Repr

structure Call (Response : Type) where
  steps : List Step
  result : Except Exception Response

def pause (backoff : Int) : List Step := if backoff > 0 then [.sleep backoff] else []

def nextBackoff (retry : RetryOptions) (backoff : Int64) : Option Int64 :=
  if backoff < retry.maxBackoff then do
    let remaining ← sub retry.maxBackoff backoff
    add backoff (min backoff remaining)
  else some backoff

section Loop

variable {Response : Type}

def attemptLoop (retry : RetryOptions) (outcomes : Nat → Except Exception Response) (attempt : Nat)
    (backoff : Int64) : Option (Call Response) :=
  match outcomes attempt with
  | .ok response => some ⟨[.request], .ok response⟩
  | .error error =>
    if retryable error = false ∨ attempt ≥ retry.maxAttempts then some ⟨[.request], .error error⟩
    else do
      let next ← nextBackoff retry backoff
      let later ← attemptLoop retry outcomes (attempt + 1) next
      some ⟨.request :: (pause backoff.toInt ++ later.steps), later.result⟩
termination_by retry.maxAttempts - attempt

def requestIdempotent (retry : RetryOptions) (outcomes : Nat → Except Exception Response) :
    Option (Call Response) :=
  if retry.invalid then some ⟨[], .error (.invalidArgument "invalid idempotent request retry options")⟩
  else attemptLoop retry outcomes 1 retry.initialBackoff

def delay (retry : RetryOptions) (k : Nat) : Int := min (retry.initialBackoff.toInt * 2 ^ k) retry.maxBackoff.toInt

structure Accepted (retry : RetryOptions) : Prop where
  attempts : 1 ≤ retry.maxAttempts
  initial : 0 ≤ retry.initialBackoff.toInt
  ordered : retry.initialBackoff.toInt ≤ retry.maxBackoff.toInt

theorem accepted_iff {retry : RetryOptions} : Accepted retry ↔ retry.invalid = false := by
  simp only [RetryOptions.invalid, Bool.or_eq_false_iff, beq_eq_false_iff_ne, decide_eq_false_iff_not,
    Int64.lt_iff_toInt_lt, gt_iff_lt]
  change _ ↔ ((_ ∧ ¬ _ < (0 : Int)) ∧ ¬ _ < (0 : Int)) ∧ _
  constructor
  · rintro ⟨hAttempts, hInitial, hOrdered⟩
    omega
  · rintro ⟨⟨⟨hAttempts, hInitial⟩, -⟩, hOrdered⟩
    exact ⟨by omega, by omega, by omega⟩

variable {retry : RetryOptions}

theorem Accepted.delay_zero (h : Accepted retry) : delay retry 0 = retry.initialBackoff.toInt := by
  rw [delay, pow_zero, mul_one, min_eq_left h.ordered]

theorem doubled_nonneg {initial : Int} (hInitial : 0 ≤ initial) (k : Nat) : 0 ≤ initial * 2 ^ k :=
  Int.mul_nonneg hInitial (Int.pow_nonneg (by decide))

theorem delay_succ {initial limit : Int} (hInitial : 0 ≤ initial) (hLimit : 0 ≤ limit) (k : Nat) :
    min (initial * 2 ^ (k + 1)) limit =
      min (initial * 2 ^ k) limit + min (min (initial * 2 ^ k) limit) (limit - min (initial * 2 ^ k) limit) := by
  have hPower := doubled_nonneg hInitial k
  rw [pow_succ, ← mul_assoc]
  omega

theorem Accepted.nextBackoff_eq (h : Accepted retry) {backoff : Int64} {k : Nat}
    (hBackoff : backoff.toInt = delay retry k) :
    ∃ next, nextBackoff retry backoff = some next ∧ next.toInt = delay retry (k + 1) := by
  have hHigh := Int64.toInt_lt retry.maxBackoff
  have hPower := doubled_nonneg h.initial k
  have hLimit := h.initial.trans h.ordered
  have hNext := delay_succ h.initial hLimit k
  rw [← delay, ← delay, ← hBackoff] at hNext
  rw [nextBackoff]
  unfold delay at hBackoff
  split
  · obtain ⟨remaining, hRemaining⟩ := exists_toInt (retry.maxBackoff.toInt - backoff.toInt) (by omega) (by omega)
    obtain ⟨next, hSum⟩ := exists_toInt (backoff.toInt + min backoff.toInt remaining.toInt) (by omega) (by omega)
    rw [sub_eq_some.mpr hRemaining]
    refine ⟨next, add_eq_some.mpr ?_, ?_⟩
    · rw [toInt_min, hSum]
    · rw [hSum, hRemaining, hNext]
  · rename_i hTop
    rw [Int64.lt_iff_toInt_lt] at hTop
    exact ⟨backoff, rfl, by omega⟩

def schedule (retry : RetryOptions) (first last : Nat) : List Step :=
  (List.range' first (last - first)).flatMap (fun k => .request :: pause (delay retry (k - 1))) ++ [.request]

structure Bounded (retry : RetryOptions) (outcomes : Nat → Except Exception Response) (first last : Nat)
    (call : Call Response) : Prop where
  started : first ≤ last
  limited : last ≤ retry.maxAttempts
  repeated : ∀ k, first ≤ k → k < last → ∃ error, outcomes k = .error error ∧ retryable error = true
  result : call.result = outcomes last
  ended : ∀ error, outcomes last = .error error → retryable error = false ∨ last = retry.maxAttempts
  steps : call.steps = schedule retry first last

variable {outcomes : Nat → Except Exception Response}

theorem Bounded.single {attempt : Nat} {result : Except Exception Response} (hLimit : attempt ≤ retry.maxAttempts)
    (hResult : outcomes attempt = result)
    (hEnded : ∀ error, result = .error error → retryable error = false ∨ attempt = retry.maxAttempts) :
    Bounded retry outcomes attempt attempt ⟨[.request], result⟩ where
  started := Nat.le_refl _
  limited := hLimit
  repeated k hFirst hLast := absurd hFirst (Nat.not_le.mpr hLast)
  result := hResult.symm
  ended error hError := hEnded error (hResult.symm.trans hError)
  steps := by
    rw [schedule, Nat.sub_self]
    rfl

theorem Bounded.prepend {attempt last : Nat} {later : Call Response} {error : Exception}
    (h : Bounded retry outcomes (attempt + 1) last later) (hOutcome : outcomes attempt = .error error)
    (hRetry : retryable error = true) :
    Bounded retry outcomes attempt last
      ⟨.request :: (pause (delay retry (attempt - 1)) ++ later.steps), later.result⟩ where
  started := Nat.le_of_succ_le h.started
  limited := h.limited
  repeated k hFirst hLast := by
    obtain rfl | hLater := Nat.eq_or_lt_of_le hFirst
    · exact ⟨error, hOutcome, hRetry⟩
    · exact h.repeated k hLater hLast
  result := h.result
  ended := h.ended
  steps := by
    have hCount : last - attempt = last - (attempt + 1) + 1 := by
      have hStarted := h.started
      omega
    rw [h.steps, schedule, schedule, hCount, List.range'_succ, List.flatMap_cons]
    simp

theorem Accepted.attemptLoop_bounded (h : Accepted retry) {attempt : Nat} {backoff : Int64} (hFirst : 1 ≤ attempt)
    (hLimit : attempt ≤ retry.maxAttempts) (hBackoff : backoff.toInt = delay retry (attempt - 1)) :
    ∃ call last, attemptLoop retry outcomes attempt backoff = some call ∧ Bounded retry outcomes attempt last call := by
  -- Induction on the attempts that are left.
  induction hLeft : retry.maxAttempts - attempt generalizing attempt backoff with
  | zero =>
    have hLast : attempt = retry.maxAttempts := by omega
    rw [attemptLoop]
    split
    · rename_i response hOutcome
      exact ⟨_, attempt, rfl, .single hLimit hOutcome nofun⟩
    · rename_i error hOutcome
      rw [if_pos (.inr (Nat.le_of_eq hLast.symm))]
      exact ⟨_, attempt, rfl, .single hLimit hOutcome fun _ _ => .inr hLast⟩
  | succ left ih =>
    rw [attemptLoop]
    split
    · rename_i response hOutcome
      exact ⟨_, attempt, rfl, .single hLimit hOutcome nofun⟩
    · rename_i error hOutcome
      cases hRetry : retryable error with
      | false =>
        rw [if_pos (.inl rfl)]
        refine ⟨_, attempt, rfl, .single hLimit hOutcome ?_⟩
        rintro _ ⟨⟩
        exact .inl hRetry
      | true =>
        rw [if_neg (by simp; omega)]
        obtain ⟨next, hNext, hDelay⟩ := h.nextBackoff_eq hBackoff
        have hIndex : attempt - 1 + 1 = attempt + 1 - 1 := by omega
        obtain ⟨later, last, hLater, hBounded⟩ :=
          @ih (attempt + 1) next (by omega) (by omega) (hIndex ▸ hDelay) (by omega)
        simp only [hNext, hLater, Option.bind_eq_bind, Option.bind_some]
        rw [hBackoff]
        exact ⟨_, last, rfl, hBounded.prepend hOutcome hRetry⟩

theorem pause_count (backoff : Int) : (pause backoff).count .request = 0 := by
  unfold pause
  split <;> rfl

theorem schedule_count (retry : RetryOptions) (first last : Nat) :
    (schedule retry first last).count .request = last - first + 1 := by
  rw [schedule, List.count_append, List.count_flatMap]
  simp [Function.comp_def, pause_count]

theorem schedule_one (retry : RetryOptions) (last : Nat) : schedule retry 1 last =
    (List.range (last - 1)).flatMap (fun k => .request :: pause (delay retry k)) ++ [.request] := by
  rw [schedule, List.range'_eq_map_range, List.flatMap_map]
  simp only [Nat.add_sub_cancel_left]

theorem retryable_kind {error : Exception} (h : retryable error = true) : ∃ kind message,
    error = .error kind message ∧ (kind = .timeout ∨ kind = .closed ∨ kind = .unavailable) := by
  cases error with
  | error kind message =>
    simp only [retryable, Bool.or_eq_true, beq_iff_eq, or_assoc] at h
    exact ⟨kind, message, rfl, h⟩
  | invalidArgument | lengthError | runtimeError => cases h

theorem retryable_systemError (code : Errc) (message : String) :
    retryable (.error (classifySystemError code) message) = true ↔
      code ∈ [.timedOut, .connectionAborted, .connectionReset, .brokenPipe, .notConnected, .noSuchFileOrDirectory,
        .connectionRefused, .networkUnreachable, .hostUnreachable] := by
  cases code <;> simp [retryable, classifySystemError]

/-- Every delay is exact, and the call ends with the first success, the first error that does not pass or the
last attempt. A delay of zero is not slept. -/
theorem retry_bounds (retry : RetryOptions) (outcomes : Nat → Except Exception Response)
    (hAccepted : retry.invalid = false) :
    ∃ call sent, requestIdempotent retry outcomes = some call ∧
      1 ≤ sent ∧ sent ≤ retry.maxAttempts ∧ call.steps.count .request = sent ∧
      (∀ k, 1 ≤ k → k < sent → ∃ kind message, outcomes k = .error (.error kind message) ∧
        (kind = .timeout ∨ kind = .closed ∨ kind = .unavailable)) ∧
      call.steps = (List.range (sent - 1)).flatMap (fun k => .request ::
        pause (min (retry.initialBackoff.toInt * 2 ^ k) retry.maxBackoff.toInt)) ++ [.request] ∧
      call.result = outcomes sent ∧
      (∀ error, outcomes sent = .error error → retryable error = false ∨ sent = retry.maxAttempts) := by
  have h := accepted_iff.mpr hAccepted
  obtain ⟨call, sent, hCall, hBounded⟩ :=
    @Accepted.attemptLoop_bounded Response retry outcomes h 1 retry.initialBackoff (Nat.le_refl _) h.attempts
      h.delay_zero.symm
  refine ⟨call, sent, ?_, hBounded.started, hBounded.limited, ?_, ?_, ?_, hBounded.result, hBounded.ended⟩
  · rw [requestIdempotent, if_neg (by rw [hAccepted]; nofun), hCall]
  · rw [hBounded.steps, schedule_count]
    exact Nat.sub_add_cancel hBounded.started
  · intro k hFirst hLast
    obtain ⟨error, hOutcome, hRetry⟩ := hBounded.repeated k hFirst hLast
    obtain ⟨kind, message, rfl, hKind⟩ := retryable_kind hRetry
    exact ⟨kind, message, hOutcome, hKind⟩
  · rw [hBounded.steps, schedule_one]
    rfl

end Loop

def longDelays : RetryOptions := ⟨4, Int64.maxValue - 1, Int64.maxValue⟩

theorem retry_bounds_longDelays : longDelays.invalid = false ∧
    ∃ call sent, requestIdempotent longDelays (fun _ => (.error (.error .closed "") : Except Exception Unit)) =
      some call ∧ 1 ≤ sent ∧ sent ≤ 4 ∧ call.steps.count .request = sent := by
  refine ⟨by decide, ?_⟩
  obtain ⟨call, sent, hCall, hFirst, hLimit, hCount, -⟩ :=
    retry_bounds longDelays (fun _ => (.error (.error .closed "") : Except Exception Unit)) (by decide)
  exact ⟨call, sent, hCall, hFirst, hLimit, hCount⟩

end EasyUds.Client.Retry

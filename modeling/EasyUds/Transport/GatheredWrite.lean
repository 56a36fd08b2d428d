import EasyUds.Transport.Io

/-! # Gathered writes to the end

`write_iovecs_exact` and its variant with a descriptor repeat the send call until every part has been taken.
What each turn of the loop meets is an `Attempt`: the clock, the socket and the wait between two calls decide it.
A run that the list of attempts does not finish is still within the loop.
-/

namespace EasyUds.Transport.GatheredWrite

open Protocol.Codec Transport.Io

inductive Wait
  | ready
  | timedOut
  | invalidDescriptor (kind : ErrorCode)
  | error (kind : ErrorCode)
  deriving DecidableEq, Repr

/-- The absolute deadline has passed before the call, or the call takes at most `count` bytes or fails. -/
inductive Attempt
  | expired
  | accepts (count : Nat)
  | interrupted
  | blocked (wait : Wait)
  | failed (kind : ErrorCode)
  deriving DecidableEq, Repr

/-- One send call: the descriptor that it offers and the bytes that the socket takes. -/
structure Send where
  descriptor : Option Nat
  taken : List UInt8
  deriving DecidableEq, Repr

inductive Ending
  | returned
  | threw (reason : Exception)
  | within
  deriving DecidableEq, Repr

structure Write where
  sends : List Send
  ending : Ending
  deriving DecidableEq, Repr

def Write.accepted (write : Write) : List UInt8 := write.sends.flatMap Send.taken

def Write.after (write : Write) (send : Send) : Write := { write with sends := send :: write.sends }

def timedOutError : Exception := .error .timeout "send timed out"

/-- The call takes nothing; the loop goes on or throws. -/
def refused : Attempt → Option Exception
  | .expired => some timedOutError
  | .accepts _ => some (.error .closed "send failed")
  | .interrupted | .blocked .ready => none
  | .blocked .timedOut => some timedOutError
  | .blocked (.invalidDescriptor kind) => some (.error kind "socket descriptor became invalid")
  | .blocked (.error kind) => some (.error kind "poll failed")
  | .failed kind => some (.error kind "send failed")

def result (offered : List (List UInt8)) : Attempt → Nat
  | .accepts count => min count offered.flatten.length
  | _ => 0

/-- The loop with the descriptor that it attaches until a call has succeeded. -/
def writeLoop : List (List UInt8) → Option Nat → List Attempt → Write
  | parts, _, [] => ⟨[], if skipEmpty parts = [] then .returned else .within⟩
  | parts, descriptor, attempt :: rest =>
    let offered := skipEmpty parts
    if offered = [] then ⟨[], .returned⟩
    else if attempt = .expired then ⟨[], .threw timedOutError⟩
    else
      let count := result offered attempt
      if count > 0 then
        (writeLoop (advance offered count) none rest).after ⟨descriptor, offered.flatten.take count⟩
      else
        match refused attempt with
        | some reason => ⟨[⟨descriptor, []⟩], .threw reason⟩
        | none => (writeLoop offered descriptor rest).after ⟨descriptor, []⟩

def writeIovecsExact (parts : List (List UInt8)) (attempts : List Attempt) : Write := writeLoop parts none attempts

def writeIovecsExactWithFd (parts : List (List UInt8)) (passedFd : Nat) (attempts : List Attempt) : Write :=
  writeLoop parts (some passedFd) attempts

/-- The gathered parts of `write_request_frame_with_fd`. -/
def requestWithFdParts (requestId : UInt32) (route body : List UInt8) (wireVersion : UInt8) : List (List UInt8) :=
  [encodeHeader .request requestId (UInt32.ofNat route.length) (UInt32.ofNat body.length) carriesFdFlag wireVersion,
    route, body]

def writeRequestFrameWithFd (requestId : UInt32) (passedFd : Nat) (route body : List UInt8) (wireVersion : UInt8)
    (attempts : List Attempt) : Write :=
  writeIovecsExactWithFd (requestWithFdParts requestId route body wireVersion) passedFd attempts

def writeExact : List UInt8 → List Attempt → Write
  | bytes, [] => ⟨[], if bytes = [] then .returned else .within⟩
  | bytes, attempt :: rest =>
    if bytes = [] then ⟨[], .returned⟩
    else if attempt = .expired then ⟨[], .threw timedOutError⟩
    else
      let count := result [bytes] attempt
      if count > 0 then (writeExact (bytes.drop count) rest).after ⟨none, bytes.take count⟩
      else
        match refused attempt with
        | some reason => ⟨[⟨none, []⟩], .threw reason⟩
        | none => (writeExact bytes rest).after ⟨none, []⟩

@[simp] theorem accepted_after (write : Write) (send : Send) :
    (write.after send).accepted = send.taken ++ write.accepted := rfl

@[simp] theorem ending_after (write : Write) (send : Send) : (write.after send).ending = write.ending := rfl

@[simp] theorem sends_after (write : Write) (send : Send) : (write.after send).sends = send :: write.sends := rfl

section

variable (offered : List (List UInt8)) (descriptor : Option Nat) (rest : List Attempt) (write : Write)

inductive Turn : Prop
  | took (count : Nat) : 0 < count → count ≤ offered.flatten.length →
      write = (writeLoop (advance offered count) none rest).after ⟨descriptor, offered.flatten.take count⟩ → Turn
  | again : write = (writeLoop offered descriptor rest).after ⟨descriptor, []⟩ → Turn
  | threw (sends : List Send) (reason : Exception) : sends = [] ∨ sends = [⟨descriptor, []⟩] →
      write = ⟨sends, .threw reason⟩ → Turn

end

theorem result_le (offered : List (List UInt8)) (attempt : Attempt) :
    result offered attempt ≤ offered.flatten.length := by
  cases attempt with
  | accepts count => exact Nat.min_le_right _ _
  | _ => exact Nat.zero_le _

theorem writeLoop_turn {parts : List (List UInt8)} (hSome : skipEmpty parts ≠ []) (descriptor : Option Nat)
    (attempt : Attempt) (rest : List Attempt) :
    Turn (skipEmpty parts) descriptor rest (writeLoop parts descriptor (attempt :: rest)) := by
  rw [writeLoop, if_neg hSome]
  split
  · exact .threw [] timedOutError (.inl rfl) rfl
  · dsimp only
    split
    · rename_i hCount
      exact .took _ hCount (result_le _ attempt) rfl
    · split
      · rename_i reason _
        exact .threw _ reason (.inr rfl) rfl
      · exact .again rfl

theorem writeLoop_done {parts : List (List UInt8)} (hNone : skipEmpty parts = []) (descriptor : Option Nat)
    (attempts : List Attempt) : writeLoop parts descriptor attempts = ⟨[], .returned⟩ := by
  cases attempts with
  | nil | cons attempt rest => rw [writeLoop, if_pos hNone]

/-- What the socket has taken is the front of the parts, and all of them when the loop returns; a loop that has
not ended has made a call for each attempt. -/
structure Emits (parts : List (List UInt8)) (attempts : List Attempt) (write : Write) : Prop where
  front : write.accepted <+: parts.flatten
  whole : write.ending = .returned → write.accepted = parts.flatten
  within : write.ending = .within → write.sends.length = attempts.length

theorem Emits.after {offered parts : List (List UInt8)} {rest : List Attempt} {write : Write} {count : Nat}
    (attempt : Attempt) (descriptor : Option Nat) (h : Emits offered rest write)
    (hLeft : offered.flatten = parts.flatten.drop count) :
    Emits parts (attempt :: rest) (write.after ⟨descriptor, parts.flatten.take count⟩) where
  front := by
    rw [accepted_after]
    conv_rhs => rw [← List.take_append_drop count parts.flatten, ← hLeft]
    exact (List.prefix_append_right_inj _).mpr h.front
  whole hReturned := by
    rw [accepted_after, h.whole hReturned, hLeft]
    exact List.take_append_drop count _
  within hWithin := congrArg Nat.succ (h.within hWithin)

theorem writeLoop_emits (parts : List (List UInt8)) (descriptor : Option Nat) (attempts : List Attempt) :
    Emits parts attempts (writeLoop parts descriptor attempts) := by
  induction attempts generalizing parts descriptor with
  | nil =>
    rw [writeLoop]
    refine ⟨List.nil_prefix, ?_, fun _ => rfl⟩
    intro hReturned
    by_cases hNone : skipEmpty parts = []
    · exact (skipEmpty_eq_nil.mp hNone).symm
    · rw [if_neg hNone] at hReturned
      cases hReturned
  | cons attempt rest ih =>
    by_cases hNone : skipEmpty parts = []
    · rw [writeLoop_done hNone]
      exact ⟨List.nil_prefix, fun _ => (skipEmpty_eq_nil.mp hNone).symm, nofun⟩
    · have hSame := skipEmpty_flatten parts
      obtain ⟨count, -, -, hWrite⟩ | hWrite | ⟨sends, reason, hSends, hWrite⟩ :=
        writeLoop_turn hNone descriptor attempt rest
      · rw [hWrite, hSame]
        exact (ih _ none).after attempt descriptor (by rw [advance_flatten, hSame])
      · rw [hWrite]
        exact @Emits.after (skipEmpty parts) parts _ _ 0 attempt descriptor (ih _ descriptor) hSame
      · rw [hWrite]
        refine ⟨?_, nofun, nofun⟩
        obtain rfl | rfl := hSends <;> exact List.nil_prefix

/-- The calls up to the first one that succeeds offer the descriptor, and no later one does. -/
inductive OfferedOnce (descriptor : Nat) : List Send → Prop
  | nil : OfferedOnce descriptor []
  | failed {later : List Send} : OfferedOnce descriptor later → OfferedOnce descriptor (⟨some descriptor, []⟩ :: later)
  | succeeded {taken : List UInt8} {later : List Send} : taken ≠ [] → (∀ send ∈ later, send.descriptor = none) →
      OfferedOnce descriptor (⟨some descriptor, taken⟩ :: later)

theorem writeLoop_bare (parts : List (List UInt8)) (attempts : List Attempt) :
    ∀ send ∈ (writeLoop parts none attempts).sends, send.descriptor = none := by
  induction attempts generalizing parts with
  | nil => nofun
  | cons attempt rest ih =>
    by_cases hNone : skipEmpty parts = []
    · rw [writeLoop_done hNone]
      nofun
    · obtain ⟨count, -, -, hWrite⟩ | hWrite | ⟨sends, reason, hSends, hWrite⟩ := writeLoop_turn hNone none attempt rest
      · rw [hWrite, sends_after]
        exact List.forall_mem_cons.mpr ⟨rfl, ih _⟩
      · rw [hWrite, sends_after]
        exact List.forall_mem_cons.mpr ⟨rfl, ih _⟩
      · rw [hWrite]
        obtain rfl | rfl := hSends
        · nofun
        · exact List.forall_mem_singleton.mpr rfl

theorem writeLoop_offers (parts : List (List UInt8)) (descriptor : Nat) (attempts : List Attempt) :
    OfferedOnce descriptor (writeLoop parts (some descriptor) attempts).sends := by
  induction attempts generalizing parts with
  | nil => exact .nil
  | cons attempt rest ih =>
    by_cases hNone : skipEmpty parts = []
    · rw [writeLoop_done hNone]
      exact .nil
    · obtain ⟨count, hPositive, hCount, hWrite⟩ | hWrite | ⟨sends, reason, hSends, hWrite⟩ :=
        writeLoop_turn hNone (some descriptor) attempt rest
      · rw [hWrite, sends_after]
        refine .succeeded ?_ (writeLoop_bare _ _)
        intro hNothing
        have hLength := congrArg List.length hNothing
        rw [List.length_take, List.length_nil] at hLength
        omega
      · rw [hWrite, sends_after]
        exact .failed (ih _)
      · rw [hWrite]
        obtain rfl | rfl := hSends
        · exact .nil
        · exact .failed .nil

theorem writeExact_done (attempts : List Attempt) : writeExact [] attempts = ⟨[], .returned⟩ := by
  cases attempts <;> rfl

theorem skipEmpty_single {bytes : List UInt8} (hSome : bytes ≠ []) : skipEmpty [bytes] = [bytes] := by
  rw [skipEmpty, if_neg (mt List.length_eq_zero_iff.mp hSome)]

theorem writeExact_eq (bytes : List UInt8) (attempts : List Attempt) :
    writeExact bytes attempts = writeIovecsExact [bytes] attempts := by
  unfold writeIovecsExact
  induction attempts generalizing bytes with
  | nil =>
    by_cases hNone : bytes = []
    · subst hNone
      rfl
    · rw [writeExact, writeLoop, skipEmpty_single hNone, if_neg hNone, if_neg (List.cons_ne_nil _ _)]
  | cons attempt rest ih =>
    by_cases hNone : bytes = []
    · subst hNone
      rfl
    · have hAdvance : ∀ count, writeExact (bytes.drop count) rest = writeLoop (advance [bytes] count) none rest := by
        intro count
        rw [advance]
        split
        · rename_i hWhole
          rw [List.drop_eq_nil_of_le hWhole, writeExact_done, advance, writeLoop_done rfl]
        · exact ih _
      rw [writeExact, writeLoop, skipEmpty_single hNone, if_neg hNone, if_neg (List.cons_ne_nil _ _)]
      simp only [hAdvance, ih, List.flatten_cons, List.flatten_nil, List.append_nil]

def progress : Attempt → Nat
  | .accepts count => count
  | _ => 0

def smooth : Attempt → Bool
  | .accepts (_ + 1) | .interrupted | .blocked .ready => true
  | _ => false

theorem writeLoop_returns (parts : List (List UInt8)) (descriptor : Option Nat) (attempts : List Attempt)
    (hSmooth : ∀ attempt ∈ attempts, smooth attempt = true)
    (hEnough : parts.flatten.length ≤ (attempts.map progress).sum) :
    (writeLoop parts descriptor attempts).ending = .returned := by
  induction attempts generalizing parts descriptor with
  | nil =>
    have hNothing : parts.flatten = [] := List.length_eq_zero_iff.mp (Nat.le_zero.mp hEnough)
    rw [writeLoop_done (skipEmpty_eq_nil.mpr hNothing)]
  | cons attempt rest ih =>
    by_cases hNone : skipEmpty parts = []
    · rw [writeLoop_done hNone]
    · obtain ⟨hHere, hRest⟩ := List.forall_mem_cons.mp hSmooth
      rw [List.map_cons, List.sum_cons] at hEnough
      have hAgain : progress attempt = 0 → (writeLoop (skipEmpty parts) descriptor rest).ending = .returned := by
        intro hNoProgress
        apply ih _ _ hRest
        rw [skipEmpty_flatten]
        omega
      rw [writeLoop, if_neg hNone]
      cases attempt with
      | accepts count =>
        obtain _ | count := count
        · cases hHere
        · have hSome : 0 < (skipEmpty parts).flatten.length := by
            rw [skipEmpty_flatten, List.length_pos_iff]
            exact mt skipEmpty_eq_nil.mpr hNone
          have hTaken : result (skipEmpty parts) (.accepts (count + 1)) > 0 := by
            rw [result]
            omega
          rw [if_neg nofun]
          dsimp only
          rw [if_pos hTaken, ending_after]
          apply ih _ _ hRest
          rw [advance_flatten, List.length_drop, skipEmpty_flatten]
          change _ ≤ count + 1 + _ at hEnough
          rw [result, skipEmpty_flatten]
          omega
      | interrupted => exact hAgain rfl
      | blocked wait =>
        cases wait with
        | ready => exact hAgain rfl
        | timedOut | invalidDescriptor | error => cases hHere
      | expired | failed => cases hHere

theorem writeLoop_returns_interrupted : (writeLoop [[], [1, 2], [3]] (some 7) [.interrupted, .accepts 1,
    .blocked .ready, .accepts 2]).ending = .returned := writeLoop_returns _ _ _ (by decide) (by decide)

/-- The bytes that the socket takes are the parts in order, or a front of them when the write throws or the
attempts are used up; the descriptor goes out with the first bytes. -/
theorem gathered_write_exact (parts : List (List UInt8)) (passedFd : Nat) (attempts : List Attempt) :
    Emits parts attempts (writeIovecsExact parts attempts) ∧
    (∀ send ∈ (writeIovecsExact parts attempts).sends, send.descriptor = none) ∧
    Emits parts attempts (writeIovecsExactWithFd parts passedFd attempts) ∧
    OfferedOnce passedFd (writeIovecsExactWithFd parts passedFd attempts).sends :=
  ⟨writeLoop_emits parts none attempts, writeLoop_bare parts attempts, writeLoop_emits parts (some passedFd) attempts,
    writeLoop_offers parts passedFd attempts⟩

example : writeIovecsExactWithFd [[], [1, 2], [], [3]] 7 [.interrupted, .accepts 1, .blocked .ready, .accepts 9] =
    ⟨[⟨some 7, []⟩, ⟨some 7, [1]⟩, ⟨none, []⟩, ⟨none, [2, 3]⟩], .returned⟩ := by decide

/-- A request that passes a descriptor: header, route and body in one piece on the wire. -/
theorem writeRequestFrameWithFd_returned {requestId : UInt32} {passedFd : Nat} {route body : List UInt8}
    {wireVersion : UInt8} {attempts : List Attempt}
    (hReturned : (writeRequestFrameWithFd requestId passedFd route body wireVersion attempts).ending = .returned) :
    (writeRequestFrameWithFd requestId passedFd route body wireVersion attempts).accepted =
      encodeHeader .request requestId (UInt32.ofNat route.length) (UInt32.ofNat body.length) carriesFdFlag
        wireVersion ++ route ++ body := by
  have hWhole := (writeLoop_emits (requestWithFdParts requestId route body wireVersion) (some passedFd) attempts).whole
  rw [writeRequestFrameWithFd, writeIovecsExactWithFd, hWhole hReturned]
  simp [requestWithFdParts]

end EasyUds.Transport.GatheredWrite

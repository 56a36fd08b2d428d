import Mathlib.Data.List.Basic
import Mathlib.Data.List.Nodup
import EasyUds.Protocol.Codec

/-! # Received descriptors

`descriptor_passing::receive` walks over the control messages that `recvmsg` has written and takes the
descriptors out of them, and `recv_with_fds` gives the one it returns to an owner. The constants are those
of a 64-bit system with `MSG_CMSG_CLOEXEC`.
-/

namespace EasyUds.Platform.DescriptorPassing

open Protocol.Codec (Exception)

def sizeofCmsghdr : Nat := 16
def sizeofInt : Nat := 4
def maxReceivedDescriptors : Nat := 253
def solSocket : Int := 1
def scmRights : Int := 1

def cmsgAlign (size : Nat) : Nat := (size + 7) / 8 * 8

def cmsgLen (size : Nat) : Nat := cmsgAlign sizeofCmsghdr + size

structure ControlMessage where
  level : Int
  type : Int
  length : Nat
  data : List Nat
  deriving DecidableEq, Repr

def ControlMessage.carriesRights (message : ControlMessage) : Bool :=
  message.level == solSocket && message.type == scmRights

structure Received where
  result : Int
  controlLength : Nat
  messages : List ControlMessage
  truncated : Bool
  deriving DecidableEq, Repr

inductive ReceiveError
  | none
  | invalidAncillary
  deriving DecidableEq, Repr

structure ReceiveResult where
  bytes : Int
  receivedFd : Int := -1
  error : ReceiveError := .none
  deriving DecidableEq, Repr

structure Capture where
  capturedFds : List Nat := []
  malformed : Bool := false
  deriving DecidableEq, Repr

/-- The loop over the control messages, from the one at `offset`. `CMSG_NXTHDR` ends it when no further
header fits into the buffer. -/
def capture (controlLength : Nat) : Nat → List ControlMessage → Capture → Capture
  | _, [], captured => captured
  | offset, message :: rest, captured =>
    if offset + sizeofCmsghdr > controlLength ∨ message.length < cmsgLen 0 ∨
        offset + message.length > controlLength then
      { captured with malformed := true }
    else
      let next := offset + cmsgAlign message.length
      let proceed := fun captured =>
        if next + sizeofCmsghdr ≤ controlLength then capture controlLength next rest captured else captured
      if message.carriesRights = false then proceed captured
      else
        let payloadBytes := message.length - cmsgLen 0
        let descriptorCount := payloadBytes / sizeofInt
        if payloadBytes = 0 ∨ payloadBytes % sizeofInt ≠ 0 ∨
            descriptorCount > maxReceivedDescriptors - captured.capturedFds.length then
          { captured with malformed := true }
        else
          let capturedFds := captured.capturedFds ++ message.data.take descriptorCount
          proceed
            { capturedFds
              malformed := captured.malformed || descriptorCount != 1 || capturedFds.length != 1 }

/-- The result, and the descriptors that were closed. -/
def receive (received : Received) : ReceiveResult × List Nat :=
  if received.result ≤ 0 then ({ bytes := received.result }, [])
  else
    let captured := capture received.controlLength 0 received.messages {}
    if received.truncated ∨ captured.malformed then
      ({ bytes := received.result, error := .invalidAncillary }, captured.capturedFds)
    else
      match captured.capturedFds with
      | [fd] => ({ bytes := received.result, receivedFd := fd }, [])
      | _ => ({ bytes := received.result }, [])

inductive Outcome
  | returned (bytes : Int)
  | threw (error : Exception)
  | outOfMemory
  deriving DecidableEq, Repr

structure Receipt where
  outcome : Outcome
  fds : List Nat
  closed : List Nat
  deriving DecidableEq, Repr

/-- `fds` is the queue of the owners; the destructor of an owner closes its descriptor. -/
def recvWithFds (received : Received) (fds : List Nat) (pushFails : Bool) : Receipt :=
  let (result, closed) := receive received
  match result.error with
  | .invalidAncillary => ⟨.threw (.runtimeError "invalid or truncated ancillary descriptor"), fds, closed⟩
  | .none =>
    if result.bytes > 0 ∧ result.receivedFd ≥ 0 then
      if pushFails then ⟨.outOfMemory, fds, closed ++ [result.receivedFd.toNat]⟩
      else ⟨.returned result.bytes, fds ++ [result.receivedFd.toNat], closed⟩
    else ⟨.returned result.bytes, fds, closed⟩

def materialised (messages : List ControlMessage) : List Nat :=
  messages.flatMap fun message => if message.carriesRights then message.data else []

def occupied (messages : List ControlMessage) : Nat :=
  (messages.map fun message => cmsgAlign message.length).sum

/-- The messages lie one behind the other in the buffer, and without data there is none. A message with
rights carries at least one descriptor, all of them are new, and together they are at most as many as the
source provides for. -/
structure Returnable (received : Received) : Prop where
  layout : occupied received.messages ≤ received.controlLength
  headers : ∀ message ∈ received.messages, cmsgLen 0 ≤ message.length
  rights : ∀ message ∈ received.messages, message.carriesRights = true →
    message.data ≠ [] ∧ message.length = cmsgLen (sizeofInt * message.data.length)
  total : (materialised received.messages).length ≤ maxReceivedDescriptors
  fresh : (materialised received.messages).Nodup
  withData : received.result ≤ 0 → received.messages = []

theorem le_cmsgAlign (size : Nat) : size ≤ cmsgAlign size := by
  rw [cmsgAlign]
  omega

theorem materialised_cons (message : ControlMessage) (rest : List ControlMessage) :
    materialised (message :: rest) = (if message.carriesRights then message.data else []) ++ materialised rest :=
  List.flatMap_cons

theorem occupied_cons (message : ControlMessage) (rest : List ControlMessage) :
    occupied (message :: rest) = cmsgAlign message.length + occupied rest := by
  rw [occupied, List.map_cons, List.sum_cons, occupied]

def Capture.after (captured : Capture) (fds : List Nat) : Capture where
  capturedFds := captured.capturedFds ++ fds
  malformed := captured.malformed || (!fds.isEmpty && (captured.capturedFds ++ fds).length != 1)

theorem Capture.after_nil (captured : Capture) : captured.after [] = captured := by
  simp [Capture.after]

theorem Capture.after_append (captured : Capture) {fds : List Nat} (hSome : fds ≠ []) (rest : List Nat) :
    Capture.after
      { capturedFds := captured.capturedFds ++ fds
        malformed := captured.malformed || fds.length != 1 || (captured.capturedFds ++ fds).length != 1 } rest =
      captured.after (fds ++ rest) := by
  have hLength : fds.length ≠ 0 := fun h => hSome (List.length_eq_zero_iff.mp h)
  have hRest : rest.isEmpty = decide (rest.length = 0) := by
    cases rest <;> simp
  have hEmpty : (fds ++ rest).isEmpty = false := by
    rw [List.isEmpty_eq_false_iff]
    exact fun h => hSome (List.append_eq_nil_iff.mp h).1
  simp only [Capture.after, List.append_assoc, Capture.mk.injEq, true_and, hRest, hEmpty, List.length_append]
  cases captured.malformed with
  | true => simp only [Bool.true_or]
  | false =>
    rw [Bool.eq_iff_iff]
    simp only [Bool.false_or, Bool.or_eq_true, Bool.and_eq_true, Bool.not_eq_true', bne_iff_ne,
      decide_eq_false_iff_not, Bool.not_false, true_and]
    omega

theorem capture_eq {controlLength : Nat} (messages : List ControlMessage) (offset : Nat) (captured : Capture)
    (hLayout : offset + occupied messages ≤ controlLength)
    (hHeaders : ∀ message ∈ messages, cmsgLen 0 ≤ message.length)
    (hRights : ∀ message ∈ messages, message.carriesRights = true →
      message.data ≠ [] ∧ message.length = cmsgLen (sizeofInt * message.data.length))
    (hTotal : captured.capturedFds.length + (materialised messages).length ≤ maxReceivedDescriptors) :
    capture controlLength offset messages captured = captured.after (materialised messages) := by
  induction messages generalizing offset captured with
  | nil => rw [capture, materialised, List.flatMap_nil, Capture.after_nil]
  | cons message rest ih =>
    have hHeader := hHeaders message List.mem_cons_self
    have hAlign := le_cmsgAlign message.length
    rw [occupied_cons] at hLayout
    rw [materialised_cons, List.length_append] at hTotal
    have hFits : ¬ (offset + sizeofCmsghdr > controlLength ∨ message.length < cmsgLen 0 ∨
        offset + message.length > controlLength) := by
      have hSize : sizeofCmsghdr ≤ cmsgLen 0 := by decide
      omega
    have hNext (next : Capture)
        (hRoom : next.capturedFds.length + (materialised rest).length ≤ maxReceivedDescriptors) :
        (if offset + cmsgAlign message.length + sizeofCmsghdr ≤ controlLength then
          capture controlLength (offset + cmsgAlign message.length) rest next else next) =
          next.after (materialised rest) := by
      split
      · exact ih _ next (by omega) (fun m hm => hHeaders m (List.mem_cons_of_mem _ hm))
          (fun m hm => hRights m (List.mem_cons_of_mem _ hm)) hRoom
      · rename_i hEnd
        cases rest with
        | nil => exact (Capture.after_nil next).symm
        | cons second others =>
          have hSecond := hHeaders second (List.mem_cons_of_mem _ List.mem_cons_self)
          have hSecondAlign := le_cmsgAlign second.length
          have hSize : sizeofCmsghdr ≤ cmsgLen 0 := by decide
          rw [occupied_cons] at hLayout
          omega
    rw [capture, if_neg hFits, materialised_cons]
    dsimp only
    cases hCarries : message.carriesRights with
    | false =>
      rw [hCarries, if_neg Bool.false_ne_true, List.length_nil] at hTotal
      rw [if_pos rfl, if_neg Bool.false_ne_true, List.nil_append]
      exact hNext captured (by omega)
    | true =>
      obtain ⟨hSome, hLength⟩ := hRights message List.mem_cons_self hCarries
      have hPositive : message.data.length ≠ 0 := fun h => hSome (List.length_eq_zero_iff.mp h)
      rw [hCarries, if_pos rfl] at hTotal
      have hPayload : message.length - cmsgLen 0 = sizeofInt * message.data.length := by
        rw [hLength, cmsgLen, cmsgLen]
        omega
      have hCount : sizeofInt * message.data.length / sizeofInt = message.data.length :=
        Nat.mul_div_cancel_left _ (by decide)
      have hWhole : ¬ (sizeofInt * message.data.length = 0 ∨ sizeofInt * message.data.length % sizeofInt ≠ 0 ∨
          message.data.length > maxReceivedDescriptors - captured.capturedFds.length) := by
        rw [Nat.mul_mod_right]
        have hInt : sizeofInt ≠ 0 := by decide
        have hProduct := Nat.mul_ne_zero hInt hPositive
        omega
      rw [if_neg (by decide), hPayload, hCount, if_neg hWhole, List.take_length, if_pos rfl,
        ← Capture.after_append captured hSome]
      refine hNext _ ?_
      rw [List.length_append]
      omega

theorem Returnable.capture_eq {received : Received} (h : Returnable received) :
    capture received.controlLength 0 received.messages {} = Capture.after {} (materialised received.messages) :=
  DescriptorPassing.capture_eq received.messages 0 {} (by rw [Nat.zero_add]; exact h.layout) h.headers h.rights
    (by rw [List.length_nil, Nat.zero_add]; exact h.total)

theorem Returnable.receive_cases {received : Received} (h : Returnable received) :
    (∃ fd, materialised received.messages = [fd] ∧ received.truncated = false ∧
        receive received = ({ bytes := received.result, receivedFd := fd }, [])) ∨
      ¬ ((materialised received.messages).length = 1 ∧ received.truncated = false) ∧ ∃ error,
        receive received = ({ bytes := received.result, error }, materialised received.messages) := by
  by_cases hData : received.result ≤ 0
  · refine .inr ⟨?_, .none, ?_⟩
    · rw [h.withData hData]
      simp [materialised]
    · rw [receive, if_pos hData, h.withData hData]
      rfl
  · rw [receive, if_neg hData, h.capture_eq]
    dsimp only [Capture.after]
    cases hTruncated : received.truncated with
    | true =>
      refine .inr ⟨fun hBoth => Bool.false_ne_true hBoth.2.symm, .invalidAncillary, ?_⟩
      rw [if_pos (.inl rfl), List.nil_append]
    | false =>
      match materialised received.messages with
      | [] => exact .inr ⟨nofun, .none, rfl⟩
      | [fd] => exact .inl ⟨fd, rfl, rfl, rfl⟩
      | first :: second :: rest =>
        refine .inr ⟨?_, .invalidAncillary, ?_⟩
        · simp
        · rw [if_pos (.inr (by simp))]
          rfl

/-- `receive` returns a descriptor exactly when one was carried and nothing was cut off; otherwise it closes
every descriptor once. Whether or not its owner can be queued, every descriptor has a new owner or is
closed, and not both. -/
theorem descriptors_conserved (received : Received) (h : Returnable received) (fds : List Nat) (pushFails : Bool) :
    ((receive received).1.receivedFd ≠ -1 ↔
      (materialised received.messages).length = 1 ∧ received.truncated = false) ∧
    ((receive received).1.receivedFd ≠ -1 →
      materialised received.messages = [(receive received).1.receivedFd.toNat] ∧ (receive received).2 = []) ∧
    ((receive received).1.receivedFd = -1 →
      (receive received).2.Perm (materialised received.messages) ∧ (receive received).2.Nodup) ∧
    ∃ owned, (recvWithFds received fds pushFails).fds = fds ++ owned ∧
      (owned ++ (recvWithFds received fds pushFails).closed).Perm (materialised received.messages) ∧
      (owned ++ (recvWithFds received fds pushFails).closed).Nodup := by
  have hFresh := h.fresh
  rcases h.receive_cases with ⟨fd, hOne, hWhole, hResult⟩ | ⟨hOther, error, hResult⟩
  · have hReturned : (fd : Int) ≠ -1 := by omega
    rw [hResult, hOne]
    refine ⟨⟨fun _ => ⟨rfl, hWhole⟩, fun _ => hReturned⟩, fun _ => ⟨rfl, rfl⟩, fun hNone => absurd hNone hReturned, ?_⟩
    rw [recvWithFds, hResult]
    dsimp only
    have hNonneg : (fd : Int) ≥ 0 := by omega
    by_cases hBytes : received.result > 0
    · rw [if_pos ⟨hBytes, hNonneg⟩]
      cases pushFails with
      | true => exact ⟨[], (List.append_nil fds).symm, .rfl, List.nodup_singleton fd⟩
      | false => exact ⟨[fd], rfl, .rfl, List.nodup_singleton fd⟩
    · rw [h.withData (by omega)] at hOne
      cases hOne
  · rw [hResult]
    refine ⟨⟨fun hSome => absurd rfl hSome, fun hBoth => absurd hBoth hOther⟩, fun hSome => absurd rfl hSome,
      fun _ => ⟨.rfl, hFresh⟩, [], ?_⟩
    rw [recvWithFds, hResult, List.append_nil, List.nil_append]
    cases error with
    | none =>
      dsimp only
      rw [if_neg fun hBoth => absurd hBoth.2 (by decide)]
      exact ⟨rfl, .rfl, hFresh⟩
    | invalidAncillary => exact ⟨rfl, .rfl, hFresh⟩

def twoRights : Received where
  result := 1
  controlLength := 88
  messages := [⟨1, 2, 28, [7, 8, 9]⟩, ⟨1, 1, 20, [4]⟩, ⟨1, 1, 24, [5, 6]⟩]
  truncated := true

theorem twoRights_returnable : Returnable twoRights where
  layout := by decide
  headers := by decide
  rights := by decide
  total := by decide
  fresh := by decide
  withData := by decide

theorem descriptors_conserved_twoRights : (receive twoRights).1.receivedFd = -1 ∧
    ∃ owned, (recvWithFds twoRights [3] false).fds = [3] ++ owned ∧
      (owned ++ (recvWithFds twoRights [3] false).closed).Perm [4, 5, 6] := by
  obtain ⟨-, -, -, owned, hFds, hPerm, -⟩ := descriptors_conserved twoRights twoRights_returnable [3] false
  exact ⟨by decide, owned, hFds, hPerm⟩

end EasyUds.Platform.DescriptorPassing

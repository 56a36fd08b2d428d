import EasyUds.Protocol.Codec

/-! # Gathered writes

The bookkeeping of `write_iovecs_exact` between two send calls: a list of parts is what is still
to be sent, and a send call that accepts `count` bytes takes them from the front. `write_exact`
is the same over a single buffer.
-/

namespace EasyUds.Transport.Io

open Protocol.Codec

/-- `while (first < part_count && parts[first].iov_len == 0) ++first`. -/
def skipEmpty : List (List UInt8) → List (List UInt8)
  | [] => []
  | part :: rest => if part.length = 0 then skipEmpty rest else part :: rest

/-- The parts after a send call has accepted `count` bytes: whole parts are passed, the next one
is trimmed. -/
def advance : List (List UInt8) → Nat → List (List UInt8)
  | [], _ => []
  | part :: rest, count =>
    if part.length ≤ count then advance rest (count - part.length)
    else part.drop count :: rest

theorem skipEmpty_flatten (parts : List (List UInt8)) : (skipEmpty parts).flatten = parts.flatten := by
  induction parts with
  | nil => rfl
  | cons part rest ih =>
    rw [skipEmpty]
    split
    · rename_i hEmpty
      rw [ih, List.length_eq_zero_iff.mp hEmpty]
      rfl
    · rfl

theorem advance_flatten (parts : List (List UInt8)) (count : Nat) :
    (advance parts count).flatten = parts.flatten.drop count := by
  induction parts generalizing count with
  | nil => simp [advance]
  | cons part rest ih =>
    rw [advance]
    split
    · rename_i hWhole
      rw [ih, List.flatten_cons, List.drop_append, List.drop_eq_nil_of_le hWhole, List.nil_append]
    · rename_i hPart
      rw [List.flatten_cons, List.flatten_cons, List.drop_append_of_le_length (by omega)]

theorem skipEmpty_eq_nil {parts : List (List UInt8)} : skipEmpty parts = [] ↔ parts.flatten = [] := by
  induction parts with
  | nil => simp [skipEmpty]
  | cons part rest ih =>
    rw [skipEmpty]
    split
    · rename_i hEmpty
      rw [ih, List.length_eq_zero_iff.mp hEmpty]
      rfl
    · rename_i hPart
      have hNe : part ≠ [] := fun h => hPart (by simp [h])
      simp [hNe]

def requestParts (requestId : UInt32) (route body : List UInt8) (wireVersion : UInt8) :
    List (List UInt8) :=
  [encodeHeader .request requestId (UInt32.ofNat route.length) (UInt32.ofNat body.length) 0 wireVersion,
    route, body]

def requestFrame (requestId : UInt32) (route body : List UInt8) (wireVersion : UInt8) : List UInt8 :=
  (requestParts requestId route body wireVersion).flatten

def cancelFrame (requestId : UInt32) (wireVersion : UInt8) : List UInt8 :=
  encodeHeader .cancelRequest requestId 0 0 0 wireVersion

theorem requestFrame_ne_nil (requestId : UInt32) (route body : List UInt8) (wireVersion : UInt8) :
    requestFrame requestId route body wireVersion ≠ [] := by
  intro hNil
  have hLength := congrArg List.length hNil
  simp [requestFrame, requestParts, encodeHeader_length, headerSize] at hLength

theorem cancelFrame_ne_nil (requestId : UInt32) (wireVersion : UInt8) :
    cancelFrame requestId wireVersion ≠ [] := by
  intro hNil
  have hLength := congrArg List.length hNil
  simp [cancelFrame, encodeHeader_length, headerSize] at hLength

end EasyUds.Transport.Io

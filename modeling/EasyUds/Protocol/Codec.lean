import Mathlib.Data.UInt
import Mathlib.Data.List.Basic

/-! # The wire header of protocol versions 2 and 3

Every message begins with a fixed 20-byte big-endian header (`protocol/codec.hpp`). Exceptions
carry the texts of the source; which exception type is thrown matters to the callers only through
the class that it is caught as.
-/

namespace EasyUds.Protocol.Codec

inductive ErrorCode
  | system
  | timeout
  | closed
  | protocol
  | busy
  | tooLarge
  | invalidRequest
  | unavailable
  | cancelled
  deriving DecidableEq, Repr

inductive Exception
  | error (kind : ErrorCode) (message : String)
  | invalidArgument (message : String)
  | lengthError (message : String)
  | runtimeError (message : String)
  deriving DecidableEq, Repr

def magic : List UInt8 := [0x45, 0x55, 0x44, 0x53]
def version : UInt8 := 2
def cancellableVersion : UInt8 := 3
def headerSize : Nat := 20
def headerFieldOffset : Nat := 8
def arg1Offset : Nat := 12
def arg2Offset : Nat := 16
def maxWireField : Nat := 2 ^ 32 - 1

abbrev HeaderBytes := List UInt8

inductive WireType
  | request
  | response
  | streamRequest
  | streamRequestChunk
  | streamRequestEnd
  | streamResponse
  | streamResponseChunk
  | streamResponseEnd
  | cancelRequest
  deriving DecidableEq, Repr

def WireType.toByte : WireType → UInt8
  | .request => 1
  | .response => 2
  | .streamRequest => 3
  | .streamRequestChunk => 4
  | .streamRequestEnd => 5
  | .streamResponse => 6
  | .streamResponseChunk => 7
  | .streamResponseEnd => 8
  | .cancelRequest => 9

def WireType.ofByte (raw : UInt8) : Option WireType :=
  match raw.toNat with
  | 1 => some .request
  | 2 => some .response
  | 3 => some .streamRequest
  | 4 => some .streamRequestChunk
  | 5 => some .streamRequestEnd
  | 6 => some .streamResponse
  | 7 => some .streamResponseChunk
  | 8 => some .streamResponseEnd
  | 9 => some .cancelRequest
  | _ => none

@[simp] theorem WireType.ofByte_toByte (type : WireType) : WireType.ofByte type.toByte = some type := by
  cases type <;> rfl

def carriesFdFlag : UInt16 := 0x0001
def carriesWindowsHandleFlag : UInt16 := 0x0002

structure DecodedHeader where
  type : WireType
  requestId : UInt32
  arg1 : UInt32
  arg2 : UInt32
  flags : UInt16
  version : UInt8
  deriving DecidableEq, Repr

def putU32 (value : UInt32) : List UInt8 :=
  [(value >>> 24).toUInt8, (value >>> 16).toUInt8, (value >>> 8).toUInt8, value.toUInt8]

def word (b0 b1 b2 b3 : UInt8) : UInt32 :=
  (b0.toUInt32 <<< 24) ||| (b1.toUInt32 <<< 16) ||| (b2.toUInt32 <<< 8) ||| b3.toUInt32

def byteAt (header : HeaderBytes) (offset : Nat) : UInt8 := header.getD offset 0

def getU32 (header : HeaderBytes) (offset : Nat) : UInt32 :=
  word (byteAt header offset) (byteAt header (offset + 1)) (byteAt header (offset + 2))
    (byteAt header (offset + 3))

theorem shiftLeft_mod (b : UInt8) (k : Nat) (hk : k ≤ 24) : b.toNat <<< k % 2 ^ 32 = b.toNat <<< k := by
  apply Nat.mod_eq_of_lt
  rw [Nat.shiftLeft_eq]
  have hByte : b.toNat ≤ 255 := Nat.le_of_lt_succ b.toNat_lt
  have hPow : 2 ^ k ≤ 2 ^ 24 := Nat.pow_le_pow_right (by decide) hk
  exact Nat.lt_of_le_of_lt (Nat.mul_le_mul hByte hPow) (by decide)

theorem word_toNat (b0 b1 b2 b3 : UInt8) : (word b0 b1 b2 b3).toNat =
    b0.toNat * 2 ^ 24 + (b1.toNat * 2 ^ 16 + (b2.toNat * 2 ^ 8 + b3.toNat)) := by
  have h1 := b1.toNat_lt
  have h2 := b2.toNat_lt
  have h3 := b3.toNat_lt
  have hLow : b2.toNat <<< 8 ||| b3.toNat = b2.toNat * 2 ^ 8 + b3.toNat := by
    rw [← Nat.shiftLeft_add_eq_or_of_lt h3, Nat.shiftLeft_eq]
  have hMid : b1.toNat <<< 16 ||| (b2.toNat * 2 ^ 8 + b3.toNat) =
      b1.toNat * 2 ^ 16 + (b2.toNat * 2 ^ 8 + b3.toNat) := by
    rw [← Nat.shiftLeft_add_eq_or_of_lt (by omega), Nat.shiftLeft_eq]
  have hHigh : b0.toNat <<< 24 ||| (b1.toNat * 2 ^ 16 + (b2.toNat * 2 ^ 8 + b3.toNat)) =
      b0.toNat * 2 ^ 24 + (b1.toNat * 2 ^ 16 + (b2.toNat * 2 ^ 8 + b3.toNat)) := by
    rw [← Nat.shiftLeft_add_eq_or_of_lt (by omega), Nat.shiftLeft_eq]
  have hWord : (word b0 b1 b2 b3).toNat =
      ((b0.toNat <<< 24 % 2 ^ 32 ||| b1.toNat <<< 16 % 2 ^ 32) ||| b2.toNat <<< 8 % 2 ^ 32) ||| b3.toNat := by
    simp only [word, UInt32.toNat_or, UInt32.toNat_shiftLeft, UInt8.toNat_toUInt32]
    rfl
  rw [hWord, shiftLeft_mod b0 24 le_rfl, shiftLeft_mod b1 16 (by decide), shiftLeft_mod b2 8 (by decide),
    Nat.or_assoc, Nat.or_assoc, hLow, hMid, hHigh]

theorem word_putU32 (value : UInt32) :
    word (value >>> 24).toUInt8 (value >>> 16).toUInt8 (value >>> 8).toUInt8 value.toUInt8 = value := by
  apply UInt32.toNat_inj.mp
  rw [word_toNat]
  have hValue := value.toNat_lt
  have h24 : (value >>> 24).toUInt8.toNat = value.toNat / 2 ^ 24 % 256 := by
    rw [UInt32.toNat_toUInt8, UInt32.toNat_shiftRight, Nat.shiftRight_eq_div_pow]
    rfl
  have h16 : (value >>> 16).toUInt8.toNat = value.toNat / 2 ^ 16 % 256 := by
    rw [UInt32.toNat_toUInt8, UInt32.toNat_shiftRight, Nat.shiftRight_eq_div_pow]
    rfl
  have h8 : (value >>> 8).toUInt8.toNat = value.toNat / 2 ^ 8 % 256 := by
    rw [UInt32.toNat_toUInt8, UInt32.toNat_shiftRight, Nat.shiftRight_eq_div_pow]
    rfl
  have h0 : value.toUInt8.toNat = value.toNat % 256 := UInt32.toNat_toUInt8 value
  omega

def encodeHeader (type : WireType) (requestId arg1 arg2 : UInt32) (flags : UInt16)
    (wireVersion : UInt8) : HeaderBytes :=
  magic ++ [wireVersion, type.toByte, (flags >>> 8).toUInt8, flags.toUInt8] ++ putU32 requestId ++
    putU32 arg1 ++ putU32 arg2

@[simp] theorem encodeHeader_length (type : WireType) (requestId arg1 arg2 : UInt32) (flags : UInt16)
    (wireVersion : UInt8) :
    (encodeHeader type requestId arg1 arg2 flags wireVersion).length = headerSize := rfl

def decodeHeader (header : HeaderBytes) : Except Exception DecodedHeader :=
  if header.take 4 ≠ magic then .error (.error .protocol "invalid protocol magic")
  else if byteAt header 4 ≠ version ∧ byteAt header 4 ≠ cancellableVersion then
    .error (.error .protocol "unsupported protocol version")
  else
    let flags : UInt16 := ((byteAt header 6).toUInt16 <<< 8) ||| (byteAt header 7).toUInt16
    if flags &&& ~~~(carriesFdFlag ||| carriesWindowsHandleFlag) ≠ 0 then
      .error (.error .protocol "unsupported protocol flags")
    else
      match WireType.ofByte (byteAt header 5) with
      | none => .error (.error .protocol "unknown protocol message type")
      | some type =>
        let requestId := getU32 header headerFieldOffset
        if flags &&& carriesFdFlag ≠ 0 ∧
            (type ≠ .request ∨ requestId ≠ 0 ∨ flags &&& carriesWindowsHandleFlag ≠ 0) then
          .error (.error .protocol "descriptor flag is only valid on one-shot fixed requests")
        else if flags &&& carriesWindowsHandleFlag ≠ 0 ∧ (type ≠ .request ∨ requestId ≠ 0) then
          .error (.error .protocol "Windows handle flag is only valid on one-shot fixed requests")
        else if type = .cancelRequest ∧ (byteAt header 4 ≠ cancellableVersion ∨ requestId = 0 ∨
            flags ≠ 0 ∨ getU32 header arg1Offset ≠ 0 ∨ getU32 header arg2Offset ≠ 0) then
          .error (.error .protocol "invalid cancellation frame")
        else
          .ok { type, requestId, arg1 := getU32 header arg1Offset, arg2 := getU32 header arg2Offset,
                flags, version := byteAt header 4 }

/-- `validate_request_lengths`; the sizes are those of the caller, before any cast to 32 bits. -/
def validateRequestLengths (routeSize bodySize maxMessageSize : Nat) : Except Exception Unit :=
  if routeSize = 0 then .error (.invalidArgument "route must not be empty")
  else if routeSize > maxWireField ∨ bodySize > maxWireField ∨ routeSize > maxMessageSize ∨
      bodySize > maxMessageSize - routeSize then
    .error (.lengthError "request exceeds max_message_size")
  else .ok ()

theorem validateRequestLengths_ok {routeSize bodySize maxMessageSize : Nat} :
    validateRequestLengths routeSize bodySize maxMessageSize = .ok () ↔
      0 < routeSize ∧ routeSize ≤ maxWireField ∧ bodySize ≤ maxWireField ∧
        routeSize + bodySize ≤ maxMessageSize := by
  unfold validateRequestLengths
  split
  · simp only [reduceCtorEq, false_iff]
    omega
  · split
    · simp only [reduceCtorEq, false_iff]
      omega
    · simp only [true_iff]
      omega

section Decode

variable (type : WireType) (requestId arg1 arg2 : UInt32) (wireVersion : UInt8)

theorem encodeHeader_bytes : encodeHeader type requestId arg1 arg2 0 wireVersion =
    [0x45, 0x55, 0x44, 0x53, wireVersion, type.toByte, 0, 0,
      (requestId >>> 24).toUInt8, (requestId >>> 16).toUInt8, (requestId >>> 8).toUInt8, requestId.toUInt8,
      (arg1 >>> 24).toUInt8, (arg1 >>> 16).toUInt8, (arg1 >>> 8).toUInt8, arg1.toUInt8,
      (arg2 >>> 24).toUInt8, (arg2 >>> 16).toUInt8, (arg2 >>> 8).toUInt8, arg2.toUInt8] := rfl

/-- A header without resource flags decodes to its fields, unless it is a malformed cancellation. -/
theorem decodeHeader_encodeHeader (hVersion : wireVersion = version ∨ wireVersion = cancellableVersion)
    (hCancel : type = .cancelRequest →
      wireVersion = cancellableVersion ∧ requestId ≠ 0 ∧ arg1 = 0 ∧ arg2 = 0) :
    decodeHeader (encodeHeader type requestId arg1 arg2 0 wireVersion) =
      .ok { type, requestId, arg1, arg2, flags := 0, version := wireVersion } := by
  rw [encodeHeader_bytes]
  have hFlags : ((0 : UInt8).toUInt16 <<< 8 ||| (0 : UInt8).toUInt16) = 0 := by decide
  have hMask : (0 : UInt16) &&& ~~~(carriesFdFlag ||| carriesWindowsHandleFlag) = 0 := by decide
  have hFd : (0 : UInt16) &&& carriesFdFlag = 0 := by decide
  have hHandle : (0 : UInt16) &&& carriesWindowsHandleFlag = 0 := by decide
  have hKnown : ¬ (wireVersion ≠ version ∧ wireVersion ≠ cancellableVersion) := by
    rintro ⟨h2, h3⟩
    exact hVersion.elim h2 h3
  have hValid : ¬ (type = .cancelRequest ∧ (wireVersion ≠ cancellableVersion ∨ requestId = 0 ∨
      (0 : UInt16) ≠ 0 ∨ arg1 ≠ 0 ∨ arg2 ≠ 0)) := by
    rintro ⟨hType, hBad⟩
    obtain ⟨h3, hId, h1, h2⟩ := hCancel hType
    simp [h3, hId, h1, h2] at hBad
  simp only [decodeHeader, magic, byteAt, getU32, headerFieldOffset, arg1Offset, arg2Offset, List.take,
    List.getD_cons_succ, List.getD_cons_zero, word_putU32, hFlags, hMask, hFd, hHandle, ne_eq,
    not_true_eq_false, if_false, false_and, WireType.ofByte_toByte]
  rw [if_neg hKnown, if_neg (by simpa using hValid)]

theorem decodeHeader_carriesFd (hVersion : wireVersion = version ∨ wireVersion = cancellableVersion) :
    decodeHeader (encodeHeader .request 0 arg1 arg2 carriesFdFlag wireVersion) =
      .ok { type := .request, requestId := 0, arg1, arg2, flags := carriesFdFlag, version := wireVersion } := by
  have hBytes : encodeHeader .request 0 arg1 arg2 carriesFdFlag wireVersion =
      [0x45, 0x55, 0x44, 0x53, wireVersion, WireType.request.toByte, 0, 1, 0, 0, 0, 0,
        (arg1 >>> 24).toUInt8, (arg1 >>> 16).toUInt8, (arg1 >>> 8).toUInt8, arg1.toUInt8,
        (arg2 >>> 24).toUInt8, (arg2 >>> 16).toUInt8, (arg2 >>> 8).toUInt8, arg2.toUInt8] := rfl
  have hFlags : ((0 : UInt8).toUInt16 <<< 8 ||| (1 : UInt8).toUInt16) = carriesFdFlag := by decide
  have hMask : carriesFdFlag &&& ~~~(carriesFdFlag ||| carriesWindowsHandleFlag) = 0 := by decide
  have hHandle : carriesFdFlag &&& carriesWindowsHandleFlag = 0 := by decide
  have hOneShot : word 0 0 0 0 = 0 := by decide
  have hKnown : ¬ (wireVersion ≠ version ∧ wireVersion ≠ cancellableVersion) := by
    rintro ⟨h2, h3⟩
    exact hVersion.elim h2 h3
  rw [hBytes]
  simp only [decodeHeader, magic, byteAt, getU32, headerFieldOffset, arg1Offset, arg2Offset, List.take,
    List.getD_cons_succ, List.getD_cons_zero, word_putU32, hFlags, hMask, hHandle, hOneShot, ne_eq,
    not_true_eq_false, if_false, false_and, WireType.ofByte_toByte]
  rw [if_neg hKnown]
  simp

end Decode

end EasyUds.Protocol.Codec

import EasyUds.Protocol.Codec

/-! # The grammar of the wire header

`decode_header` accepts exactly the headers of the grammar below, and on those it inverts
`encode_header`. The grammar speaks about the fields of a header, so that it can be asked of the bytes
that arrive and of the values that are about to be sent.
-/

namespace EasyUds.Protocol.Grammar

open Protocol.Codec

def flagsAt (header : HeaderBytes) : UInt16 :=
  ((byteAt header 6).toUInt16 <<< 8) ||| (byteAt header 7).toUInt16

def flagBit (flags : UInt16) (bit : Nat) : Bool := flags.toNat.testBit bit

/-- What the header table and the rules below it allow, over the raw type byte. -/
structure WellFormed (wireVersion rawType : UInt8) (flags : UInt16) (requestId arg1 arg2 : UInt32) : Prop where
  version : wireVersion = 2 ∨ wireVersion = 3
  type : 1 ≤ rawType.toNat ∧ rawType.toNat ≤ 9
  knownFlags : ∀ bit, flagBit flags bit = true → bit = 0 ∨ bit = 1
  oneFlag : ¬ (flagBit flags 0 = true ∧ flagBit flags 1 = true)
  oneShot : flags ≠ 0 → rawType = 1 ∧ requestId = 0
  cancellation : rawType = 9 → wireVersion = 3 ∧ requestId ≠ 0 ∧ flags = 0 ∧ arg1 = 0 ∧ arg2 = 0

def HeaderWellFormed (header : HeaderBytes) : Prop :=
  header.take 4 = magic ∧ WellFormed (byteAt header 4) (byteAt header 5) (flagsAt header)
    (getU32 header headerFieldOffset) (getU32 header arg1Offset) (getU32 header arg2Offset)

theorem and_eq_zero (flags mask : UInt16) :
    flags &&& mask = 0 ↔ ∀ bit, flagBit flags bit = true → flagBit mask bit = false := by
  rw [← UInt16.toNat_inj, UInt16.toNat_and]
  constructor
  · intro hZero bit hBit
    have hAnd := congrArg (·.testBit bit) hZero
    simp only [flagBit] at hBit ⊢
    simpa [Nat.testBit_and, hBit] using hAnd
  · intro hBits
    refine Nat.eq_of_testBit_eq fun bit => ?_
    rw [Nat.testBit_and]
    cases hBit : flags.toNat.testBit bit with
    | false => simp
    | true =>
      have hMask := hBits bit hBit
      simp only [flagBit] at hMask
      simp [hMask]

theorem flagBit_lt {flags : UInt16} {bit : Nat} (h : flagBit flags bit = true) : bit < 16 := by
  by_contra hLarge
  have hBound : flags.toNat < 2 ^ bit :=
    Nat.lt_of_lt_of_le flags.toNat_lt (Nat.pow_le_pow_right (by decide) (by omega))
  rw [flagBit, Nat.testBit_lt_two_pow hBound] at h
  cases h

theorem no_other_flag (flags : UInt16) :
    flags &&& ~~~(carriesFdFlag ||| carriesWindowsHandleFlag) = 0 ↔
      ∀ bit, flagBit flags bit = true → bit = 0 ∨ bit = 1 := by
  have hMask : ∀ bit, bit < 16 →
      (flagBit (~~~(carriesFdFlag ||| carriesWindowsHandleFlag)) bit = false ↔ bit = 0 ∨ bit = 1) := by
    decide
  rw [and_eq_zero]
  constructor
  · intro h bit hBit
    exact (hMask bit (flagBit_lt hBit)).mp (h bit hBit)
  · intro h bit hBit
    exact (hMask bit (flagBit_lt hBit)).mpr (h bit hBit)

theorem flag_of_mask {mask : UInt16} {only : Nat} (hOnly : only < 16)
    (hMask : ∀ bit, bit < 16 → (flagBit mask bit = false ↔ bit ≠ only)) (flags : UInt16) :
    flags &&& mask ≠ 0 ↔ flagBit flags only = true := by
  rw [ne_eq, and_eq_zero]
  constructor
  · intro h
    by_contra hClear
    refine h fun bit hBit => (hMask bit (flagBit_lt hBit)).mpr ?_
    rintro rfl
    exact hClear hBit
  · intro hBit h
    exact (hMask only hOnly).mp (h only hBit) rfl

theorem fd_flag (flags : UInt16) : flags &&& carriesFdFlag ≠ 0 ↔ flagBit flags 0 = true :=
  flag_of_mask (by decide) (by decide) flags

theorem handle_flag (flags : UInt16) : flags &&& carriesWindowsHandleFlag ≠ 0 ↔ flagBit flags 1 = true :=
  flag_of_mask (by decide) (by decide) flags

theorem exists_flag {flags : UInt16} (h : flags ≠ 0) : ∃ bit, flagBit flags bit = true := by
  by_contra hNone
  apply h
  rw [← UInt16.toNat_inj]
  refine Nat.eq_of_testBit_eq fun bit => ?_
  cases hBit : flags.toNat.testBit bit with
  | false => exact (Nat.zero_testBit bit).symm
  | true => exact absurd ⟨bit, hBit⟩ hNone

theorem flags_toNat (high low : UInt8) :
    (high.toUInt16 <<< 8 ||| low.toUInt16).toNat = high.toNat * 2 ^ 8 + low.toNat := by
  have hHigh := high.toNat_lt
  have hShift : high.toNat <<< 8 % 2 ^ 16 = high.toNat <<< 8 := by
    rw [Nat.shiftLeft_eq]
    omega
  have hFlags : (high.toUInt16 <<< 8 ||| low.toUInt16).toNat = high.toNat <<< 8 % 2 ^ 16 ||| low.toNat := by
    simp only [UInt16.toNat_or, UInt16.toNat_shiftLeft, UInt8.toNat_toUInt16]
    rfl
  rw [hFlags, hShift, ← Nat.shiftLeft_add_eq_or_of_lt low.toNat_lt, Nat.shiftLeft_eq]

theorem high_toNat (flags : UInt16) : (flags >>> 8).toUInt8.toNat = flags.toNat / 2 ^ 8 % 256 := by
  rw [UInt16.toNat_toUInt8, UInt16.toNat_shiftRight, Nat.shiftRight_eq_div_pow]
  rfl

theorem low_toNat (flags : UInt16) : flags.toUInt8.toNat = flags.toNat % 256 := UInt16.toNat_toUInt8 flags

theorem flags_of_bytes (flags : UInt16) :
    (flags >>> 8).toUInt8.toUInt16 <<< 8 ||| flags.toUInt8.toUInt16 = flags := by
  apply UInt16.toNat_inj.mp
  have hFlags := flags.toNat_lt
  rw [flags_toNat, high_toNat, low_toNat]
  omega

theorem bytes_of_flags (high low : UInt8) :
    ((high.toUInt16 <<< 8 ||| low.toUInt16) >>> 8).toUInt8 = high ∧
      (high.toUInt16 <<< 8 ||| low.toUInt16).toUInt8 = low := by
  have hHigh := high.toNat_lt
  have hLow := low.toNat_lt
  constructor
  · apply UInt8.toNat_inj.mp
    rw [high_toNat, flags_toNat]
    omega
  · apply UInt8.toNat_inj.mp
    rw [low_toNat, flags_toNat]
    omega

theorem toByte_of_ofByte {raw : UInt8} {type : WireType} (h : WireType.ofByte raw = some type) :
    type.toByte = raw := by
  unfold WireType.ofByte at h
  split at h
  all_goals
    cases h
    try
      rename_i hRaw
      exact UInt8.toNat_inj.mp hRaw.symm

theorem ofByte_isSome (raw : UInt8) :
    (∃ type, WireType.ofByte raw = some type) ↔ 1 ≤ raw.toNat ∧ raw.toNat ≤ 9 := by
  constructor
  · rintro ⟨type, h⟩
    rw [← toByte_of_ofByte h]
    cases type <;> decide
  · intro hRange
    have hOne : raw.toNat = 1 ∨ raw.toNat = 2 ∨ raw.toNat = 3 ∨ raw.toNat = 4 ∨ raw.toNat = 5 ∨
        raw.toNat = 6 ∨ raw.toNat = 7 ∨ raw.toNat = 8 ∨ raw.toNat = 9 := by
      omega
    rcases hOne with h | h | h | h | h | h | h | h | h <;> simp [WireType.ofByte, h]

theorem putU32_word (b0 b1 b2 b3 : UInt8) : putU32 (word b0 b1 b2 b3) = [b0, b1, b2, b3] := by
  have hWord := word_toNat b0 b1 b2 b3
  have h0 := b0.toNat_lt
  have h1 := b1.toNat_lt
  have h2 := b2.toNat_lt
  have h3 := b3.toNat_lt
  have hByte (k : UInt32) (shift : Nat) (hShift : k.toNat % 32 = shift) :
      ((word b0 b1 b2 b3) >>> k).toUInt8.toNat = (word b0 b1 b2 b3).toNat / 2 ^ shift % 256 := by
    rw [UInt32.toNat_toUInt8, UInt32.toNat_shiftRight, Nat.shiftRight_eq_div_pow, hShift]
  have e0 : ((word b0 b1 b2 b3) >>> 24).toUInt8 = b0 := by
    apply UInt8.toNat_inj.mp
    rw [hByte 24 24 rfl]
    omega
  have e1 : ((word b0 b1 b2 b3) >>> 16).toUInt8 = b1 := by
    apply UInt8.toNat_inj.mp
    rw [hByte 16 16 rfl]
    omega
  have e2 : ((word b0 b1 b2 b3) >>> 8).toUInt8 = b2 := by
    apply UInt8.toNat_inj.mp
    rw [hByte 8 8 rfl]
    omega
  have e3 : (word b0 b1 b2 b3).toUInt8 = b3 := by
    apply UInt8.toNat_inj.mp
    rw [UInt32.toNat_toUInt8]
    omega
  rw [putU32, e0, e1, e2, e3]

def fields (header : HeaderBytes) (type : WireType) : DecodedHeader where
  type
  requestId := getU32 header headerFieldOffset
  arg1 := getU32 header arg1Offset
  arg2 := getU32 header arg2Offset
  flags := flagsAt header
  version := byteAt header 4

variable {header : HeaderBytes} {decoded : DecodedHeader} {type : WireType}

theorem request_byte (hType : WireType.ofByte (byteAt header 5) = some type) :
    byteAt header 5 = 1 ↔ type = .request := by
  rw [← toByte_of_ofByte hType]
  cases type <;> decide

theorem cancelRequest_byte (hType : WireType.ofByte (byteAt header 5) = some type) :
    byteAt header 5 = 9 ↔ type = .cancelRequest := by
  rw [← toByte_of_ofByte hType]
  cases type <;> decide

structure Passed (header : HeaderBytes) (type : WireType) : Prop where
  descriptor : ¬ (flagsAt header &&& carriesFdFlag ≠ 0 ∧ (type ≠ .request ∨
    getU32 header headerFieldOffset ≠ 0 ∨ flagsAt header &&& carriesWindowsHandleFlag ≠ 0))
  handle : ¬ (flagsAt header &&& carriesWindowsHandleFlag ≠ 0 ∧
    (type ≠ .request ∨ getU32 header headerFieldOffset ≠ 0))
  cancellation : ¬ (type = .cancelRequest ∧ (byteAt header 4 ≠ cancellableVersion ∨
    getU32 header headerFieldOffset = 0 ∨ flagsAt header ≠ 0 ∨ getU32 header arg1Offset ≠ 0 ∨
    getU32 header arg2Offset ≠ 0))

theorem Passed.oneShot (h : Passed header type)
    (hKnown : ∀ bit, flagBit (flagsAt header) bit = true → bit = 0 ∨ bit = 1) (hSet : flagsAt header ≠ 0) :
    type = .request ∧ getU32 header headerFieldOffset = 0 := by
  obtain ⟨bit, hBit⟩ := exists_flag hSet
  rcases hKnown bit hBit with rfl | rfl
  · have hFd := (fd_flag _).mpr hBit
    constructor
    · by_contra hType
      exact h.descriptor ⟨hFd, .inl hType⟩
    · by_contra hId
      exact h.descriptor ⟨hFd, .inr (.inl hId)⟩
  · have hHandle := (handle_flag _).mpr hBit
    constructor
    · by_contra hType
      exact h.handle ⟨hHandle, .inl hType⟩
    · by_contra hId
      exact h.handle ⟨hHandle, .inr hId⟩

theorem Passed.wellFormed (h : Passed header type) (hType : WireType.ofByte (byteAt header 5) = some type)
    (hVersion : ¬ (byteAt header 4 ≠ version ∧ byteAt header 4 ≠ cancellableVersion))
    (hKnown : ∀ bit, flagBit (flagsAt header) bit = true → bit = 0 ∨ bit = 1) :
    WellFormed (byteAt header 4) (byteAt header 5) (flagsAt header) (getU32 header headerFieldOffset)
      (getU32 header arg1Offset) (getU32 header arg2Offset) where
  version := by
    by_contra hOther
    exact hVersion (not_or.mp hOther)
  type := (ofByte_isSome _).mp ⟨type, hType⟩
  knownFlags := hKnown
  oneFlag := by
    rintro ⟨hFd, hHandle⟩
    exact h.descriptor ⟨(fd_flag _).mpr hFd, .inr (.inr ((handle_flag _).mpr hHandle))⟩
  oneShot hSet := by
    obtain ⟨hRequest, hId⟩ := h.oneShot hKnown hSet
    exact ⟨(request_byte hType).mpr hRequest, hId⟩
  cancellation hCancel := by
    have hRest := h.cancellation
    simp only [(cancelRequest_byte hType).mp hCancel, true_and, not_or, not_not] at hRest
    exact hRest

theorem WellFormed.passed (h : WellFormed (byteAt header 4) (byteAt header 5) (flagsAt header)
      (getU32 header headerFieldOffset) (getU32 header arg1Offset) (getU32 header arg2Offset))
    (hType : WireType.ofByte (byteAt header 5) = some type) : Passed header type where
  descriptor := by
    rintro ⟨hFd, hBad⟩
    have hSet : flagsAt header ≠ 0 := by
      intro hZero
      rw [hZero] at hFd
      exact hFd (by decide)
    obtain ⟨hRequest, hId⟩ := h.oneShot hSet
    rcases hBad with hOther | hOther | hHandle
    · exact hOther ((request_byte hType).mp hRequest)
    · exact hOther hId
    · exact h.oneFlag ⟨(fd_flag _).mp hFd, (handle_flag _).mp hHandle⟩
  handle := by
    rintro ⟨hHandle, hBad⟩
    have hSet : flagsAt header ≠ 0 := by
      intro hZero
      rw [hZero] at hHandle
      exact hHandle (by decide)
    obtain ⟨hRequest, hId⟩ := h.oneShot hSet
    rcases hBad with hOther | hOther
    · exact hOther ((request_byte hType).mp hRequest)
    · exact hOther hId
  cancellation := by
    rintro ⟨hCancel, hBad⟩
    obtain ⟨hVersion, hId, hFlags, hFirst, hSecond⟩ := h.cancellation ((cancelRequest_byte hType).mpr hCancel)
    rcases hBad with hOther | hOther | hOther | hOther | hOther
    · exact hOther hVersion
    · exact hId hOther
    · exact hOther hFlags
    · exact hOther hFirst
    · exact hOther hSecond

/-- Either a header is rejected with a protocol error, or it is well formed and decodes to its fields. -/
theorem decodeHeader_cases (header : HeaderBytes) :
    (∃ message, decodeHeader header = .error (.error .protocol message) ∧ ¬ HeaderWellFormed header) ∨
      HeaderWellFormed header ∧ ∃ type, WireType.ofByte (byteAt header 5) = some type ∧
        decodeHeader header = .ok (fields header type) := by
  unfold decodeHeader
  split
  · rename_i hMagic
    exact .inl ⟨_, rfl, fun h => hMagic h.1⟩
  rename_i hMagic
  split
  · rename_i hVersion
    exact .inl ⟨_, rfl, fun h => h.2.version.elim hVersion.1 hVersion.2⟩
  rename_i hVersion
  dsimp only
  split
  · rename_i hOther
    exact .inl ⟨_, rfl, fun h => hOther ((no_other_flag _).mpr h.2.knownFlags)⟩
  rename_i hKnown
  split
  · rename_i hType
    refine .inl ⟨_, rfl, fun h => ?_⟩
    obtain ⟨type, hSome⟩ := (ofByte_isSome _).mpr h.2.type
    rw [hSome] at hType
    cases hType
  rename_i type hType
  split
  · rename_i hBad
    exact .inl ⟨_, rfl, fun h => (h.2.passed hType).descriptor hBad⟩
  rename_i hDescriptor
  split
  · rename_i hBad
    exact .inl ⟨_, rfl, fun h => (h.2.passed hType).handle hBad⟩
  rename_i hHandle
  split
  · rename_i hBad
    exact .inl ⟨_, rfl, fun h => (h.2.passed hType).cancellation hBad⟩
  rename_i hCancel
  have hPassed : Passed header type := ⟨hDescriptor, hHandle, hCancel⟩
  have hFlags := (no_other_flag _).mp (not_not.mp hKnown)
  exact .inr ⟨⟨not_not.mp hMagic, hPassed.wellFormed hType hVersion hFlags⟩, type, hType, rfl⟩

theorem header_bytes (hLength : header.length = headerSize) (hMagic : header.take 4 = magic) :
    header = magic ++ [byteAt header 4, byteAt header 5, byteAt header 6, byteAt header 7] ++
      [byteAt header 8, byteAt header 9, byteAt header 10, byteAt header 11] ++
      [byteAt header 12, byteAt header 13, byteAt header 14, byteAt header 15] ++
      [byteAt header 16, byteAt header 17, byteAt header 18, byteAt header 19] := by
  rw [← hMagic]
  match header, hLength with
  | [_, _, _, _, _, _, _, _, _, _, _, _, _, _, _, _, _, _, _, _], _ => rfl

theorem encodeHeader_fields (hLength : header.length = headerSize) (hMagic : header.take 4 = magic)
    (hType : WireType.ofByte (byteAt header 5) = some type) :
    encodeHeader type (getU32 header headerFieldOffset) (getU32 header arg1Offset) (getU32 header arg2Offset)
      (flagsAt header) (byteAt header 4) = header := by
  obtain ⟨hHigh, hLow⟩ := bytes_of_flags (byteAt header 6) (byteAt header 7)
  rw [encodeHeader, getU32, getU32, getU32, putU32_word, putU32_word, putU32_word, toByte_of_ofByte hType,
    flagsAt, hHigh, hLow]
  exact (header_bytes hLength hMagic).symm

section Encoded

variable (type : WireType) (requestId arg1 arg2 : UInt32) (flags : UInt16) (wireVersion : UInt8)

theorem fields_encodeHeader : fields (encodeHeader type requestId arg1 arg2 flags wireVersion) type =
    ⟨type, requestId, arg1, arg2, flags, wireVersion⟩ := by
  have hId : getU32 (encodeHeader type requestId arg1 arg2 flags wireVersion) headerFieldOffset = requestId :=
    word_putU32 requestId
  have hFirst : getU32 (encodeHeader type requestId arg1 arg2 flags wireVersion) arg1Offset = arg1 :=
    word_putU32 arg1
  have hSecond : getU32 (encodeHeader type requestId arg1 arg2 flags wireVersion) arg2Offset = arg2 :=
    word_putU32 arg2
  have hFlags : flagsAt (encodeHeader type requestId arg1 arg2 flags wireVersion) = flags := flags_of_bytes flags
  rw [fields, hId, hFirst, hSecond, hFlags]
  rfl

theorem wellFormed_encodeHeader :
    HeaderWellFormed (encodeHeader type requestId arg1 arg2 flags wireVersion) ↔
      WellFormed wireVersion type.toByte flags requestId arg1 arg2 := by
  have hFields := fields_encodeHeader type requestId arg1 arg2 flags wireVersion
  simp only [fields, DecodedHeader.mk.injEq, true_and] at hFields
  obtain ⟨hId, hFirst, hSecond, hFlags, hVersion⟩ := hFields
  rw [HeaderWellFormed, hId, hFirst, hSecond, hFlags, hVersion]
  exact and_iff_right rfl

end Encoded

/-- On 20 bytes, `decode_header` succeeds exactly on the grammar and `encode_header` of what it returns
gives the bytes back; and the encoding of any values decodes to these values if they keep to the
grammar, and is refused if they do not. -/
theorem header_codec (header : HeaderBytes) (hLength : header.length = headerSize) (type : WireType)
    (requestId arg1 arg2 : UInt32) (flags : UInt16) (wireVersion : UInt8) :
    ((∃ decoded, decodeHeader header = .ok decoded) ↔ HeaderWellFormed header) ∧
    (∀ decoded, decodeHeader header = .ok decoded → encodeHeader decoded.type decoded.requestId decoded.arg1
      decoded.arg2 decoded.flags decoded.version = header) ∧
    (WellFormed wireVersion type.toByte flags requestId arg1 arg2 →
      decodeHeader (encodeHeader type requestId arg1 arg2 flags wireVersion) =
        .ok ⟨type, requestId, arg1, arg2, flags, wireVersion⟩) ∧
    (¬ WellFormed wireVersion type.toByte flags requestId arg1 arg2 →
      ∃ message, decodeHeader (encodeHeader type requestId arg1 arg2 flags wireVersion) =
        .error (.error .protocol message)) := by
  refine ⟨?_, ?_, ?_, ?_⟩
  · rcases decodeHeader_cases header with ⟨message, hError, hBad⟩ | ⟨hForm, decodedType, -, hOk⟩
    · constructor
      · rintro ⟨decoded, hOk⟩
        rw [hError] at hOk
        cases hOk
      · intro hForm
        exact absurd hForm hBad
    · exact ⟨fun _ => hForm, fun _ => ⟨_, hOk⟩⟩
  · intro decoded hDecoded
    rcases decodeHeader_cases header with ⟨message, hError, -⟩ | ⟨hForm, decodedType, hType, hOk⟩
    · rw [hError] at hDecoded
      cases hDecoded
    · rw [hOk] at hDecoded
      cases hDecoded
      exact encodeHeader_fields hLength hForm.1 hType
  · intro hForm
    rcases decodeHeader_cases (encodeHeader type requestId arg1 arg2 flags wireVersion) with
      ⟨message, -, hBad⟩ | ⟨-, decodedType, hType, hOk⟩
    · exact absurd ((wellFormed_encodeHeader ..).mpr hForm) hBad
    · have hSame : WireType.ofByte type.toByte = some decodedType := hType
      rw [WireType.ofByte_toByte] at hSame
      cases hSame
      rw [hOk, fields_encodeHeader]
  · intro hBad
    rcases decodeHeader_cases (encodeHeader type requestId arg1 arg2 flags wireVersion) with
      ⟨message, hError, -⟩ | ⟨hForm, -⟩
    · exact ⟨message, hError⟩
    · exact absurd ((wellFormed_encodeHeader ..).mp hForm) hBad

/-- A cancellation of version 3, and the same fields under version 2. -/
theorem header_codec_cancellation :
    let header := encodeHeader .cancelRequest 7 0 0 0 cancellableVersion
    HeaderWellFormed header ∧ decodeHeader header = .ok ⟨.cancelRequest, 7, 0, 0, 0, 3⟩ ∧
      ∃ message, decodeHeader (encodeHeader .cancelRequest 7 0 0 0 version) = .error (.error .protocol message) := by
  have hNoFlag (bit : Nat) (hBit : flagBit 0 bit = true) : bit = 0 ∨ bit = 1 := by
    rw [flagBit, UInt16.toNat_zero, Nat.zero_testBit] at hBit
    cases hBit
  have hForm : WellFormed 3 9 0 7 0 0 :=
    ⟨.inr rfl, by decide, hNoFlag, by decide, fun hSet => absurd rfl hSet, fun _ => by decide⟩
  obtain ⟨hAccepts, -, hDecodes, -⟩ :=
    header_codec (encodeHeader .cancelRequest 7 0 0 0 cancellableVersion) rfl .cancelRequest 7 0 0 0 3
  have hOk := hDecodes hForm
  refine ⟨hAccepts.mp ⟨_, hOk⟩, hOk, ?_⟩
  refine (header_codec (encodeHeader .cancelRequest 7 0 0 0 version) rfl .cancelRequest 7 0 0 0 2).2.2.2 ?_
  intro hOld
  exact absurd (hOld.cancellation rfl).1 (by decide)

end EasyUds.Protocol.Grammar

import EasyUds.Reactor.ParserCalls

/-! # The size of the read-ahead

Without an aggregate budget a call of `consume` reads up to a batch before it parses. The buffer is
reused only when all of it is parsed, and so the bytes that a call appends to a rest of an earlier,
paused call come on top of it.
-/

namespace EasyUds.Reactor.ReadAhead

open Lib Protocol.Codec Reactor.Parser Reactor.ParserCalls

/-- The first bytes that a call receives find nothing left over, or all that the peer still sends fits
behind it. -/
def startsEmpty (stream : Stream) (s : State) (action : Action) : Bool :=
  match action, s.call with
  | .receive (.bytes _ _), .reading 0 =>
    s.rc.pendingOffset == s.rc.pending.length ||
      s.rc.pending.length + (stream.length - s.received) ≤ reactorReadBatchSize
  | _, _ => true

structure Inv (stream : Stream) (s : State) : Prop where
  pending : s.rc.pending.length ≤ reactorReadBatchSize
  lent : s.lent.length ≤ reactorReadBatchSize
  reading : ∀ readAhead, s.call = .reading readAhead → readAhead ≠ 0 →
    s.rc.pendingOffset = 0 ∧ s.rc.pending.length = readAhead ∨
      s.rc.pending.length + (stream.length - s.received) ≤ reactorReadBatchSize

variable {opts : Options} {stream : Stream} {s t : State} {action : Action} {answer : Answer}
variable {rc : ReactorConnection} {rest : List UInt8}

theorem Inv.start : Inv stream start := ⟨Nat.zero_le _, Nat.zero_le _, nofun⟩

theorem releaseConsumedPending_id (hStrict : opts.strictBudget = false) (rc : ReactorConnection) :
    releaseConsumedPending opts rc = rc := by
  rw [releaseConsumedPending, hStrict, Bool.false_and]
  exact if_neg Bool.false_ne_true

theorem beginRequestPayload_pending (rc : ReactorConnection) :
    (beginRequestPayload opts answer.reserved rc).1.pending = rc.pending := by
  rw [beginRequestPayload]
  split <;> rfl

theorem beginStreamRoute_pending (rc : ReactorConnection) :
    (beginStreamRoute opts answer.reserved rc).1.pending = rc.pending := by
  rw [beginStreamRoute]
  split <;> rfl

theorem retryBudget_pending (rc : ReactorConnection) :
    (retryBudget opts answer rc).1.pending = rc.pending := by
  rw [retryBudget]
  split
  · exact beginRequestPayload_pending rc
  · exact beginStreamRoute_pending rc
  · rfl

theorem after_started (started : Bool) (rc : ReactorConnection) :
    after (if started then .again rc [] else .stop rc []) = rc := by
  split <;> rfl

theorem wholeHeader_pending (rc : ReactorConnection) :
    (after (wholeHeader opts answer rc)).pending = rc.pending := by
  rw [wholeHeader]
  split
  · rfl
  · dsimp only
    split
    · rfl
    · rfl
    · rw [startRequest, after_started]
      exact beginRequestPayload_pending _
    · rw [startStream, after_started]
      exact beginStreamRoute_pending _

theorem dispatchRequest_pending (rc : ReactorConnection) :
    (after (dispatchRequest answer rc)).pending = rc.pending := by
  rw [dispatchRequest]
  dsimp only
  split <;> rfl

theorem parsePass_pending (answer : Answer) (hStrict : opts.strictBudget = false) (rc : ReactorConnection) :
    (after (parsePass opts answer rc)).pending.length ≤ rc.pending.length := by
  rw [parsePass]
  split
  · rw [headerPass]
    simp only [releaseConsumedPending_id hStrict]
    split
    · exact Nat.le_refl _
    · rw [wholeHeader_pending]
      exact Nat.le_refl _
  · rw [payloadPass]
    simp only [releaseConsumedPending_id hStrict]
    split
    · rw [dispatchRequest_pending]
    · exact Nat.le_refl _
  · rw [streamPass]
    simp only [releaseConsumedPending_id hStrict]
    split
    · rw [dispatchStream]
      dsimp only
      split
      · exact Nat.zero_le _
      · exact Nat.le_refl _
    · exact Nat.le_refl _

theorem Inv.pass (hStrict : opts.strictBudget = false) (hInv : Inv stream s) (hCall : s.call = .parsing) :
    Inv stream (passStep opts answer s) := by
  have hPending := (parsePass_pending answer hStrict s.rc).trans hInv.pending
  have hLent : ((unparsed s.rc).drop (passTake s.rc)).length ≤ reactorReadBatchSize := by
    have hLength := hInv.pending
    rw [List.length_drop, unparsed, List.length_drop]
    omega
  rw [passStep]
  generalize parsePass opts answer s.rc = pass at hPending
  cases pass with
  | again next events =>
    refine ⟨hPending, hInv.lent, fun readAhead hReading => ?_⟩
    cases hCall.symm.trans hReading
  | stop next events =>
    refine ⟨hPending, hLent, fun readAhead hReading => ?_⟩
    simp only [State.land] at hReading
    split at hReading <;> cases hReading
  | threw next error => exact ⟨hPending, hInv.lent, fun _ hCall => by cases hCall⟩

theorem appendPending_used (data : List UInt8) (fd : Option Nat) (h : rc.pendingOffset = rc.pending.length) :
    (appendPending rc data fd).pendingOffset = 0 ∧ (appendPending rc data fd).pending.length = 0 + data.length := by
  rw [appendPending]
  by_cases hZero : rc.pendingOffset = 0
  · have hNone : rc.pending = [] := List.length_eq_zero_iff.mp (h.symm.trans hZero)
    simp [hZero, hNone]
  · simp [← h, hZero]

theorem appendPending_call {readAhead : Nat} (data : List UInt8) (fd : Option Nat) (hOffset : rc.pendingOffset = 0)
    (hLength : rc.pending.length = readAhead) :
    (appendPending rc data fd).pendingOffset = 0 ∧
      (appendPending rc data fd).pending.length = readAhead + data.length := by
  rw [appendPending]
  simp [hOffset, hLength]

theorem appendPending_le (rc : ReactorConnection) (data : List UInt8) (fd : Option Nat) :
    (appendPending rc data fd).pending.length ≤ rc.pending.length + data.length := by
  rw [appendPending]
  split <;> simp

theorem Inv.receive {readAhead : Nat} {receive : Receive} (hStrict : opts.strictBudget = false) (hInv : Inv stream s)
    (hCall : s.call = .reading readAhead) (hGuard : startsEmpty stream s (.receive receive) = true) :
    Inv stream (receiveStep opts stream s readAhead receive) := by
  have hSize : requestSize opts s.rc readAhead ≤ reactorReadBatchSize - readAhead := by
    rw [requestSize, hStrict]
    exact Nat.min_le_right _ _
  have hReads := readPass_reads opts s.rc (bytes stream s.received stream.length) readAhead receive
  rw [receiveStep]
  generalize readPass opts s.rc (bytes stream s.received stream.length) readAhead receive = result at hReads
  cases hReads with
  | nothing _ => exact ⟨hInv.pending, hInv.lent, fun _ hCall => by cases hCall⟩
  | interrupted =>
    refine ⟨hInv.pending, hInv.lent, fun ahead hReading => ?_⟩
    cases hReading
    refine fun hSome => (hInv.reading readAhead hCall hSome).imp_right fun hFits => ?_
    dsimp only
    rw [length_bytes (Nat.le_refl _)]
    omega
  | stopped _ | invalid error => exact ⟨hInv.pending, hInv.lent, fun _ hCall => by cases hCall⟩
  | some count fd data rest hSome hSocket hLess hData =>
    -- At the first bytes of a call the buffer is used up; later ones follow those of the same call.
    have hAppended : (appendPending s.rc data fd).pendingOffset = 0 ∧
        (appendPending s.rc data fd).pending.length = readAhead + data.length ∨
          s.rc.pending.length + (stream.length - s.received) ≤ reactorReadBatchSize := by
      by_cases hFirst : readAhead = 0
      · subst hFirst
        simp only [startsEmpty, hCall, Bool.or_eq_true, beq_iff_eq, decide_eq_true_eq] at hGuard
        exact hGuard.imp_left (appendPending_used data fd)
      · refine (hInv.reading readAhead hCall hFirst).imp_left ?_
        rintro ⟨hOffset, hLength⟩
        exact appendPending_call data fd hOffset hLength
    have hLeft := congrArg List.length hSocket
    rw [length_bytes (Nat.le_refl _), List.length_append] at hLeft
    have hLonger := appendPending_le s.rc data fd
    rw [hStrict, if_neg Bool.false_ne_true]
    refine ⟨?_, hInv.lent, fun ahead hReading => ?_⟩
    · change (appendPending s.rc data fd).pending.length ≤ _
      omega
    · cases hReading
      refine fun _ => hAppended.imp_right fun hFits => ?_
      dsimp only
      omega

/-- A worker gives back a part of its buffer, or the header of a stream request. -/
theorem Inv.rearm {taken : Nat} {replayed busy : Bool} (hInv : Inv stream s) (hCall : s.call = .idle)
    (hReplayed : replayed = true → s.rc.streamActive = false) :
    Inv stream (rearmStep stream s taken replayed busy) := by
  have hBuffered : s.buffered.length ≤ reactorReadBatchSize := by
    rw [State.buffered]
    split
    · exact hInv.lent
    · exact Nat.zero_le _
  refine ⟨?_, Nat.zero_le _, fun readAhead hReading => by cases hCall.symm.trans hReading⟩
  change (List.drop _ _).length ≤ _
  rw [List.length_drop, List.length_append, bytes, Lib.segment, List.length_map, List.length_take]
  split
  · rename_i hReplay
    have hNone : s.buffered = [] := by rw [State.buffered, hReplayed hReplay]; rfl
    rw [hNone, List.length_nil, headerSize, reactorReadBatchSize]
    omega
  · omega

theorem Inv.next (hStrict : opts.strictBudget = false) (hInv : Inv stream s)
    (hGuard : startsEmpty stream s action = true) (hStep : step opts stream s action = some t) : Inv stream t := by
  cases step_cases hStep with
  | enter answer hCall hStream =>
    refine ⟨?_, hInv.lent, fun readAhead hReading hSome => ?_⟩
    · change (retryBudget opts answer s.rc).1.pending.length ≤ _
      rw [retryBudget_pending]
      exact hInv.pending
    · dsimp only at hReading
      split at hReading
      · cases hReading
        exact absurd rfl hSome
      · cases hReading
  | receive readAhead receive hCall _ => exact hInv.receive hStrict hCall hGuard
  | pass answer hCall => exact hInv.pass hStrict hCall
  | resume hCall => exact ⟨hInv.pending, hInv.lent, fun readAhead hReading => by cases hCall.symm.trans hReading⟩
  | rearm taken replayed busy hCall _ hReplayed _ => exact hInv.rearm hCall hReplayed
  | close => exact ⟨hInv.pending, hInv.lent, nofun⟩

/-- As long as no call reads on top of what an earlier one left, or all that comes fits behind it, the buffer
holds at most a batch. -/
theorem read_ahead_bounded (hBudget : opts.maxTotalInflightBytes = 0)
    (h : (machine opts stream).Reached (fun s action => startsEmpty stream s action = true) s) :
    s.rc.pending.length ≤ reactorReadBatchSize := by
  have hStrict : opts.strictBudget = false := by
    rw [Options.strictBudget, hBudget]
    rfl
  have hInv : Inv stream s := h.invariant (I := Inv stream) (fun s (hInit : s = _) => hInit ▸ .start)
    (fun _ _ _ _ hInv hGuard hStep => hInv.next hStrict hGuard hStep)
  exact hInv.pending

def minimalHeader : HeaderBytes := encodeHeader .request 7 1 0 0 version

def minimal : List UInt8 := minimalHeader ++ [97]

def pipeline (count : Nat) : Stream := (List.replicate count minimal).flatten.map fun byte => (byte, none)

def pausing : Answer := { granted with dispatched := .paused }

/-- A paused connection is resumed, and the rest is parsed before more is read. -/
theorem read_ahead_bounded_resumed :
    ∃ s, (machine smallMessages (pipeline 3)).Reached (fun s action => startsEmpty (pipeline 3) s action = true) s ∧
      s.received = 63 ∧ s.rc.pending.length = 21 ∧ s.rc.pending.length ≤ reactorReadBatchSize := by
  obtain ⟨s, hReached, hReceived, hPending⟩ := Machine.exists_reached_of_exec
    (fun s => s.received = 63 ∧ s.rc.pending.length = 21) (startsEmpty (pipeline 3))
    [.enter granted, .receive (.bytes 42 none), .receive .wouldBlock, .pass granted, .pass pausing, .resume,
      .enter granted, .receive .wouldBlock, .pass granted, .pass pausing, .resume,
      .enter granted, .receive (.bytes 42 none)]
    (M := machine smallMessages (pipeline 3)) (s := start) rfl (by decide)
  exact ⟨s, hReached, hReceived, hPending, read_ahead_bounded rfl hReached⟩

def round : List Action :=
  [Action.enter granted, .receive (.bytes 42 none), .receive .wouldBlock] ++
    [Action.pass granted, .pass pausing, .resume]

structure Between (rc : ReactorConnection) : Prop where
  phase : rc.phase = .header
  headerReceived : rc.headerReceived = 0
  header : rc.header.length = headerSize
  wireVersion : rc.wireVersion = 0 ∨ rc.wireVersion = version
  streamActive : rc.streamActive = false
  closing : rc.closing = false

structure Grown (rounds : Nat) (s : State) : Prop where
  between : Between s.rc
  call : s.call = .idle
  pending : s.rc.pending = (List.replicate (2 * rounds) minimal).flatten
  offset : s.rc.pendingOffset = 21 * rounds
  received : s.received = 42 * rounds

theorem drop_minimal (count dropped : Nat) (h : dropped ≤ count) :
    (List.replicate count minimal).flatten.drop (21 * dropped) =
      (List.replicate (count - dropped) minimal).flatten := by
  induction dropped generalizing count with
  | zero => rfl
  | succ dropped ih =>
    obtain ⟨count, rfl⟩ : ∃ rest, count = rest + 1 := ⟨count - 1, by omega⟩
    rw [show 21 * (dropped + 1) = minimal.length + 21 * dropped by rw [show minimal.length = 21 from rfl]; omega,
      List.replicate_succ, List.flatten_cons, List.drop_length_add_append, ih count (by omega)]
    congr 2
    omega

theorem announce_minimal {wireVersion : UInt8} (h : wireVersion = 0 ∨ wireVersion = version) :
    decodeHeader minimalHeader =
        .ok { type := .request, requestId := 7, arg1 := 1, arg2 := 0, flags := 0, version := version } ∧
      observedVersion wireVersion version = version := by
  refine ⟨decodeHeader_encodeHeader _ _ _ _ _ (.inl rfl) nofun, ?_⟩
  rcases h with rfl | rfl <;> rfl

theorem headerPass_minimal (h : Between rc) (hUnparsed : unparsed rc = minimalHeader ++ rest) :
    ∃ next, parsePass smallMessages granted rc = .again next [] ∧ next.phase = .requestPayload ∧
      next.pending = rc.pending ∧ next.pendingOffset = rc.pendingOffset + 20 ∧ next.payloadTotal = 1 ∧
      next.payloadReceived = 0 ∧ next.headerReceived = 0 ∧ next.header.length = headerSize ∧
        next.wireVersion = version ∧
      next.streamActive = false ∧ next.closing = false := by
  have hTake : min (available rc) (headerSize - rc.headerReceived) = 20 := by
    have hLength : 20 ≤ (unparsed rc).length := by
      rw [hUnparsed, List.length_append]
      exact Nat.le_add_right _ _
    rw [unparsed, List.length_drop] at hLength
    rw [h.headerReceived, available, headerSize]
    omega
  have hCopied : copyHeader rc 20 =
      { rc with header := minimalHeader, pendingOffset := rc.pendingOffset + 20, headerReceived := 20 } := by
    have hHeader : rc.header.take 0 ++ (unparsed rc).take 20 ++ rc.header.drop 20 = minimalHeader := by
      have hRest : rc.header.drop 20 = [] := List.drop_eq_nil_of_le (Nat.le_of_eq h.header)
      rw [hUnparsed, hRest, List.append_nil, List.take_zero, List.nil_append]
      exact List.take_left' rfl
    rw [copyHeader, h.headerReceived, Nat.zero_add, hHeader]
  obtain ⟨hDecode, hVersion⟩ := announce_minimal h.wireVersion
  rw [parsePass, h.phase]
  simp only [headerPass, hTake, hCopied, releaseConsumedPending_id (show smallMessages.strictBudget = false from rfl)]
  rw [if_neg (by decide), wholeHeader]
  simp only [hDecode, hVersion]
  refine ⟨_, rfl, rfl, rfl, rfl, rfl, rfl, rfl, rfl, rfl, h.streamActive, h.closing⟩

theorem payloadPass_minimal (hPhase : rc.phase = .requestPayload) (hTotal : rc.payloadTotal = 1)
    (hReceived : rc.payloadReceived = 0) (hUnparsed : unparsed rc = 97 :: rest) (hHeader : rc.headerReceived = 0)
    (hLength : rc.header.length = headerSize) (hVersion : rc.wireVersion = version)
    (hStream : rc.streamActive = false) (hClosing : rc.closing = false) :
    ∃ next events, parsePass smallMessages pausing rc = .stop next events ∧ Between next ∧
      next.pending = rc.pending ∧ next.pendingOffset = rc.pendingOffset + 1 := by
  have hTake : min (available rc) (rc.payloadTotal - rc.payloadReceived) = 1 := by
    have hSome : (unparsed rc).length = rest.length + 1 := by rw [hUnparsed, List.length_cons]
    rw [unparsed, List.length_drop] at hSome
    rw [hTotal, hReceived, available]
    omega
  rw [parsePass, hPhase]
  simp only [payloadPass, hTake, releaseConsumedPending_id (show smallMessages.strictBudget = false from rfl)]
  rw [if_pos (by rw [hReceived, hTotal])]
  exact ⟨_, _, rfl, ⟨rfl, hHeader, hLength, .inr hVersion, hStream, hClosing⟩, rfl, rfl⟩

theorem bytes_pipeline (count dropped : Nat) (h : dropped ≤ count) :
    bytes (pipeline count) (21 * dropped) (pipeline count).length =
      (List.replicate (count - dropped) minimal).flatten := by
  rw [bytes, Lib.segment, List.take_of_length_le (by rw [List.length_drop]), pipeline, List.map_drop, List.map_map]
  exact (congrArg _ (List.map_id _)).trans (drop_minimal count dropped h)

theorem attached_pipeline (count first last : Nat) : attached (pipeline count) first last = [] := by
  rw [attached, Lib.segment, pipeline, List.filterMap_eq_nil_iff]
  intro byte hByte
  obtain ⟨_, -, rfl⟩ := List.mem_map.mp (List.mem_of_mem_drop (List.mem_of_mem_take hByte))
  rfl

theorem length_minimals (count : Nat) : (List.replicate count minimal).flatten.length = 21 * count := by
  rw [List.length_flatten, List.map_replicate, List.sum_replicate_nat, Nat.mul_comm]
  rfl

theorem readPass_minimal (rc : ReactorConnection) (rest : List UInt8) :
    readPass smallMessages rc (minimal ++ minimal ++ rest) 0 (.bytes 42 none) =
      .more (appendPending rc (minimal ++ minimal) none) rest 42 := by
  have hSize : requestSize smallMessages rc 0 = 65536 := rfl
  have hData : (minimal ++ minimal ++ rest).take (min (max 1 42) 65536) = minimal ++ minimal := List.take_left' rfl
  have hRest : (minimal ++ minimal ++ rest).drop (minimal ++ minimal).length = rest := List.drop_left
  unfold readPass
  rw [hSize, if_neg (by decide)]
  dsimp only
  rw [hData, if_neg (by decide), hRest]
  rfl

theorem receive_round {rounds count : Nat} (hCount : 2 * (rounds + 1) ≤ count) (h : Grown rounds s) :
    ∃ next, (machine smallMessages (pipeline count)).exec (fun _ _ => true) s
        [.enter granted, .receive (.bytes 42 none), .receive .wouldBlock] = some next ∧
      Between next.rc ∧ next.call = .parsing ∧ next.received = 42 * (rounds + 1) ∧
      next.rc.pending = (List.replicate (2 * (rounds + 1)) minimal).flatten ∧ next.rc.pendingOffset = 21 * rounds := by
  obtain ⟨more, rfl⟩ : ∃ more, count = 2 * (rounds + 1) + more := ⟨count - 2 * (rounds + 1), by omega⟩
  have hSocket : bytes (pipeline (2 * (rounds + 1) + more)) s.received (pipeline (2 * (rounds + 1) + more)).length =
      minimal ++ minimal ++ (List.replicate more minimal).flatten := by
    rw [h.received, show 42 * rounds = 21 * (2 * rounds) by omega, bytes_pipeline _ _ (by omega),
      show 2 * (rounds + 1) + more - 2 * rounds = 2 + more by omega, List.replicate_add, List.flatten_append]
    rfl
  have hEnter : (machine smallMessages (pipeline (2 * (rounds + 1) + more))).step s (.enter granted) =
      some { s with call := .reading 0 } := by
    simp only [machine, step, h.call, h.between.streamActive, and_self, if_true, retryBudget, h.between.phase]
  have hAppend : appendPending s.rc (minimal ++ minimal) none =
      { s.rc with pending := (List.replicate (2 * (rounds + 1)) minimal).flatten } := by
    have hKept : ¬(s.rc.pendingOffset != 0 && s.rc.pendingOffset == s.rc.pending.length) = true := by
      rw [h.offset, h.pending, length_minimals]
      simp
      omega
    have hLonger : s.rc.pending ++ (minimal ++ minimal) = (List.replicate (2 * (rounds + 1)) minimal).flatten := by
      rw [h.pending, show 2 * (rounds + 1) = 2 * rounds + 2 by omega, List.replicate_add, List.flatten_append]
      rfl
    simp only [appendPending, if_neg hKept, hLonger, Option.toList_none, List.append_nil]
  have hLength : (pipeline (2 * (rounds + 1) + more)).length - (List.replicate more minimal).flatten.length =
      42 * (rounds + 1) := by
    rw [pipeline, List.length_map, length_minimals, length_minimals]
    omega
  have hReceive : (machine smallMessages (pipeline (2 * (rounds + 1) + more))).step { s with call := .reading 0 }
      (.receive (.bytes 42 none)) = some { s with
        rc := { s.rc with pending := (List.replicate (2 * (rounds + 1)) minimal).flatten }
        received := 42 * (rounds + 1)
        call := .reading 42 } := by
    simp only [machine, step, receiveStep, hSocket, readPass_minimal, hAppend, hLength, delivered, attached_pipeline]
    rfl
  have hWait : (machine smallMessages (pipeline (2 * (rounds + 1) + more))).step { s with
        rc := { s.rc with pending := (List.replicate (2 * (rounds + 1)) minimal).flatten }
        received := 42 * (rounds + 1)
        call := .reading 42 } (.receive .wouldBlock) = some { s with
        rc := { s.rc with pending := (List.replicate (2 * (rounds + 1)) minimal).flatten }
        received := 42 * (rounds + 1)
        call := .parsing } := by
    simp only [machine, step, receiveStep, readPass_wouldBlock, length_bytes (Nat.le_refl _), delivered, if_true]
    rw [show (pipeline (2 * (rounds + 1) + more)).length - ((pipeline (2 * (rounds + 1) + more)).length -
      42 * (rounds + 1)) = 42 * (rounds + 1) by omega]
  obtain ⟨hPhase, hHeaderReceived, hHeader, hVersion, hStream, hClosing⟩ := h.between
  exact ⟨_, (Machine.exec_cons _ rfl hEnter).trans ((Machine.exec_cons _ rfl hReceive).trans
    (Machine.exec_cons _ rfl hWait)), ⟨hPhase, hHeaderReceived, hHeader, hVersion, hStream, hClosing⟩, rfl, rfl, rfl,
    h.offset⟩

theorem grown_round {rounds count : Nat} (hCount : 2 * (rounds + 1) ≤ count) (h : Grown rounds s) :
    ∃ next, (machine smallMessages (pipeline count)).exec (fun _ _ => true) s round = some next ∧
      Grown (rounds + 1) next := by
  obtain ⟨full, hFull, hBetween, hCall, hReceived, hPending, hOffset⟩ := receive_round hCount h
  have hUnparsed : unparsed full.rc = minimalHeader ++ (97 :: (List.replicate (rounds + 1) minimal).flatten) := by
    rw [unparsed, hPending, hOffset, drop_minimal _ _ (by omega),
      show 2 * (rounds + 1) - rounds = rounds + 1 + 1 by omega, List.replicate_succ, List.flatten_cons]
    rfl
  obtain ⟨opened, hOpened, hPhase, hSame, hBehind, hTotal, hNone, hHeader, hLength, hVersion, hStream, hClosing⟩ :=
    headerPass_minimal hBetween hUnparsed
  have hPayload : unparsed opened = 97 :: (List.replicate (rounds + 1) minimal).flatten := by
    rw [unparsed, hSame, hBehind, ← List.drop_drop]
    change (unparsed full.rc).drop 20 = _
    rw [hUnparsed]
    exact List.drop_left' rfl
  obtain ⟨last, events, hLast, hAgain, hKept, hEnd⟩ :=
    payloadPass_minimal hPhase hTotal hNone hPayload hHeader hLength hVersion hStream hClosing
  have hFirst : (machine smallMessages (pipeline count)).step full (.pass granted) =
      some { full.advance with rc := opened, exposed := full.exposed ++ [] } := by
    simp only [machine, step, hCall, if_true, passStep, State.land, hOpened]
    rfl
  obtain ⟨stopped, hStopped, hRc, hIdle, hSocket⟩ : ∃ stopped, (machine smallMessages (pipeline count)).step
      { full.advance with rc := opened, exposed := full.exposed ++ [] } (.pass pausing) = some stopped ∧
      stopped.rc = last ∧ stopped.call = .idle ∧ stopped.received = full.received := by
    simp only [machine, step, State.advance, hCall, if_true, passStep, State.land, hLast, hAgain.closing,
      Option.some.injEq, exists_eq_left', Bool.false_eq_true, if_false, and_self]
  have hResume : (machine smallMessages (pipeline count)).step stopped .resume =
      some { stopped with rc := { last with readPaused := false } } := by
    simp only [machine, step, hIdle, if_true, hRc]
  refine ⟨{ stopped with rc := { last with readPaused := false } }, ?_, ?_, hIdle, hKept.trans (hSame.trans hPending),
    ?_, hSocket.trans hReceived⟩
  · rw [round, Machine.exec_append _ _ hFull, Machine.exec_cons _ rfl hFirst, Machine.exec_cons _ rfl hStopped,
      Machine.exec_cons _ rfl hResume]
    rfl
  · exact ⟨hAgain.phase, hAgain.headerReceived, hAgain.header, hAgain.wireVersion, hAgain.streamActive, hAgain.closing⟩
  · change last.pendingOffset = _
    rw [hEnd, hBehind, hOffset]
    omega

theorem grown_reached (rounds count : Nat) (hCount : 2 * rounds ≤ count) :
    ∃ s, (machine smallMessages (pipeline count)).Reached (fun _ _ => true = true) s ∧ Grown rounds s := by
  induction rounds with
  | zero => exact ⟨start, .start rfl, ⟨rfl, rfl, rfl, .inl rfl, rfl, rfl⟩, rfl, rfl, rfl, rfl⟩
  | succ rounds ih =>
    obtain ⟨s, hReached, hGrown⟩ := ih (by omega)
    obtain ⟨t, hExec, hNext⟩ := grown_round hCount hGrown
    exact ⟨t, Machine.Reached.exec round hReached hExec, hNext⟩

/-- Otherwise the buffer of one connection grows beyond every bound. -/
theorem read_ahead_unbounded :
    ¬∃ bound, ∀ count s, (machine smallMessages (pipeline count)).Reachable s → s.rc.pending.length ≤ bound := by
  rintro ⟨bound, hBound⟩
  obtain ⟨s, hReached, hGrown⟩ := grown_reached (bound + 1) (2 * (bound + 1)) le_rfl
  have hLength := hBound _ s hReached.reachable
  rw [hGrown.pending, length_minimals] at hLength
  omega

end EasyUds.Reactor.ReadAhead

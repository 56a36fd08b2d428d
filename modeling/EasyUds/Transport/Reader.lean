import EasyUds.Protocol.Codec

/-! # Exact reads

`StreamByteSource` takes what the reactor has left in its buffer and then receives exactly what is
missing; `BufferedReader` reads ahead. A socket is the list of what its receive calls meet: the bytes
that arrive together, of which a call takes what it has room for, or a failure. A call that finds
nothing more times out.
-/

namespace EasyUds.Transport.Reader

open Protocol.Codec

inductive Receipt
  | data (bytes : List UInt8)
  | interrupted
  | blocked
  | timedOut
  | closed
  | failed (kind : ErrorCode)
  deriving DecidableEq, Repr

abbrev Socket := List Receipt

def closedError : Exception := .error .closed "peer closed connection"
def timeoutError : Exception := .error .timeout "receive timed out"

/-- The bytes that arrive before the first failure. -/
def arriving : Socket → List UInt8
  | [] => []
  | .data bytes :: rest => if bytes = [] then [] else bytes ++ arriving rest
  | .interrupted :: rest | .blocked :: rest => arriving rest
  | _ :: _ => []

/-- The receive loop: exactly `need` bytes, or the failure that comes first. -/
def receiveExact : Socket → Nat → Except Exception (List UInt8) × Socket
  | socket, 0 => (.ok [], socket)
  | [], _ => (.error timeoutError, [])
  | .data bytes :: rest, need =>
    if bytes = [] then (.error closedError, .data bytes :: rest)
    else if need < bytes.length then (.ok (bytes.take need), .data (bytes.drop need) :: rest)
    else
      let later := receiveExact rest (need - bytes.length)
      (later.1.map (bytes ++ ·), later.2)
  | .interrupted :: rest, need | .blocked :: rest, need => receiveExact rest need
  | .timedOut :: rest, _ => (.error timeoutError, rest)
  | .closed :: rest, _ => (.error closedError, .closed :: rest)
  | .failed kind :: rest, _ => (.error (.error kind "receive failed"), rest)

/-- A reader that has `ahead` in front of it either gives the first `need` bytes of it or fails. -/
structure Exact (ahead : List UInt8) (need : Nat) (result : Except Exception (List UInt8))
    (rest : List UInt8) : Prop where
  enough : need ≤ ahead.length → result = .ok (ahead.take need) ∧ rest = ahead.drop need
  short : ahead.length < need → ∃ reason, result = .error reason

variable {result : Except Exception (List UInt8)} {need : Nat}

theorem Exact.zero (ahead : List UInt8) : Exact ahead 0 (.ok []) ahead :=
  ⟨fun _ => ⟨rfl, rfl⟩, fun h => absurd h (Nat.not_lt_zero _)⟩

theorem Exact.failed (hNeed : need ≠ 0) (reason : Exception) (rest : List UInt8) :
    Exact [] need (.error reason) rest :=
  ⟨fun h => absurd (Nat.le_zero.mp h) hNeed, fun _ => ⟨reason, rfl⟩⟩

theorem Exact.held {held behind rest : List UInt8} (hNeed : need ≤ held.length)
    (hRest : rest = held.drop need ++ behind) : Exact (held ++ behind) need (.ok (held.take need)) rest where
  enough _ := by
    rw [List.take_append_of_le_length hNeed, List.drop_append_of_le_length hNeed]
    exact ⟨rfl, hRest⟩
  short hShort := by
    rw [List.length_append] at hShort
    omega

theorem Exact.prepend {ahead rest : List UInt8} (front : List UInt8) (h : Exact ahead need result rest) :
    Exact (front ++ ahead) (front.length + need) (result.map (front ++ ·)) rest where
  enough hEnough := by
    rw [List.length_append] at hEnough
    obtain ⟨rfl, rfl⟩ := h.enough (by omega)
    rw [List.take_length_add_append, List.drop_length_add_append]
    exact ⟨rfl, rfl⟩
  short hShort := by
    rw [List.length_append] at hShort
    obtain ⟨reason, rfl⟩ := h.short (by omega)
    exact ⟨reason, rfl⟩

theorem Exact.length {ahead rest bytes : List UInt8} (h : Exact ahead need result rest) (hResult : result = .ok bytes) :
    bytes.length = need := by
  by_cases hNeed : need ≤ ahead.length
  · obtain ⟨rfl, -⟩ := h.enough hNeed
    cases hResult
    rw [List.length_take, Nat.min_eq_left hNeed]
  · obtain ⟨reason, rfl⟩ := h.short (Nat.lt_of_not_le hNeed)
    cases hResult

theorem Exact.front {front behind rest : List UInt8} (h : Exact (front ++ behind) front.length result rest) :
    result = .ok front ∧ rest = behind := by
  obtain ⟨hResult, hRest⟩ := h.enough (by rw [List.length_append]; omega)
  rw [List.take_left] at hResult
  rw [List.drop_left] at hRest
  exact ⟨hResult, hRest⟩

theorem receiveExact_zero (socket : Socket) : receiveExact socket 0 = (.ok [], socket) := by
  cases socket <;> rfl

theorem receiveExact_exact (socket : Socket) (need : Nat) :
    Exact (arriving socket) need (receiveExact socket need).1 (arriving (receiveExact socket need).2) := by
  induction socket generalizing need with
  | nil =>
    cases need with
    | zero => exact .zero _
    | succ need => exact .failed (Nat.succ_ne_zero _) _ _
  | cons receipt rest ih =>
    cases need with
    | zero =>
      rw [receiveExact_zero]
      exact .zero _
    | succ need =>
      cases receipt with
      | data bytes =>
        rw [receiveExact, arriving]
        · split
          · exact .failed (Nat.succ_ne_zero _) _ _
          · rename_i hBytes
            split
            · rename_i hLess
              have hRest : bytes.drop (need + 1) ≠ [] := by
                rw [Ne, List.drop_eq_nil_iff]
                omega
              exact .held (Nat.le_of_lt hLess) (by rw [arriving, if_neg hRest])
            · rename_i hLess
              have hLater := (ih (need + 1 - bytes.length)).prepend bytes
              rwa [show bytes.length + (need + 1 - bytes.length) = need + 1 by omega] at hLater
        · exact Nat.succ_ne_zero _
      | interrupted | blocked => exact ih (need + 1)
      | timedOut | closed | failed kind => exact .failed (Nat.succ_ne_zero _) _ _

structure Source where
  buffered : List UInt8
  offset : Nat
  socket : Socket
  deriving DecidableEq, Repr

def Source.ahead (source : Source) : List UInt8 := source.buffered.drop source.offset ++ arriving source.socket

def Source.read (source : Source) (size : Nat) : Except Exception (List UInt8) × Source :=
  let front := (source.buffered.drop source.offset).take size
  let received := receiveExact source.socket (size - front.length)
  (received.1.map (front ++ ·), { source with offset := source.offset + front.length, socket := received.2 })

theorem Source.read_exact (source : Source) (size : Nat) :
    Exact source.ahead size (source.read size).1 (source.read size).2.ahead := by
  unfold Source.ahead Source.read
  dsimp only
  rw [← List.drop_drop]
  generalize source.buffered.drop source.offset = held
  by_cases hSize : size ≤ held.length
  · rw [List.length_take, Nat.min_eq_left hSize, Nat.sub_self, receiveExact_zero]
    have hExact := Exact.held hSize (rfl : held.drop size ++ arriving source.socket = _)
    rwa [← List.append_nil (held.take size)] at hExact
  · rw [List.take_of_length_le (by omega), List.drop_length, List.nil_append]
    have hExact := (receiveExact_exact source.socket (size - held.length)).prepend held
    rwa [show held.length + (size - held.length) = size by omega] at hExact

def readAheadCapacity : Nat := 4096

structure BufferedReader where
  held : List UInt8
  socket : Socket
  deriving DecidableEq, Repr

def BufferedReader.ahead (reader : BufferedReader) : List UInt8 := reader.held ++ arriving reader.socket

/-- A small read with an empty buffer: receive calls fill the buffer until it has enough. -/
def fill : Socket → Nat → Except Exception (List UInt8) × BufferedReader
  | socket, 0 => (.ok [], ⟨[], socket⟩)
  | [], _ => (.error timeoutError, ⟨[], []⟩)
  | .data bytes :: rest, need =>
    if bytes = [] then (.error closedError, ⟨[], .data bytes :: rest⟩)
    else if need ≤ bytes.length then
      (.ok (bytes.take need),
        ⟨(bytes.take readAheadCapacity).drop need,
          if bytes.length ≤ readAheadCapacity then rest else .data (bytes.drop readAheadCapacity) :: rest⟩)
    else
      let later := fill rest (need - bytes.length)
      (later.1.map (bytes ++ ·), later.2)
  | .interrupted :: rest, need | .blocked :: rest, need => fill rest need
  | .timedOut :: rest, _ => (.error timeoutError, ⟨[], rest⟩)
  | .closed :: rest, _ => (.error closedError, ⟨[], .closed :: rest⟩)
  | .failed kind :: rest, _ => (.error (.error kind "receive failed"), ⟨[], rest⟩)

def BufferedReader.read (reader : BufferedReader) (size : Nat) :
    Except Exception (List UInt8) × BufferedReader :=
  if size ≤ reader.held.length then (.ok (reader.held.take size), { reader with held := reader.held.drop size })
  else
    let missing := size - reader.held.length
    if readAheadCapacity ≤ missing then
      let received := receiveExact reader.socket missing
      (received.1.map (reader.held ++ ·), ⟨[], received.2⟩)
    else
      let filled := fill reader.socket missing
      (filled.1.map (reader.held ++ ·), filled.2)

theorem fill_zero (socket : Socket) : fill socket 0 = (.ok [], ⟨[], socket⟩) := by
  cases socket <;> rfl

theorem fill_exact (socket : Socket) (need : Nat) (hSmall : need < readAheadCapacity) :
    Exact (arriving socket) need (fill socket need).1 (fill socket need).2.ahead := by
  induction socket generalizing need with
  | nil =>
    cases need with
    | zero => exact .zero _
    | succ need => exact .failed (Nat.succ_ne_zero _) _ _
  | cons receipt rest ih =>
    cases need with
    | zero =>
      rw [fill_zero]
      exact .zero _
    | succ need =>
      cases receipt with
      | data bytes =>
        rw [fill, arriving]
        · split
          · exact .failed (Nat.succ_ne_zero _) _ _
          · rename_i hBytes
            split
            · rename_i hLess
              have hAhead : bytes.take readAheadCapacity ++
                  arriving (if bytes.length ≤ readAheadCapacity then rest
                    else .data (bytes.drop readAheadCapacity) :: rest) = bytes ++ arriving rest := by
                split
                · rename_i hFits
                  rw [List.take_of_length_le hFits]
                · rename_i hFits
                  have hRest : bytes.drop readAheadCapacity ≠ [] := by
                    rw [Ne, List.drop_eq_nil_iff]
                    omega
                  rw [arriving, if_neg hRest, ← List.append_assoc, List.take_append_drop]
              have hHeld : need + 1 ≤ (bytes.take readAheadCapacity).length := by
                rw [List.length_take]
                omega
              refine .held hLess ?_
              rw [BufferedReader.ahead, ← List.drop_append_of_le_length hHeld, hAhead,
                List.drop_append_of_le_length hLess]
            · rename_i hLess
              have hLater := (ih (need + 1 - bytes.length) (by omega)).prepend bytes
              rwa [show bytes.length + (need + 1 - bytes.length) = need + 1 by omega] at hLater
        · exact Nat.succ_ne_zero _
      | interrupted | blocked => exact ih (need + 1) hSmall
      | timedOut | closed | failed kind => exact .failed (Nat.succ_ne_zero _) _ _

theorem BufferedReader.read_exact (reader : BufferedReader) (size : Nat) :
    Exact reader.ahead size (reader.read size).1 (reader.read size).2.ahead := by
  unfold BufferedReader.read
  split
  · rename_i hSize
    exact .held hSize rfl
  · rename_i hSize
    have hWhole : reader.held.length + (size - reader.held.length) = size := by omega
    dsimp only
    split
    · have hExact := (receiveExact_exact reader.socket (size - reader.held.length)).prepend reader.held
      rwa [hWhole] at hExact
    · rename_i hSmall
      have hExact := (fill_exact reader.socket (size - reader.held.length) (by omega)).prepend reader.held
      rwa [hWhole] at hExact

end EasyUds.Transport.Reader

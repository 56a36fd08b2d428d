import EasyUds.Transport.Reader

/-! # The window of a buffered reader

`BufferedReader` holds its read-ahead as a window of a fixed array. A read copies from the window, refills it
or, for a large rest, passes it by. The reader of the module `Reader` is what the window stands for.
-/

namespace EasyUds.Transport.Window

open Protocol.Codec Transport.Reader

/-- What a receive call with room for `capacity` bytes can give. -/
abbrev Data (capacity : Nat) := { data : List UInt8 // data ≠ [] ∧ data.length ≤ capacity }

def firstBytes {bytes : List UInt8} {capacity : Nat} (hSome : bytes ≠ []) (hRoom : 0 < capacity) : Data capacity :=
  ⟨bytes.take capacity, by
    rw [Ne, List.take_eq_nil_iff]
    rintro (hZero | hNil)
    · exact absurd hZero (Nat.ne_of_gt hRoom)
    · exact hSome hNil, List.length_take_le ..⟩

def receive {capacity : Nat} (hRoom : 0 < capacity) : Socket → Except Exception (Data capacity) × Socket
  | [] => (.error timeoutError, [])
  | .data bytes :: rest =>
    if hSome : bytes = [] then (.error closedError, .data bytes :: rest)
    else (.ok (firstBytes hSome hRoom),
      if bytes.length ≤ capacity then rest else .data (bytes.drop capacity) :: rest)
  | .interrupted :: rest | .blocked :: rest => receive hRoom rest
  | .timedOut :: rest => (.error timeoutError, rest)
  | .closed :: rest => (.error closedError, .closed :: rest)
  | .failed kind :: rest => (.error (.error kind "receive failed"), rest)

def readDirect (socket : Socket) (size : Nat) : Except Exception (List UInt8) × Socket :=
  if hSize : size = 0 then (.ok [], socket)
  else
    match receive (Nat.pos_of_ne_zero hSize) socket with
    | (.error reason, next) => (.error reason, next)
    | (.ok data, next) =>
      let later := readDirect next (size - data.val.length)
      (later.1.map (data.val ++ ·), later.2)
termination_by size
decreasing_by
  have hLength := List.length_pos_iff.mpr data.property.1
  omega

structure BufferedReader where
  buffer : List UInt8
  start : Nat
  size : Nat
  socket : Socket
  capacity : buffer.length = readAheadCapacity
  within : start + size ≤ readAheadCapacity

namespace BufferedReader

def window (reader : BufferedReader) : List UInt8 := (reader.buffer.drop reader.start).take reader.size

def consume (reader : BufferedReader) (count : Nat) (hCount : count ≤ reader.size) : BufferedReader :=
  { reader with
    start := reader.start + count
    size := reader.size - count
    within := by
      have hWithin := reader.within
      omega }

def refill (reader : BufferedReader) (data : Data readAheadCapacity) (socket : Socket) : BufferedReader where
  buffer := data.val ++ reader.buffer.drop data.val.length
  start := 0
  size := data.val.length
  socket := socket
  capacity := by
    rw [List.length_append, List.length_drop, reader.capacity]
    have hFits := data.property.2
    omega
  within := by
    rw [Nat.zero_add]
    exact data.property.2

def failed (reader : BufferedReader) (socket : Socket) : BufferedReader :=
  { reader with
    start := 0
    socket
    within := Nat.le_trans (Nat.add_le_add_right (Nat.zero_le _) _) reader.within }

def read (reader : BufferedReader) (missing : Nat) : Except Exception (List UInt8) × BufferedReader :=
  if missing = 0 then (.ok [], reader)
  else if reader.size ≠ 0 then
    let take := min missing reader.size
    let later := read (reader.consume take (Nat.min_le_right _ _)) (missing - take)
    (later.1.map ((reader.buffer.drop reader.start).take take ++ ·), later.2)
  else if missing ≥ readAheadCapacity then
    let direct := readDirect reader.socket missing
    (direct.1, { reader with socket := direct.2 })
  else
    match receive (show 0 < readAheadCapacity by decide) reader.socket with
    | (.error reason, next) => (.error reason, reader.failed next)
    | (.ok data, next) => read (reader.refill data next) missing
termination_by (missing, if reader.size = 0 then 1 else 0)
decreasing_by
  · apply Prod.Lex.left
    omega
  · apply Prod.Lex.right
    have hLength := List.length_pos_iff.mpr data.property.1
    rw [if_neg (by exact Nat.ne_of_gt hLength), if_pos (by omega)]
    exact Nat.zero_lt_one

def toReader (reader : BufferedReader) : Reader.BufferedReader := ⟨reader.window, reader.socket⟩

end BufferedReader

theorem map_append_nil (result : Except Exception (List UInt8)) : result.map ([] ++ ·) = result := by
  cases result <;> rfl

theorem receiveExact_receive {need : Nat} (hNeed : 0 < need) (socket : Socket) :
    receiveExact socket need =
      match receive hNeed socket with
      | (.error reason, next) => (.error reason, next)
      | (.ok data, next) =>
        ((receiveExact next (need - data.val.length)).1.map (data.val ++ ·),
          (receiveExact next (need - data.val.length)).2) := by
  obtain ⟨need, rfl⟩ : ∃ more, need = more + 1 := ⟨need - 1, by omega⟩
  induction socket with
  | nil => rfl
  | cons receipt rest ih =>
    cases receipt with
    | data bytes =>
      by_cases hNone : bytes = []
      · subst hNone
        rfl
      · rw [receiveExact, receive, if_neg hNone, dif_neg hNone]
        · dsimp only [firstBytes]
          split
          · rename_i hLess
            rw [List.length_take, Nat.min_eq_left (Nat.le_of_lt hLess), Nat.sub_self, receiveExact_zero,
              if_neg (Nat.not_le.mpr hLess)]
            exact congrArg (fun bytes => (Except.ok bytes, _)) (List.append_nil _).symm
          · rename_i hWhole
            rw [List.take_of_length_le (Nat.le_of_not_lt hWhole), if_pos (Nat.le_of_not_lt hWhole)]
        · exact Nat.succ_ne_zero _
    | interrupted | blocked => exact ih
    | timedOut | closed | failed => rfl

theorem readDirect_eq (socket : Socket) (size : Nat) : readDirect socket size = receiveExact socket size := by
  induction size using Nat.strongRecOn generalizing socket with
  | ind size ih =>
    rw [readDirect]
    split
    · rename_i hZero
      rw [hZero, receiveExact_zero]
    · rename_i hSize
      rw [receiveExact_receive (Nat.pos_of_ne_zero hSize)]
      split
      · rfl
      · rename_i data next _
        have hLength := List.length_pos_iff.mpr data.property.1
        rw [ih _ (by omega)]

theorem fill_receive {need : Nat} (hNeed : 0 < need) (hSmall : need < readAheadCapacity) (socket : Socket) :
    fill socket need =
      match receive (show 0 < readAheadCapacity by decide) socket with
      | (.error reason, next) => (.error reason, ⟨[], next⟩)
      | (.ok data, next) =>
        if need ≤ data.val.length then (.ok (data.val.take need), ⟨data.val.drop need, next⟩)
        else ((fill next (need - data.val.length)).1.map (data.val ++ ·), (fill next (need - data.val.length)).2) := by
  obtain ⟨need, rfl⟩ : ∃ more, need = more + 1 := ⟨need - 1, by omega⟩
  induction socket with
  | nil => rfl
  | cons receipt rest ih =>
    cases receipt with
    | data bytes =>
      by_cases hNone : bytes = []
      · subst hNone
        rfl
      · rw [fill, receive, if_neg hNone, dif_neg hNone]
        · dsimp only [firstBytes]
          split
          · rename_i hEnough
            have hTaken : need + 1 ≤ (bytes.take readAheadCapacity).length := by
              rw [List.length_take]
              omega
            rw [if_pos hTaken, List.take_take, Nat.min_eq_left (Nat.le_of_lt hSmall)]
          · rename_i hShort
            have hFits : bytes.length ≤ readAheadCapacity := by omega
            simp only [List.take_of_length_le hFits, if_neg hShort, if_pos hFits]
        · exact Nat.succ_ne_zero _
    | interrupted | blocked => exact ih
    | timedOut | closed | failed => rfl

section Refinement

variable (reader : BufferedReader)

theorem window_length : reader.window.length = reader.size := by
  have hWithin := reader.within
  rw [BufferedReader.window, List.length_take, List.length_drop, reader.capacity]
  omega

theorem window_empty (hEmpty : reader.size = 0) : reader.window = [] := by
  rw [BufferedReader.window, hEmpty, List.take_zero]

theorem window_front {count : Nat} (hCount : count ≤ reader.size) :
    (reader.buffer.drop reader.start).take count = reader.window.take count := by
  rw [BufferedReader.window, List.take_take, Nat.min_eq_left hCount]

theorem window_consume (count : Nat) (hCount : count ≤ reader.size) :
    (reader.consume count hCount).window = reader.window.drop count := by
  rw [BufferedReader.window, BufferedReader.window, List.drop_take, List.drop_drop]
  rfl

theorem window_refill (data : Data readAheadCapacity) (socket : Socket) :
    (reader.refill data socket).window = data.val := by
  rw [BufferedReader.window]
  exact List.take_left

theorem read_cut (held : List UInt8) (socket : Socket) {size count : Nat} (hSize : count ≤ size)
    (hHeld : count ≤ held.length) :
    Reader.BufferedReader.read ⟨held, socket⟩ size =
      ((Reader.BufferedReader.read ⟨held.drop count, socket⟩ (size - count)).1.map (held.take count ++ ·),
        (Reader.BufferedReader.read ⟨held.drop count, socket⟩ (size - count)).2) := by
  unfold Reader.BufferedReader.read
  dsimp only
  rw [List.length_drop]
  by_cases hEnough : size ≤ held.length
  · rw [if_pos hEnough, if_pos (Nat.sub_le_sub_right hEnough count), List.drop_drop, Nat.add_sub_cancel' hSize]
    refine congrArg (fun bytes => (Except.ok bytes, _)) ?_
    rw [← List.take_append_drop count (held.take size), List.take_take, Nat.min_eq_left hSize, List.drop_take]
  · have hShort : ¬ size - count ≤ held.length - count := by omega
    have hMissing : size - count - (held.length - count) = size - held.length := by omega
    have hMap : ∀ result : Except Exception (List UInt8),
        result.map (held ++ ·) = (result.map (held.drop count ++ ·)).map (held.take count ++ ·) := by
      intro result
      cases result with
      | error reason => rfl
      | ok bytes =>
        refine congrArg Except.ok ?_
        dsimp only
        rw [← List.append_assoc, List.take_append_drop]
    rw [if_neg hEnough, if_neg hShort, hMissing]
    split <;> rw [hMap]

theorem toReader_empty (hEmpty : reader.size = 0) : reader.toReader = ⟨[], reader.socket⟩ := by
  rw [BufferedReader.toReader, window_empty reader hEmpty]

theorem read_empty (socket : Socket) {missing : Nat} (hMissing : missing ≠ 0) :
    Reader.BufferedReader.read ⟨[], socket⟩ missing =
      if readAheadCapacity ≤ missing then ((receiveExact socket missing).1, ⟨[], (receiveExact socket missing).2⟩)
      else fill socket missing := by
  rw [Reader.BufferedReader.read, if_neg (by rw [List.length_nil]; omega)]
  dsimp only
  rw [List.length_nil, Nat.sub_zero, map_append_nil, map_append_nil]

theorem read_refilled (socket : Socket) {missing : Nat} (hMissing : missing ≠ 0) (hSmall : missing < readAheadCapacity)
    {data : Data readAheadCapacity} {next : Socket}
    (hReceive : receive (show 0 < readAheadCapacity by decide) socket = (.ok data, next)) :
    fill socket missing = Reader.BufferedReader.read ⟨data.val, next⟩ missing := by
  rw [fill_receive (Nat.pos_of_ne_zero hMissing) hSmall, hReceive, Reader.BufferedReader.read]
  dsimp only
  split
  · rfl
  · rw [if_neg (by omega)]

theorem read_toReader (missing : Nat) :
    Reader.BufferedReader.read reader.toReader missing =
      ((reader.read missing).1, (reader.read missing).2.toReader) := by
  -- One case for each way through the loop.
  fun_induction BufferedReader.read reader missing with
  | case1 reader => rfl
  | case2 reader missing hMissing hHeld take later ih =>
    have hTake : take ≤ reader.size := Nat.min_le_right _ _
    rw [BufferedReader.toReader, window_consume] at ih
    rw [BufferedReader.toReader, window_front reader hTake,
      read_cut reader.window reader.socket (Nat.min_le_left _ _ : take ≤ missing) (by rw [window_length]; exact hTake)]
    change Reader.BufferedReader.read ⟨reader.window.drop take, reader.socket⟩ (missing - take) = _ at ih
    rw [ih]
  | case3 reader missing hMissing hEmpty hLarge direct =>
    rw [toReader_empty reader (not_not.mp hEmpty), read_empty _ hMissing, if_pos hLarge, ← readDirect_eq]
    exact congrArg (Prod.mk _) (toReader_empty { reader with socket := direct.2 } (not_not.mp hEmpty)).symm
  | case4 reader missing hMissing hEmpty hSmall reason next hReceive =>
    rw [toReader_empty reader (not_not.mp hEmpty), read_empty _ hMissing, if_neg hSmall,
      fill_receive (Nat.pos_of_ne_zero hMissing) (Nat.lt_of_not_le hSmall), hReceive]
    exact congrArg (Prod.mk _) (toReader_empty (reader.failed next) (not_not.mp hEmpty)).symm
  | case5 reader missing hMissing hEmpty hSmall data next hReceive ih =>
    rw [toReader_empty reader (not_not.mp hEmpty), read_empty _ hMissing, if_neg hSmall,
      read_refilled _ hMissing (Nat.lt_of_not_le hSmall) hReceive, ← ih, BufferedReader.toReader, window_refill]
    rfl

end Refinement

end EasyUds.Transport.Window

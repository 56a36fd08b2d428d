import EasyUds.Transport.Window

/-! # Buffered readers are transparent

However its bytes are split over the receive calls, a socket is a list of bytes and failures. Each reader
takes from the front of that list what an unbuffered reader would take, so no sequence of reads tells them
apart.
-/

namespace EasyUds.Transport.Transparency

open Protocol.Codec Transport.Window
open Transport.Reader (Socket Receipt Source readAheadCapacity receiveExact receiveExact_zero timeoutError
  closedError)

/-- A peer that has closed stays closed. -/
inductive Item
  | byte (value : UInt8)
  | failure (reason : Exception)
  | shut
  deriving DecidableEq, Repr

def items : Socket → List Item
  | [] => []
  | .data bytes :: rest => if bytes = [] then [.shut] else bytes.map .byte ++ items rest
  | .interrupted :: rest | .blocked :: rest => items rest
  | .timedOut :: rest => .failure timeoutError :: items rest
  | .closed :: _ => [.shut]
  | .failed kind :: rest => .failure (.error kind "receive failed") :: items rest

/-- The exact read of a stream. What has been read before a failure is lost. -/
def takeExact : List Item → Nat → Except Exception (List UInt8) × List Item
  | stream, 0 => (.ok [], stream)
  | [], _ => (.error timeoutError, [])
  | .byte value :: rest, need + 1 => ((takeExact rest need).1.map (value :: ·), (takeExact rest need).2)
  | .failure reason :: rest, _ => (.error reason, rest)
  | .shut :: rest, _ => (.error closedError, .shut :: rest)

theorem takeExact_zero (stream : List Item) : takeExact stream 0 = (.ok [], stream) := by
  cases stream <;> rfl

theorem takeExact_append (front : List UInt8) (stream : List Item) (more : Nat) :
    takeExact (front.map .byte ++ stream) (front.length + more) =
      ((takeExact stream more).1.map (front ++ ·), (takeExact stream more).2) := by
  induction front with
  | nil =>
    rw [List.length_nil, Nat.zero_add, map_append_nil]
    rfl
  | cons value front ih =>
    rw [List.length_cons, Nat.add_right_comm, List.map_cons, List.cons_append, takeExact, ih]
    cases (takeExact stream more).1 <;> rfl

theorem takeExact_front (front : List UInt8) (stream : List Item) {count size : Nat} (hSize : count ≤ size)
    (hCount : count ≤ front.length) :
    takeExact (front.map .byte ++ stream) size =
      ((takeExact ((front.drop count).map .byte ++ stream) (size - count)).1.map (front.take count ++ ·),
        (takeExact ((front.drop count).map .byte ++ stream) (size - count)).2) := by
  have hAppend := takeExact_append (front.take count) ((front.drop count).map .byte ++ stream) (size - count)
  rw [List.length_take, Nat.min_eq_left hCount, Nat.add_sub_cancel' hSize, ← List.append_assoc, ← List.map_append,
    List.take_append_drop] at hAppend
  exact hAppend

theorem receive_items {capacity : Nat} (hRoom : 0 < capacity) (socket : Socket) :
    match receive hRoom socket with
    | (.ok data, next) => items socket = data.val.map .byte ++ items next
    | (.error reason, next) => ∀ need, need ≠ 0 → takeExact (items socket) need = (.error reason, items next) := by
  induction socket with
  | nil =>
    rintro (_ | need) hNeed
    · exact absurd rfl hNeed
    · rfl
  | cons receipt rest ih =>
    cases receipt with
    | data bytes =>
      by_cases hNone : bytes = []
      · subst hNone
        rintro (_ | need) hNeed
        · exact absurd rfl hNeed
        · rfl
      · rw [receive, dif_neg hNone, items, if_neg hNone]
        dsimp only [firstBytes]
        split
        · rename_i hFits
          rw [List.take_of_length_le hFits]
        · rename_i hMore
          have hRest : bytes.drop capacity ≠ [] := by
            rw [Ne, List.drop_eq_nil_iff]
            omega
          rw [items, if_neg hRest, ← List.append_assoc, ← List.map_append, List.take_append_drop]
    | interrupted | blocked => exact ih
    | timedOut | closed | failed =>
      rintro (_ | need) hNeed
      · exact absurd rfl hNeed
      · rfl

theorem takeExact_received {stream : List Item} {data : List UInt8} {next : List Item} {need : Nat}
    (hStream : stream = data.map .byte ++ next) (hNeed : data.length ≤ need) :
    takeExact stream need =
      ((takeExact next (need - data.length)).1.map (data ++ ·), (takeExact next (need - data.length)).2) := by
  rw [hStream, ← takeExact_append, Nat.add_sub_cancel' hNeed]

theorem receiveExact_items (socket : Socket) (need : Nat) :
    takeExact (items socket) need = ((receiveExact socket need).1, items (receiveExact socket need).2) := by
  induction need using Nat.strongRecOn generalizing socket with
  | ind need ih =>
    by_cases hZero : need = 0
    · rw [hZero, takeExact_zero, receiveExact_zero]
    · have hReceive := receive_items (Nat.pos_of_ne_zero hZero) socket
      rw [receiveExact_receive (Nat.pos_of_ne_zero hZero)]
      split at hReceive
      · rename_i data next hOk
        have hLength := List.length_pos_iff.mpr data.property.1
        rw [hOk, takeExact_received hReceive data.property.2, ih _ (by omega)]
      · rename_i reason next hError
        rw [hError, hReceive need hZero]

def readerStream (reader : BufferedReader) : List Item := reader.window.map .byte ++ items reader.socket

theorem stream_empty (reader : BufferedReader) (hEmpty : reader.size = 0) :
    readerStream reader = items reader.socket := by
  rw [readerStream, window_empty reader hEmpty]
  rfl

theorem read_items (reader : BufferedReader) (missing : Nat) :
    takeExact (readerStream reader) missing = ((reader.read missing).1, readerStream (reader.read missing).2) := by
  fun_induction BufferedReader.read reader missing with
  | case1 reader => exact takeExact_zero _
  | case2 reader missing hMissing hHeld take later ih =>
    have hTake : take ≤ reader.size := Nat.min_le_right _ _
    rw [readerStream, window_consume] at ih
    change takeExact ((reader.window.drop take).map .byte ++ items reader.socket) _ = _ at ih
    rw [readerStream, window_front reader hTake,
      takeExact_front _ _ (Nat.min_le_left _ _ : take ≤ missing) (by rw [window_length]; exact hTake), ih]
  | case3 reader missing hMissing hEmpty hLarge direct =>
    rw [stream_empty reader (not_not.mp hEmpty), receiveExact_items, ← readDirect_eq]
    exact congrArg (Prod.mk _) (stream_empty { reader with socket := direct.2 } (not_not.mp hEmpty)).symm
  | case4 reader missing hMissing hEmpty hSmall reason next hReceive =>
    have hItems := receive_items (show 0 < readAheadCapacity by decide) reader.socket
    rw [hReceive] at hItems
    rw [stream_empty reader (not_not.mp hEmpty), hItems missing hMissing]
    exact congrArg (Prod.mk _) (stream_empty (reader.failed next) (not_not.mp hEmpty)).symm
  | case5 reader missing hMissing hEmpty hSmall data next hReceive ih =>
    have hItems := receive_items (show 0 < readAheadCapacity by decide) reader.socket
    rw [hReceive] at hItems
    rw [stream_empty reader (not_not.mp hEmpty), hItems, ← ih, readerStream, window_refill]
    rfl

def sourceStream (source : Source) : List Item :=
  (source.buffered.drop source.offset).map .byte ++ items source.socket

theorem source_items (source : Source) (size : Nat) :
    takeExact (sourceStream source) size = ((source.read size).1, sourceStream (source.read size).2) := by
  unfold sourceStream Source.read
  dsimp only
  rw [← List.drop_drop]
  generalize source.buffered.drop source.offset = held
  by_cases hEnough : size ≤ held.length
  · rw [takeExact_front held _ (Nat.le_refl size) hEnough, List.length_take, Nat.min_eq_left hEnough, Nat.sub_self,
      takeExact_zero, receiveExact_zero]
  · have hShort := Nat.le_of_not_le hEnough
    rw [List.take_of_length_le hShort, List.drop_length, takeExact_received rfl hShort, receiveExact_items]
    rfl

section Reads

variable {σ : Type}

def reads (read : σ → Nat → Except Exception (List UInt8) × σ) :
    σ → List Nat → List (Except Exception (List UInt8)) × σ
  | state, [] => ([], state)
  | state, size :: rest => ((read state size).1 :: (reads read (read state size).2 rest).1,
      (reads read (read state size).2 rest).2)

theorem reads_items {read : σ → Nat → Except Exception (List UInt8) × σ} {stream : σ → List Item}
    (hRead : ∀ state size, takeExact (stream state) size = ((read state size).1, stream (read state size).2))
    (state : σ) (sizes : List Nat) :
    reads takeExact (stream state) sizes = ((reads read state sizes).1, stream (reads read state sizes).2) := by
  induction sizes generalizing state with
  | nil => rfl
  | cons size rest ih => rw [reads, hRead, ih, reads]

theorem takeExact_ok {stream next : List Item} {need : Nat} {bytes : List UInt8}
    (hTake : takeExact stream need = (.ok bytes, next)) : bytes.length = need ∧ stream = bytes.map .byte ++ next := by
  induction stream generalizing need bytes with
  | nil =>
    cases need <;> cases hTake
    exact ⟨rfl, rfl⟩
  | cons item rest ih =>
    cases need with
    | zero =>
      cases hTake
      exact ⟨rfl, rfl⟩
    | succ need =>
      cases item with
      | byte value =>
        rw [takeExact] at hTake
        cases hLater : takeExact rest need with
        | mk result after =>
          rw [hLater] at hTake
          cases result with
          | error reason => cases hTake
          | ok more =>
            cases hTake
            obtain ⟨rfl, rfl⟩ := ih hLater
            exact ⟨rfl, rfl⟩
      | failure | shut => cases hTake

theorem reads_ok {stream next : List Item} {sizes : List Nat} {chunks : List (List UInt8)}
    (hReads : reads takeExact stream sizes = (chunks.map .ok, next)) :
    chunks.map List.length = sizes ∧ stream = chunks.flatten.map .byte ++ next := by
  induction sizes generalizing stream chunks with
  | nil =>
    obtain ⟨hChunks, rfl⟩ := Prod.mk.inj hReads
    rw [List.map_eq_nil_iff.mp hChunks.symm]
    exact ⟨rfl, rfl⟩
  | cons size rest ih =>
    obtain ⟨hChunks, hNext⟩ := Prod.mk.inj hReads
    cases chunks with
    | nil => cases hChunks
    | cons chunk chunks =>
      obtain ⟨hFirst, hLater⟩ := List.cons.inj hChunks
      obtain ⟨hLength, hStream⟩ := takeExact_ok (Prod.ext hFirst rfl)
      obtain ⟨hLengths, hRest⟩ := ih (Prod.ext hLater hNext)
      refine ⟨by rw [List.map_cons, hLength, hLengths], ?_⟩
      rw [List.flatten_cons, List.map_append, List.append_assoc, ← hRest]
      exact hStream

end Reads

def joined (held : List UInt8) (socket : Socket) : Socket := if held = [] then socket else .data held :: socket

theorem items_joined (held : List UInt8) (socket : Socket) :
    items (joined held socket) = held.map .byte ++ items socket := by
  unfold joined
  split
  · rename_i hNone
    rw [hNone]
    rfl
  · rename_i hSome
    rw [items, if_neg hSome]

/-- A reader that holds bytes gives what the unbuffered one gives, read by read, failures included; what it holds
in front of what its socket has left is what the unbuffered one has left. -/
structure Transparent {σ : Type} (read : σ → Nat → Except Exception (List UInt8) × σ) (held : σ → List UInt8)
    (socket : σ → Socket) (state : σ) (sizes : List Nat) : Prop where
  results : (reads read state sizes).1 = (reads receiveExact (joined (held state) (socket state)) sizes).1
  rest : (held (reads read state sizes).2).map .byte ++ items (socket (reads read state sizes).2) =
    items (reads receiveExact (joined (held state) (socket state)) sizes).2
  consecutive : ∀ chunks : List (List UInt8), (reads read state sizes).1 = chunks.map .ok →
    chunks.map List.length = sizes ∧
    (held state).map .byte ++ items (socket state) = chunks.flatten.map .byte ++
      ((held (reads read state sizes).2).map .byte ++ items (socket (reads read state sizes).2))

theorem transparent_of_items {σ : Type} {read : σ → Nat → Except Exception (List UInt8) × σ} {held : σ → List UInt8}
    {socket : σ → Socket} (hRead : ∀ state size, takeExact ((held state).map .byte ++ items (socket state)) size =
      ((read state size).1, (held (read state size).2).map .byte ++ items (socket (read state size).2)))
    (state : σ) (sizes : List Nat) : Transparent read held socket state sizes := by
  have hReads := @reads_items σ read (fun state => (held state).map .byte ++ items (socket state)) hRead state sizes
  have hDirect := reads_items receiveExact_items (joined (held state) (socket state)) sizes
  rw [items_joined] at hDirect
  obtain ⟨hResults, hRest⟩ := Prod.mk.inj (hReads.symm.trans hDirect)
  refine ⟨hResults, hRest, ?_⟩
  intro chunks hChunks
  exact reads_ok (hReads.trans (congrArg (·, _) hChunks))

/-- Both buffered readers are transparent, from every state and for every sequence of reads. -/
theorem readers_transparent (reader : BufferedReader) (source : Source) (sizes : List Nat) :
    Transparent BufferedReader.read BufferedReader.window BufferedReader.socket reader sizes ∧
    Transparent Source.read (fun source => source.buffered.drop source.offset) Source.socket source sizes :=
  ⟨transparent_of_items read_items reader sizes, transparent_of_items source_items source sizes⟩

end EasyUds.Transport.Transparency

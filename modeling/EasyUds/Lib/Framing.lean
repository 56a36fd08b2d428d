import Mathlib.Data.List.Basic

/-! # Frames on a shared byte stream

Several writers put frames on one stream. Every byte on the stream is tagged with the number of
the write that it belongs to, so that "a prefix of the frames in this order" also says that no
byte of one frame stands inside another one, whatever the bytes are.
-/

namespace EasyUds.Lib.Framing

universe u

variable {β : Type u}

structure Write (β : Type u) where
  ticket : Nat
  frame : List β
  deriving DecidableEq, Repr

def tag (ticket : Nat) (bytes : List β) : List (Nat × β) := bytes.map (Prod.mk ticket)

def Write.tagged (write : Write β) : List (Nat × β) := tag write.ticket write.frame

def stream (writes : List (Write β)) : List (Nat × β) := writes.flatMap Write.tagged

def startWrite (started : List (Write β)) (ticket : Nat) (frame : List β) : List (Write β) :=
  if started.any (·.ticket == ticket) then started else started ++ [⟨ticket, frame⟩]

/-- The wire holds complete frames of the writes, in their order, and after them at most a first
part of the next frame. -/
def Framed (writes : List (Write β)) (wire : List (Nat × β)) : Prop := wire <+: stream writes

def Ordered (writes : List (Write β)) : Prop :=
  writes.Pairwise fun first second => first.ticket < second.ticket

@[simp] theorem tag_nil (ticket : Nat) : tag ticket ([] : List β) = [] := rfl

@[simp] theorem tag_append (ticket : Nat) (left right : List β) :
    tag ticket (left ++ right) = tag ticket left ++ tag ticket right := List.map_append

@[simp] theorem stream_nil : stream ([] : List (Write β)) = [] := rfl

@[simp] theorem stream_append (left right : List (Write β)) :
    stream (left ++ right) = stream left ++ stream right := List.flatMap_append

@[simp] theorem stream_cons (write : Write β) (rest : List (Write β)) :
    stream (write :: rest) = write.tagged ++ stream rest := List.flatMap_cons

theorem stream_bytes (writes : List (Write β)) :
    (stream writes).map Prod.snd = (writes.map Write.frame).flatten := by
  induction writes with
  | nil => rfl
  | cons write rest ih =>
    rw [stream_cons, List.map_append, ih, List.map_cons, List.flatten_cons, Write.tagged, tag, List.map_map]
    congr 1
    exact List.map_id _

theorem Framed.bytes {writes : List (Write β)} {wire : List (Nat × β)} (h : Framed writes wire) :
    wire.map Prod.snd <+: (writes.map Write.frame).flatten := by
  rw [← stream_bytes]
  exact h.map Prod.snd

/-- A byte that stands at the same place in every frame stands there in every stream of frames. -/
theorem common_byte {frames : List (List β)} {bytes : List β} {place : Nat} {common byte : β}
    (hCommon : ∀ frame ∈ frames, frame[place]? = some common) (hBytes : bytes <+: frames.flatten)
    (hByte : bytes[place]? = some byte) : byte = common := by
  obtain ⟨later, hBytes⟩ := hBytes
  have hFlatten : frames.flatten[place]? = some byte := by
    rw [← hBytes, List.getElem?_append_left (List.getElem?_eq_some_iff.mp hByte).1, hByte]
  cases frames with
  | nil => simp at hFlatten
  | cons frame rest =>
    have hFirst := hCommon frame List.mem_cons_self
    rw [List.flatten_cons, List.getElem?_append_left (List.getElem?_eq_some_iff.mp hFirst).1,
      hFirst] at hFlatten
    exact (Option.some.inj hFlatten).symm

theorem startWrite_of_fresh {started : List (Write β)} {ticket : Nat} (frame : List β)
    (h : ∀ write ∈ started, write.ticket < ticket) :
    startWrite started ticket frame = started ++ [⟨ticket, frame⟩] := by
  rw [startWrite, if_neg]
  simp only [List.any_eq_true, beq_iff_eq, not_exists, not_and]
  intro write hWrite hEq
  exact absurd hEq (Nat.ne_of_lt (h write hWrite))

theorem startWrite_of_begun {started : List (Write β)} {ticket : Nat} (frame : List β)
    (h : ∃ write ∈ started, write.ticket = ticket) : startWrite started ticket frame = started := by
  rw [startWrite, if_pos]
  simpa only [List.any_eq_true, beq_iff_eq] using h

theorem startWrite_mem {started : List (Write β)} {ticket : Nat} {frame : List β} {write : Write β}
    (h : write ∈ startWrite started ticket frame) : write ∈ started ∨ write = ⟨ticket, frame⟩ := by
  rw [startWrite] at h
  split at h
  · exact .inl h
  · simpa using h

end EasyUds.Lib.Framing

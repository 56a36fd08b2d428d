import Mathlib.Data.List.Basic

/-! # Decoders that read blocks

A decoder collects a block whose size its mode announces and then moves to the next mode, which may
depend on the block. Whether the bytes come one by one or in chunks makes no difference to it. A mode
without a size reads nothing more.
-/

namespace EasyUds.Lib

universe u v w

structure BlockDecoder (Byte : Type u) (Mode : Type v) (Event : Type w) where
  size : Mode → Option Nat
  finish : Mode → List Byte → Mode × List Event

namespace BlockDecoder

variable {Byte : Type u} {Mode : Type v} {Event : Type w}

structure Cursor (Byte : Type u) (Mode : Type v) where
  mode : Mode
  held : List Byte
  deriving DecidableEq

def feed (D : BlockDecoder Byte Mode Event) (c : Cursor Byte Mode) (byte : Byte) :
    Cursor Byte Mode × List Event :=
  match D.size c.mode with
  | none => (c, [])
  | some size =>
    if c.held.length + 1 = size then
      let block := D.finish c.mode (c.held ++ [byte])
      (⟨block.1, []⟩, block.2)
    else (⟨c.mode, c.held ++ [byte]⟩, [])

def run (D : BlockDecoder Byte Mode Event) (c : Cursor Byte Mode) : List Byte → Cursor Byte Mode × List Event
  | [] => (c, [])
  | byte :: rest =>
    let first := D.feed c byte
    let later := D.run first.1 rest
    (later.1, first.2 ++ later.2)

variable {mode : Mode}

section Runs

variable {D : BlockDecoder Byte Mode Event} {c : Cursor Byte Mode}

@[simp] theorem run_nil : D.run c [] = (c, []) := rfl

theorem run_append (front rest : List Byte) :
    D.run c (front ++ rest) =
      ((D.run (D.run c front).1 rest).1, (D.run c front).2 ++ (D.run (D.run c front).1 rest).2) := by
  induction front generalizing c with
  | nil => rfl
  | cons byte front ih =>
    rw [List.cons_append, run, run, ih]
    simp only [List.append_assoc]

theorem run_append_of_eq {front rest : List Byte} {middle last : Cursor Byte Mode} {events later : List Event}
    (hFront : D.run c front = (middle, events)) (hRest : D.run middle rest = (last, later)) :
    D.run c (front ++ rest) = (last, events ++ later) := by
  rw [run_append, hFront, hRest]

theorem run_ended (hEnded : D.size c.mode = none) (bytes : List Byte) : D.run c bytes = (c, []) := by
  induction bytes with
  | nil => rfl
  | cons byte rest ih =>
    have hFeed : D.feed c byte = (c, []) := by rw [feed, hEnded]
    rw [run, hFeed, ih]
    rfl

theorem run_short {size : Nat} (hSize : D.size mode = some size) {held chunk : List Byte}
    (hShort : held.length + chunk.length < size) :
    D.run ⟨mode, held⟩ chunk = (⟨mode, held ++ chunk⟩, []) := by
  induction chunk generalizing held with
  | nil => rw [List.append_nil, run_nil]
  | cons byte rest ih =>
    rw [List.length_cons] at hShort
    have hFeed : D.feed ⟨mode, held⟩ byte = (⟨mode, held ++ [byte]⟩, []) := by
      rw [feed]
      simp only [hSize]
      rw [if_neg (by omega)]
    have hRest : D.run ⟨mode, held ++ [byte]⟩ rest = (⟨mode, (held ++ [byte]) ++ rest⟩, []) := by
      apply ih
      rw [List.length_append, List.length_singleton]
      omega
    rw [run, hFeed, hRest, List.append_assoc]
    rfl

theorem run_complete {size : Nat} (hSize : D.size mode = some size) {held chunk : List Byte} (hSome : chunk ≠ [])
    (hFull : held.length + chunk.length = size) :
    D.run ⟨mode, held⟩ chunk =
      (⟨(D.finish mode (held ++ chunk)).1, []⟩, (D.finish mode (held ++ chunk)).2) := by
  obtain ⟨front, byte, rfl⟩ := (List.eq_nil_or_concat chunk).resolve_left hSome
  rw [List.concat_eq_append, List.length_append, List.length_singleton] at hFull
  have hFront : D.run ⟨mode, held⟩ front = (⟨mode, held ++ front⟩, []) := run_short hSize (by omega)
  have hLast : D.feed ⟨mode, held ++ front⟩ byte =
      (⟨(D.finish mode (held ++ front ++ [byte])).1, []⟩, (D.finish mode (held ++ front ++ [byte])).2) := by
    rw [feed]
    simp only [hSize]
    rw [if_pos (by rw [List.length_append]; omega)]
  rw [List.concat_eq_append, run_append, hFront, run, run_nil, hLast, List.append_assoc]
  simp only [List.nil_append, List.append_nil]

end Runs

section Frames

variable {D : BlockDecoder Byte Mode Event} {Frame : Type u} {encode : Frame → List Byte}
  {event : Frame → Event} {Boundary : Mode → Prop}

variable {frames : List Frame}

/-- Frames that lead from boundary to boundary are decoded one after the other. -/
theorem run_frames (hFrame : ∀ frame ∈ frames, ∀ mode, Boundary mode →
      ∃ next, Boundary next ∧ D.run ⟨mode, []⟩ (encode frame) = (⟨next, []⟩, [event frame])) (hMode : Boundary mode) :
    ∃ last, Boundary last ∧ D.run ⟨mode, []⟩ (frames.flatMap encode) = (⟨last, []⟩, frames.map event) := by
  induction frames generalizing mode with
  | nil => exact ⟨mode, hMode, rfl⟩
  | cons frame rest ih =>
    obtain ⟨next, hNext, hFirst⟩ := hFrame frame (List.mem_cons_self ..) mode hMode
    obtain ⟨last, hLast, hRest⟩ := ih (fun frame hMem => hFrame frame (List.mem_cons_of_mem _ hMem)) hNext
    refine ⟨last, hLast, ?_⟩
    rw [List.flatMap_cons, run_append_of_eq hFirst hRest]
    rfl

/-- A cut in front of or within the first of the frames: its bytes before the cut, and all bytes
behind the cut. -/
inductive Cut (encode : Frame → List Byte) : List Frame → List Byte → List Byte → Prop
  | last : Cut encode [] [] []
  | within {frame : Frame} {later : List Frame} {front rest : List Byte} :
      encode frame = front ++ rest → rest ≠ [] → Cut encode (frame :: later) front (rest ++ later.flatMap encode)

theorem Cut.short {front rest : List Byte} (h : Cut encode frames front rest) :
    ∀ frame ∈ frames.head?, front.length < (encode frame).length := by
  cases h with
  | last => nofun
  | within hFrame hRest =>
    rintro frame ⟨⟩
    rw [hFrame, List.length_append]
    exact Nat.lt_add_of_pos_right (List.length_pos_of_ne_nil hRest)

theorem Cut.complete {front rest : List Byte} (h : Cut encode frames front rest) (hRest : rest = []) :
    frames = [] ∧ front = [] := by
  cases h with
  | last => exact ⟨rfl, rfl⟩
  | within _ hSome => exact absurd (List.append_eq_nil_iff.mp hRest).1 hSome

theorem exists_cut {front rest : List Byte} (hBytes : frames.flatMap encode = front ++ rest) :
    ∃ done later part, frames = done ++ later ∧ front = done.flatMap encode ++ part ∧
      Cut encode later part rest := by
  induction frames generalizing front with
  | nil =>
    obtain ⟨rfl, rfl⟩ := List.append_eq_nil_iff.mp hBytes.symm
    exact ⟨[], [], [], rfl, rfl, .last⟩
  | cons frame frames ih =>
    rw [List.flatMap_cons] at hBytes
    by_cases hWhole : (encode frame).length ≤ front.length
    · obtain ⟨tail, rfl⟩ : encode frame <+: front :=
        List.prefix_of_prefix_length_le ⟨_, hBytes⟩ ⟨_, rfl⟩ hWhole
      rw [List.append_assoc, List.append_cancel_left_eq] at hBytes
      obtain ⟨done, later, part, rfl, rfl, hCut⟩ := ih hBytes
      refine ⟨frame :: done, later, part, rfl, ?_, hCut⟩
      rw [List.flatMap_cons, List.append_assoc]
    · obtain ⟨tail, hTail⟩ : front <+: encode frame :=
        List.prefix_of_prefix_length_le ⟨_, rfl⟩ ⟨_, hBytes⟩ (Nat.le_of_not_le hWhole)
      rw [← hTail, List.append_assoc, List.append_cancel_left_eq] at hBytes
      refine ⟨[], frame :: frames, front, rfl, rfl, ?_⟩
      rw [← hBytes]
      apply Cut.within hTail.symm
      rintro rfl
      rw [← hTail, List.append_nil] at hWhole
      exact hWhole (Nat.le_refl _)

end Frames

end BlockDecoder

end EasyUds.Lib

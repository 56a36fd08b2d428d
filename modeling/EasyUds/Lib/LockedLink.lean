import EasyUds.Lib.Framing
import Mathlib.Logic.Function.Basic

/-! # Locked writes on a shared link

Any number of writers share a byte stream. A writer takes the lock, hands its frame to the link
piece by piece and frees the lock, either because the frame is complete or because it gives the
write up; a writer that has given up later shuts the link down. The rule that keeps the frames
whole is the premise of `Step.acquire`: nobody takes the lock between the moment at which a writer
gives up inside its frame and the moment at which it shuts the link down.
-/

namespace EasyUds.Lib.LockedLink

open Lib.Framing

universe u

variable {β : Type u}

inductive Phase (β : Type u)
  | idle
  | writing (frame rest : List β)
  | failed (frame rest : List β)

structure Link (β : Type u) where
  wire : List (Nat × β)
  started : List (Write β)
  tickets : Nat
  shutdown : Bool
  owner : Option Nat
  phase : Nat → Phase β

def Phase.Torn (phase : Phase β) : Prop :=
  ∃ frame rest, phase = .failed frame rest ∧ rest.length < frame.length

inductive Step (IsFrame : List β → Prop) : Link β → Link β → Prop
  | stutter (l : Link β) : Step IsFrame l l
  | acquire {l : Link β} {index : Nat} {frame : List β} :
      l.owner = none → (∀ other, ¬ (l.phase other).Torn) → IsFrame frame → frame ≠ [] →
      Step IsFrame l { l with
        owner := some index
        tickets := l.tickets + 1
        phase := Function.update l.phase index (.writing frame frame) }
  | send {l : Link β} {index count : Nat} {frame rest : List β} :
      l.phase index = .writing frame rest → l.shutdown = false → 0 < count → count < rest.length →
      Step IsFrame l { l with
        wire := l.wire ++ tag l.tickets (rest.take count)
        started := startWrite l.started l.tickets frame
        phase := Function.update l.phase index (.writing frame (rest.drop count)) }
  | complete {l : Link β} {index : Nat} {frame rest : List β} :
      l.phase index = .writing frame rest → l.shutdown = false →
      Step IsFrame l { l with
        wire := l.wire ++ tag l.tickets rest
        started := startWrite l.started l.tickets frame
        owner := none
        phase := Function.update l.phase index .idle }
  | fail {l : Link β} {index : Nat} {frame rest : List β} :
      l.phase index = .writing frame rest →
      Step IsFrame l { l with
        owner := none
        phase := Function.update l.phase index (.failed frame rest) }
  | close {l : Link β} {index : Nat} {frame rest : List β} :
      l.phase index = .failed frame rest →
      Step IsFrame l { l with
        shutdown := true
        phase := Function.update l.phase index .idle }
  | shut (l : Link β) : Step IsFrame l { l with shutdown := true }

/-- The write of the owner: before its first byte, or inside its frame. -/
def Writing (l : Link β) (frame rest : List β) : Prop :=
  ((∀ write ∈ l.started, write.ticket < l.tickets) ∧ rest = frame ∧
      (l.wire = stream l.started ∨ l.shutdown = true)) ∨
    ((∃ write ∈ l.started, write.ticket = l.tickets) ∧ rest.length < frame.length ∧
      l.wire ++ tag l.tickets rest = stream l.started)

structure Inv (IsFrame : List β → Prop) (l : Link β) : Prop where
  frames : ∀ write ∈ l.started, IsFrame write.frame
  tickets : ∀ write ∈ l.started, write.ticket ≤ l.tickets
  framed : Framed l.started l.wire
  writing : ∀ index frame rest, l.phase index = .writing frame rest →
    l.owner = some index ∧ IsFrame frame ∧ rest ≠ [] ∧ Writing l frame rest
  free : l.owner = none →
    l.wire = stream l.started ∨ l.shutdown = true ∨ ∃ index, (l.phase index).Torn
  torn : ∀ index, (l.phase index).Torn → l.owner = none

/-- No byte follows: the link is shut down, or a writer stands between its torn frame and the
shutdown. -/
def Stopped (l : Link β) : Prop := l.shutdown = true ∨ ∃ index, (l.phase index).Torn

variable {frame : List β} {index : Nat} {phases : Nat → Phase β} {phase : Phase β}

theorem Phase.not_torn_idle : ¬ (Phase.idle : Phase β).Torn := by
  rintro ⟨frame, rest, hEq, _⟩
  cases hEq

theorem Phase.not_torn_writing (frame rest : List β) : ¬ (Phase.writing frame rest).Torn := by
  rintro ⟨frame', rest', hEq, _⟩
  cases hEq

variable {IsFrame : List β → Prop} {l next : Link β}

theorem Inv.extend (hInv : Inv IsFrame l) {bytes left : List β}
    (hPhase : l.phase index = .writing frame (bytes ++ left)) (hOpen : l.shutdown = false) :
    (∃ write ∈ startWrite l.started l.tickets frame, write.ticket = l.tickets) ∧
      l.wire ++ tag l.tickets bytes ++ tag l.tickets left =
        stream (startWrite l.started l.tickets frame) := by
  obtain ⟨_, _, _, ⟨hFresh, hWhole, hWire⟩ | ⟨hBegun, _, hWire⟩⟩ := hInv.writing index _ _ hPhase
  · rw [startWrite_of_fresh frame hFresh]
    refine ⟨⟨_, List.mem_append_right _ List.mem_cons_self, rfl⟩, ?_⟩
    have hComplete : l.wire = stream l.started := hWire.resolve_right (by simp [hOpen])
    simp only [stream_append, stream_cons, stream_nil, Write.tagged, ← hWhole, tag_append, hComplete,
      List.append_assoc, List.append_nil]
  · rw [startWrite_of_begun frame hBegun]
    refine ⟨hBegun, ?_⟩
    rw [← hWire, tag_append, List.append_assoc]

theorem Inv.extend_frames (hInv : Inv IsFrame l) {rest : List β} (hPhase : l.phase index = .writing frame rest) :
    ∀ write ∈ startWrite l.started l.tickets frame, IsFrame write.frame ∧ write.ticket ≤ l.tickets := by
  intro write hWrite
  obtain hOld | rfl := startWrite_mem hWrite
  · exact ⟨hInv.frames write hOld, hInv.tickets write hOld⟩
  · exact ⟨(hInv.writing index _ _ hPhase).2.1, Nat.le_refl _⟩

theorem Inv.not_torn (hInv : Inv IsFrame l) {rest : List β} (hPhase : l.phase index = .writing frame rest)
    (other : Nat) : ¬ (l.phase other).Torn := by
  intro hTorn
  have hOwner := (hInv.writing index _ _ hPhase).1
  rw [hInv.torn other hTorn] at hOwner
  cases hOwner

theorem update_writing {other : Nat} {rest : List β}
    (h : Function.update phases index phase other = .writing frame rest) :
    (other = index ∧ phase = .writing frame rest) ∨
      (other ≠ index ∧ phases other = .writing frame rest) := by
  by_cases hEq : other = index
  · subst hEq
    rw [Function.update_self] at h
    exact .inl ⟨rfl, h⟩
  · rw [Function.update_of_ne hEq] at h
    exact .inr ⟨hEq, h⟩

theorem update_torn {other : Nat} (h : (Function.update phases index phase other).Torn) :
    phase.Torn ∨ (phases other).Torn := by
  by_cases hEq : other = index
  · subst hEq
    rw [Function.update_self] at h
    exact .inl h
  · rw [Function.update_of_ne hEq] at h
    exact .inr h

theorem Inv.writing_update (hInv : Inv IsFrame l) {other : Nat} {rest frame' rest' : List β}
    (hPhase : l.phase index = .writing frame rest)
    (hOther : Function.update l.phase index phase other = .writing frame' rest') :
    other = index ∧ phase = .writing frame' rest' := by
  obtain hSelf | ⟨hNe, hWriting⟩ := update_writing hOther
  · exact hSelf
  · have hOwner := (hInv.writing index _ _ hPhase).1
    rw [(hInv.writing other _ _ hWriting).1] at hOwner
    exact absurd (Option.some.inj hOwner) hNe

theorem inv_acquire (hInv : Inv IsFrame l) (hFree : l.owner = none) (hWhole : ∀ other, ¬ (l.phase other).Torn)
    (hFrame : IsFrame frame) (hNe : frame ≠ []) :
    Inv IsFrame { l with
      owner := some index
      tickets := l.tickets + 1
      phase := Function.update l.phase index (.writing frame frame) } where
  frames := hInv.frames
  tickets write hWrite := Nat.le_succ_of_le (hInv.tickets write hWrite)
  framed := hInv.framed
  writing := by
    intro other frame' rest' hOther
    obtain ⟨rfl, hEq⟩ | ⟨_, hWriting⟩ := update_writing hOther
    · cases hEq
      refine ⟨rfl, hFrame, hNe, .inl ⟨?_, rfl, ?_⟩⟩
      · intro write hWrite
        exact Nat.lt_succ_of_le (hInv.tickets write hWrite)
      · obtain hWire | hShut | ⟨torn, hTorn⟩ := hInv.free hFree
        · exact .inl hWire
        · exact .inr hShut
        · exact absurd hTorn (hWhole torn)
    · have hOwner := (hInv.writing other _ _ hWriting).1
      rw [hFree] at hOwner
      cases hOwner
  free := fun h => by cases h
  torn := by
    intro other hTorn
    obtain hTorn | hTorn := update_torn hTorn
    · exact absurd hTorn (Phase.not_torn_writing _ _)
    · exact absurd hTorn (hWhole other)

theorem inv_send (hInv : Inv IsFrame l) {count : Nat} {rest : List β} (hPhase : l.phase index = .writing frame rest)
    (hOpen : l.shutdown = false) (hPos : 0 < count) (hCount : count < rest.length) :
    Inv IsFrame { l with
      wire := l.wire ++ tag l.tickets (rest.take count)
      started := startWrite l.started l.tickets frame
      phase := Function.update l.phase index (.writing frame (rest.drop count)) } := by
  obtain ⟨hOwner, hFrame, _, hWriting⟩ := hInv.writing index _ _ hPhase
  have hSplit : l.phase index = .writing frame (rest.take count ++ rest.drop count) := by
    rw [List.take_append_drop, hPhase]
  obtain ⟨hBegun, hWire⟩ := hInv.extend hSplit hOpen
  have hShort : (rest.drop count).length < frame.length := by
    rw [List.length_drop]
    obtain ⟨_, rfl, _⟩ | ⟨_, hLess, _⟩ := hWriting <;> omega
  constructor
  · exact fun write hWrite => (hInv.extend_frames hPhase write hWrite).1
  · exact fun write hWrite => (hInv.extend_frames hPhase write hWrite).2
  · exact ⟨_, hWire⟩
  · intro other frame' rest' hOther
    obtain ⟨rfl, hEq⟩ := hInv.writing_update hPhase hOther
    cases hEq
    refine ⟨hOwner, hFrame, ?_, .inr ⟨hBegun, hShort, hWire⟩⟩
    exact List.ne_nil_of_length_pos (by rw [List.length_drop]; omega)
  · intro hFree
    cases hOwner.symm.trans hFree
  · intro other hTorn
    obtain hTorn | hTorn := update_torn hTorn
    · exact absurd hTorn (Phase.not_torn_writing _ _)
    · exact absurd hTorn (hInv.not_torn hPhase other)

theorem inv_complete (hInv : Inv IsFrame l) {rest : List β} (hPhase : l.phase index = .writing frame rest)
    (hOpen : l.shutdown = false) :
    Inv IsFrame { l with
      wire := l.wire ++ tag l.tickets rest
      started := startWrite l.started l.tickets frame
      owner := none
      phase := Function.update l.phase index .idle } := by
  have hSplit : l.phase index = .writing frame (rest ++ []) := by rw [List.append_nil, hPhase]
  have hWire : l.wire ++ tag l.tickets rest = stream (startWrite l.started l.tickets frame) := by
    simpa only [tag_nil, List.append_nil] using (hInv.extend hSplit hOpen).2
  constructor
  · exact fun write hWrite => (hInv.extend_frames hPhase write hWrite).1
  · exact fun write hWrite => (hInv.extend_frames hPhase write hWrite).2
  · exact ⟨[], by rw [List.append_nil, hWire]⟩
  · intro other frame' rest' hOther
    obtain ⟨_, hEq⟩ := hInv.writing_update hPhase hOther
    cases hEq
  · exact fun _ => .inl hWire
  · intro other hTorn
    rfl

theorem inv_fail (hInv : Inv IsFrame l) {rest : List β} (hPhase : l.phase index = .writing frame rest) :
    Inv IsFrame { l with
      owner := none
      phase := Function.update l.phase index (.failed frame rest) } where
  frames := hInv.frames
  tickets := hInv.tickets
  framed := hInv.framed
  writing := by
    intro other frame' rest' hOther
    obtain ⟨_, hEq⟩ := hInv.writing_update hPhase hOther
    cases hEq
  free := by
    intro _
    obtain ⟨_, _, _, ⟨_, _, hWire⟩ | ⟨_, hLess, _⟩⟩ := hInv.writing index _ _ hPhase
    · obtain hWire | hShut := hWire
      · exact .inl hWire
      · exact .inr (.inl hShut)
    · refine .inr (.inr ⟨index, frame, rest, ?_, hLess⟩)
      exact Function.update_self ..
  torn := fun _ _ => rfl

theorem inv_shut (hInv : Inv IsFrame l) : Inv IsFrame { l with shutdown := true } where
  frames := hInv.frames
  tickets := hInv.tickets
  framed := hInv.framed
  writing := by
    intro index frame rest hPhase
    obtain ⟨hOwner, hFrame, hRest, hWriting⟩ := hInv.writing index frame rest hPhase
    refine ⟨hOwner, hFrame, hRest, ?_⟩
    obtain ⟨hFresh, hWhole, _⟩ | hBegun := hWriting
    · exact .inl ⟨hFresh, hWhole, .inr rfl⟩
    · exact .inr hBegun
  free := fun _ => .inr (.inl rfl)
  torn := hInv.torn

theorem inv_close (hInv : Inv IsFrame l) (index : Nat) :
    Inv IsFrame { l with
      shutdown := true
      phase := Function.update l.phase index .idle } where
  frames := hInv.frames
  tickets := hInv.tickets
  framed := hInv.framed
  writing := by
    intro other frame' rest' hOther
    obtain ⟨_, hEq⟩ | ⟨_, hWriting⟩ := update_writing hOther
    · cases hEq
    · exact (inv_shut hInv).writing other frame' rest' hWriting
  free := fun _ => .inr (.inl rfl)
  torn := by
    intro other hTorn
    obtain hTorn | hTorn := update_torn hTorn
    · exact absurd hTorn Phase.not_torn_idle
    · exact hInv.torn other hTorn

theorem Step.inv (h : Step IsFrame l next) (hInv : Inv IsFrame l) : Inv IsFrame next := by
  cases h with
  | stutter => exact hInv
  | acquire hFree hWhole hFrame hNe => exact inv_acquire hInv hFree hWhole hFrame hNe
  | send hPhase hOpen hPos hCount => exact inv_send hInv hPhase hOpen hPos hCount
  | complete hPhase hOpen => exact inv_complete hInv hPhase hOpen
  | fail hPhase => exact inv_fail hInv hPhase
  | close => exact inv_close hInv _
  | shut => exact inv_shut hInv

/-- Once a write has stopped inside its frame, the wire never changes again. -/
theorem Step.stopped (h : Step IsFrame l next) (hInv : Inv IsFrame l) (hStopped : Stopped l) :
    Stopped next ∧ next.wire = l.wire := by
  cases h with
  | stutter => exact ⟨hStopped, rfl⟩
  | acquire _ hWhole _ _ =>
    obtain hShut | ⟨index, hTorn⟩ := hStopped
    · exact ⟨.inl hShut, rfl⟩
    · exact absurd hTorn (hWhole index)
  | send hPhase hOpen _ _ | complete hPhase hOpen =>
    obtain hShut | ⟨index, hTorn⟩ := hStopped
    · simp [hOpen] at hShut
    · exact absurd hTorn (hInv.not_torn hPhase index)
  | fail hPhase =>
    obtain hShut | ⟨index, hTorn⟩ := hStopped
    · exact ⟨.inl hShut, rfl⟩
    · exact absurd hTorn (hInv.not_torn hPhase index)
  | close _ | shut => exact ⟨.inl rfl, rfl⟩

end EasyUds.Lib.LockedLink

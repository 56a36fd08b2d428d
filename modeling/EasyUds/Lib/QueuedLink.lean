import EasyUds.Lib.Framing

/-! # Locked writes with a backlog

Writers share a byte stream under a lock. A writer sends what the link accepts at once, but only
while no older bytes are owed, and leaves the rest of its frame in the backlog, which is drained in
order. A writer that can neither send nor queue the rest of its frame abandons it; the link is then
torn until it is shut down. The rule that keeps the frames whole is the premise of `Step.enter`: no
write begins on a torn link that is not yet shut down.
-/

namespace EasyUds.Lib.QueuedLink

open Lib.Framing

universe u

variable {β : Type u}

structure Hand (β : Type u) where
  frame : List β
  rest : List β

structure Link (β : Type u) where
  wire : List (Nat × β)
  accepted : List (Write β)
  tickets : Nat
  backlog : List (Nat × β)
  hand : Option (Hand β)
  torn : Bool
  shutdown : Bool

inductive Step (IsFrame : List β → Prop) : Link β → Link β → Prop
  | stutter (l : Link β) : Step IsFrame l l
  | enter {l : Link β} {frame : List β} :
      l.hand = none → (l.torn = true → l.shutdown = true) → IsFrame frame →
      Step IsFrame l { l with tickets := l.tickets + 1, hand := some ⟨frame, frame⟩ }
  | send {l : Link β} {frame : List β} {count : Nat} :
      l.hand = some ⟨frame, frame⟩ → l.backlog = [] → l.shutdown = false →
      0 < count → count ≤ frame.length →
      Step IsFrame l { l with
        wire := l.wire ++ tag l.tickets (frame.take count)
        accepted := l.accepted ++ [⟨l.tickets, frame⟩]
        hand := if count = frame.length then none else some ⟨frame, frame.drop count⟩ }
  | abandon {l : Link β} {frame rest : List β} :
      l.hand = some ⟨frame, rest⟩ →
      Step IsFrame l { l with hand := none, torn := l.torn || decide (rest.length < frame.length) }
  | enqueue {l : Link β} {frame rest : List β} :
      l.hand = some ⟨frame, rest⟩ →
      Step IsFrame l { l with
        accepted := if rest.length < frame.length then l.accepted else l.accepted ++ [⟨l.tickets, frame⟩]
        backlog := l.backlog ++ tag l.tickets rest
        hand := none }
  | drain {l : Link β} {sent rest : List (Nat × β)} :
      l.hand = none → l.shutdown = false → l.backlog = sent ++ rest →
      Step IsFrame l { l with wire := l.wire ++ sent, backlog := rest }
  | shut (l : Link β) (torn : Bool) : Step IsFrame l { l with shutdown := true, torn }
  | clear {l : Link β} : l.shutdown = true → Step IsFrame l { l with backlog := [] }

def owed (l : Link β) : List (Nat × β) :=
  match l.hand with
  | some hand =>
    if hand.rest.length < hand.frame.length then l.backlog ++ tag l.tickets hand.rest else l.backlog
  | none => l.backlog

structure Inv (IsFrame : List β → Prop) (l : Link β) : Prop where
  frames : ∀ write ∈ l.accepted, IsFrame write.frame
  order : Ordered l.accepted
  tickets : ∀ write ∈ l.accepted, write.ticket ≤ l.tickets
  framed : Framed l.accepted l.wire
  hand : ∀ frame rest, l.hand = some ⟨frame, rest⟩ → IsFrame frame ∧
    ((rest = frame ∧ ∀ write ∈ l.accepted, write.ticket < l.tickets) ∨
      (rest.length < frame.length ∧ l.backlog = []))
  whole : l.shutdown = true ∨ (l.torn = true ∧ l.backlog = [] ∧ l.hand = none) ∨
    l.wire ++ owed l = stream l.accepted

variable {IsFrame : List β → Prop} {l next : Link β}
variable {frame : List β} {accepted : List (Write β)}

theorem Step.of_eq {other : Link β} (h : Step IsFrame l next) (hEq : next = other) : Step IsFrame l other :=
  hEq ▸ h

theorem owed_of_none (h : l.hand = none) : owed l = l.backlog := by
  rw [owed, h]

theorem owed_of_whole (h : l.hand = some ⟨frame, frame⟩) : owed l = l.backlog := by
  rw [owed, h]
  exact if_neg (Nat.lt_irrefl _)

theorem owed_of_part {rest : List β} (h : l.hand = some ⟨frame, rest⟩) (hLess : rest.length < frame.length) :
    owed l = l.backlog ++ tag l.tickets rest := by
  rw [owed, h]
  exact if_pos hLess

theorem Inv.accept_frames (hInv : Inv IsFrame l) (hFrame : IsFrame frame) :
    ∀ write ∈ l.accepted ++ [⟨l.tickets, frame⟩], IsFrame write.frame ∧ write.ticket ≤ l.tickets := by
  intro write hWrite
  obtain hOld | hNew := List.mem_append.mp hWrite
  · exact ⟨hInv.frames write hOld, hInv.tickets write hOld⟩
  · cases List.mem_singleton.mp hNew
    exact ⟨hFrame, Nat.le_refl _⟩

theorem accept_order {ticket : Nat} (frame : List β) (hOrder : Ordered accepted)
    (hFresh : ∀ write ∈ accepted, write.ticket < ticket) :
    Ordered (accepted ++ [⟨ticket, frame⟩]) := by
  rw [Ordered, List.pairwise_append]
  refine ⟨hOrder, List.pairwise_singleton _ _, ?_⟩
  intro first hFirst second hSecond
  cases List.mem_singleton.mp hSecond
  exact hFresh first hFirst

theorem stream_accept (accepted : List (Write β)) (ticket : Nat) (frame : List β) :
    stream (accepted ++ [⟨ticket, frame⟩]) = stream accepted ++ tag ticket frame := by
  simp only [stream_append, stream_cons, stream_nil, Write.tagged, List.append_nil]

theorem framed_accept {wire : List (Nat × β)} (h : Framed accepted wire) (write : Write β) :
    Framed (accepted ++ [write]) wire := by
  rw [Framed, stream_append]
  exact h.trans (List.prefix_append _ _)

section Steps

variable (hInv : Inv IsFrame l)
include hInv

theorem Inv.whole_of_hand {hand : Hand β} (hHand : l.hand = some hand) :
    l.shutdown = true ∨ l.wire ++ owed l = stream l.accepted := by
  obtain hShut | ⟨_, _, hNone⟩ | hWhole := hInv.whole
  · exact .inl hShut
  · rw [hHand] at hNone
    cases hNone
  · exact .inr hWhole

theorem inv_enter (hNone : l.hand = none) (hTorn : l.torn = true → l.shutdown = true) (hFrame : IsFrame frame) :
    Inv IsFrame { l with tickets := l.tickets + 1, hand := some ⟨frame, frame⟩ } where
  frames := hInv.frames
  order := hInv.order
  tickets write hWrite := Nat.le_succ_of_le (hInv.tickets write hWrite)
  framed := hInv.framed
  hand := by
    intro other rest hHand
    cases hHand
    exact ⟨hFrame, .inl ⟨rfl, fun write hWrite => Nat.lt_succ_of_le (hInv.tickets write hWrite)⟩⟩
  whole := by
    obtain hShut | ⟨hTear, _⟩ | hWhole := hInv.whole
    · exact .inl hShut
    · exact .inl (hTorn hTear)
    · refine .inr (.inr ?_)
      rw [owed_of_none hNone] at hWhole
      rw [owed_of_whole rfl]
      exact hWhole

theorem inv_send {count : Nat} (hHand : l.hand = some ⟨frame, frame⟩) (hBacklog : l.backlog = [])
    (hOpen : l.shutdown = false) (hPos : 0 < count) (hCount : count ≤ frame.length) : Inv IsFrame { l with
      wire := l.wire ++ tag l.tickets (frame.take count)
      accepted := l.accepted ++ [⟨l.tickets, frame⟩]
      hand := if count = frame.length then none else some ⟨frame, frame.drop count⟩ } := by
  obtain ⟨hFrame, hFresh⟩ := hInv.hand frame frame hHand
  obtain ⟨_, hFresh⟩ | ⟨hLess, _⟩ := hFresh
  case inr => exact absurd hLess (Nat.lt_irrefl _)
  have hWire : l.wire = stream l.accepted := by
    obtain hShut | hWhole := hInv.whole_of_hand hHand
    · rw [hOpen] at hShut
      cases hShut
    · rw [owed_of_whole hHand, hBacklog, List.append_nil] at hWhole
      exact hWhole
  have hSplit : l.wire ++ tag l.tickets (frame.take count) ++ tag l.tickets (frame.drop count) =
      stream (l.accepted ++ [⟨l.tickets, frame⟩]) := by
    rw [stream_accept, hWire, List.append_assoc, ← tag_append, List.take_append_drop]
  constructor
  · exact fun write hWrite => (hInv.accept_frames hFrame write hWrite).1
  · exact accept_order frame hInv.order hFresh
  · exact fun write hWrite => (hInv.accept_frames hFrame write hWrite).2
  · exact ⟨_, hSplit⟩
  · intro other rest hOther
    dsimp only at hOther
    split at hOther
    · cases hOther
    · cases hOther
      refine ⟨hFrame, .inr ⟨?_, hBacklog⟩⟩
      rw [List.length_drop]
      omega
  · refine .inr (.inr ?_)
    by_cases hAll : count = frame.length
    · rw [owed_of_none (if_pos hAll), hBacklog, List.append_nil]
      rw [hAll, List.drop_length, tag_nil, List.append_nil] at hSplit
      rw [hAll]
      exact hSplit
    · rw [owed_of_part (if_neg hAll) (by rw [List.length_drop]; omega), hBacklog, List.nil_append]
      exact hSplit

theorem inv_abandon {rest : List β} (hHand : l.hand = some ⟨frame, rest⟩) :
    Inv IsFrame { l with hand := none, torn := l.torn || decide (rest.length < frame.length) } where
  frames := hInv.frames
  order := hInv.order
  tickets := hInv.tickets
  framed := hInv.framed
  hand := fun _ _ hNone => by cases hNone
  whole := by
    obtain hShut | hWhole := hInv.whole_of_hand hHand
    · exact .inl hShut
    · obtain ⟨_, ⟨rfl, _⟩ | ⟨hLess, hBacklog⟩⟩ := hInv.hand frame rest hHand
      · refine .inr (.inr ?_)
        rw [owed_of_whole hHand] at hWhole
        exact hWhole
      · exact .inr (.inl ⟨by simp [hLess], hBacklog, rfl⟩)

theorem inv_enqueue {rest : List β} (hHand : l.hand = some ⟨frame, rest⟩) : Inv IsFrame { l with
      accepted := if rest.length < frame.length then l.accepted else l.accepted ++ [⟨l.tickets, frame⟩]
      backlog := l.backlog ++ tag l.tickets rest
      hand := none } := by
  obtain ⟨hFrame, ⟨rfl, hFresh⟩ | ⟨hLess, _⟩⟩ := hInv.hand frame rest hHand
  · rw [if_neg (Nat.lt_irrefl _)]
    constructor
    · exact fun write hWrite => (hInv.accept_frames hFrame write hWrite).1
    · exact accept_order rest hInv.order hFresh
    · exact fun write hWrite => (hInv.accept_frames hFrame write hWrite).2
    · exact framed_accept hInv.framed _
    · exact fun _ _ hNone => by cases hNone
    · obtain hShut | hWhole := hInv.whole_of_hand hHand
      · exact .inl hShut
      · refine .inr (.inr ?_)
        rw [owed_of_whole hHand] at hWhole
        rw [owed_of_none rfl, stream_accept, ← hWhole, List.append_assoc]
  · rw [if_pos hLess]
    constructor
    · exact hInv.frames
    · exact hInv.order
    · exact hInv.tickets
    · exact hInv.framed
    · exact fun _ _ hNone => by cases hNone
    · obtain hShut | hWhole := hInv.whole_of_hand hHand
      · exact .inl hShut
      · refine .inr (.inr ?_)
        rw [owed_of_part hHand hLess] at hWhole
        exact hWhole

theorem inv_drain {sent rest : List (Nat × β)} (hNone : l.hand = none) (hOpen : l.shutdown = false)
    (hBacklog : l.backlog = sent ++ rest) : Inv IsFrame { l with wire := l.wire ++ sent, backlog := rest } := by
  have hHand : ∀ frame rest', l.hand = some ⟨frame, rest'⟩ → False := by
    intro frame rest' hSome
    rw [hNone] at hSome
    cases hSome
  obtain hShut | ⟨hTorn, hNil, _⟩ | hWhole := hInv.whole
  · rw [hOpen] at hShut
    cases hShut
  · rw [hNil] at hBacklog
    obtain ⟨rfl, rfl⟩ := List.nil_eq_append_iff.mp hBacklog
    refine ⟨hInv.frames, hInv.order, hInv.tickets, ?_, fun _ _ h => (hHand _ _ h).elim, ?_⟩
    · rw [List.append_nil]
      exact hInv.framed
    · exact .inr (.inl ⟨hTorn, rfl, hNone⟩)
  · rw [owed_of_none hNone, hBacklog, ← List.append_assoc] at hWhole
    refine ⟨hInv.frames, hInv.order, hInv.tickets, ⟨_, hWhole⟩, fun _ _ h => (hHand _ _ h).elim, ?_⟩
    refine .inr (.inr ?_)
    rw [owed_of_none]
    · exact hWhole
    · exact hNone

theorem inv_shut (torn : Bool) : Inv IsFrame { l with shutdown := true, torn } :=
  ⟨hInv.frames, hInv.order, hInv.tickets, hInv.framed, hInv.hand, .inl rfl⟩

theorem inv_clear (hShut : l.shutdown = true) : Inv IsFrame { l with backlog := [] } where
  frames := hInv.frames
  order := hInv.order
  tickets := hInv.tickets
  framed := hInv.framed
  hand := by
    intro frame rest hHand
    obtain ⟨hFrame, hWhole | ⟨hLess, _⟩⟩ := hInv.hand frame rest hHand
    · exact ⟨hFrame, .inl hWhole⟩
    · exact ⟨hFrame, .inr ⟨hLess, rfl⟩⟩
  whole := .inl hShut

end Steps

theorem Step.inv (h : Step IsFrame l next) (hInv : Inv IsFrame l) : Inv IsFrame next := by
  cases h with
  | stutter => exact hInv
  | enter hNone hTorn hFrame => exact inv_enter hInv hNone hTorn hFrame
  | send hHand hBacklog hOpen hPos hCount => exact inv_send hInv hHand hBacklog hOpen hPos hCount
  | abandon hHand => exact inv_abandon hInv hHand
  | enqueue hHand => exact inv_enqueue hInv hHand
  | drain hNone hOpen hBacklog => exact inv_drain hInv hNone hOpen hBacklog
  | shut torn => exact inv_shut hInv _
  | clear hShut => exact inv_clear hInv hShut

end EasyUds.Lib.QueuedLink

import EasyUds.Platform.WindowsReadiness

/-! # The kqueue readiness set

`control` and `wait` where the kernel has a filter for each direction instead of one mask. It applies the
changes of a call in order and stops at the first one that it refuses. What it reports is the environment's,
as long as it comes from an enabled filter.
-/

namespace EasyUds.Platform.KqueueReadiness

open WindowsReadiness (NativeSocket readable writable error hangup peerHangup maxEvents Registration Control Event)

inductive Filter
  | read
  | write
  deriving DecidableEq

def Filter.bit : Filter → UInt32
  | .read => readable
  | .write => writable

structure Knote where
  enabled : Bool
  token : UInt64
  deriving DecidableEq

abbrev Kernel := NativeSocket → Filter → Option Knote

def Kernel.put (kernel : Kernel) (fd : NativeSocket) (filter : Filter) (knote : Option Knote) : Kernel :=
  fun other direction => if other = fd ∧ direction = filter then knote else kernel other direction

structure Call where
  operation : Control
  fd : NativeSocket
  registration : Registration

/-- `set_change`, or `EV_DELETE`, which may find nothing to delete. -/
def Call.change (call : Call) (filter : Filter) : Option Knote :=
  match call.operation with
  | .remove => none
  | .add | .modify => some ⟨call.registration.mask &&& filter.bit != 0, call.registration.token⟩

/-- The kernel may refuse one of the two changes. -/
def control (kernel : Kernel) (call : Call) (refused : Option Filter) : Kernel × Bool :=
  if refused = some .read then (kernel, false)
  else
    let first := kernel.put call.fd .read (call.change .read)
    if refused = some .write then (first, false) else (first.put call.fd .write (call.change .write), true)

def run (kernel : Kernel) (calls : List (Call × Option Filter)) : Kernel :=
  calls.foldl (fun kernel call => (control kernel call.1 call.2).1) kernel

structure NativeEvent where
  fd : NativeSocket
  filter : Filter
  token : UInt64
  evError : Bool
  evEof : Bool
  deriving DecidableEq

def NativeEvent.mask (native : NativeEvent) : UInt32 :=
  native.filter.bit ||| (if native.evError then error else 0) ||| (if native.evEof then hangup ||| peerHangup else 0)

/-- The search for an event of the same descriptor among those that are already written. -/
def merge (native : NativeEvent) : List Event → List Event
  | [] => [⟨native.fd, native.token, native.mask⟩]
  | event :: rest =>
    if event.fd = native.fd then { event with mask := event.mask ||| native.mask } :: rest
    else event :: merge native rest

def wait (natives : List NativeEvent) : List Event := natives.foldl (fun events native => merge native events) []

structure Delivers (kernel : Kernel) (capacity : Nat) (natives : List NativeEvent) : Prop where
  room : natives.length ≤ min capacity maxEvents
  enabled : ∀ native ∈ natives, kernel native.fd native.filter = some ⟨true, native.token⟩

variable {kernel : Kernel} {call : Call} {fd : NativeSocket} {before after calls : List (Call × Option Filter)}
  {native : NativeEvent} {event : Event} {natives : List NativeEvent} {events : List Event}

theorem control_other {refused : Option Filter} (h : fd ≠ call.fd) :
    (control kernel call refused).1 fd = kernel fd := by
  funext filter
  unfold control
  split
  · rfl
  · dsimp only
    split <;> simp [Kernel.put, h]

theorem run_other (h : ∀ call ∈ calls, call.1.fd ≠ fd) : run kernel calls fd = kernel fd := by
  induction calls generalizing kernel with
  | nil => rfl
  | cons call calls ih =>
    obtain ⟨hCall, hCalls⟩ := List.forall_mem_cons.mp h
    rw [run, List.foldl_cons, ← run, ih hCalls, control_other hCall.symm]

/-- Whatever has happened before, a call that returns 0 decides both filters of its descriptor. -/
theorem run_last (h : ∀ later ∈ after, later.1.fd ≠ call.fd) :
    run kernel (before ++ (call, none) :: after) call.fd = call.change := by
  have hRun : run kernel (before ++ (call, none) :: after) = run (control (run kernel before) call none).1 after := by
    rw [run, List.foldl_append, List.foldl_cons]
    rfl
  rw [hRun, run_other h]
  funext filter
  cases filter <;> simp [control, Kernel.put]

theorem change_enabled {filter : Filter} {token : UInt64} (h : call.change filter = some ⟨true, token⟩) :
    call.operation ≠ .remove ∧ call.registration.token = token ∧ call.registration.mask &&& filter.bit ≠ 0 := by
  unfold Call.change at h
  split at h
  · cases h
  all_goals
    rename_i hOperation
    simp only [Option.some.injEq, Knote.mk.injEq, bne_iff_ne] at h
    exact ⟨by simp [hOperation], h.2, h.1⟩

theorem or_and_ne_zero {left right bit : UInt32} :
    (left ||| right) &&& bit ≠ 0 ↔ left &&& bit ≠ 0 ∨ right &&& bit ≠ 0 := by
  have hDistrib : (left ||| right) &&& bit = left &&& bit ||| right &&& bit := by
    apply UInt32.toBitVec_inj.mp
    simp only [UInt32.toBitVec_and, UInt32.toBitVec_or]
    ext i
    simp [Bool.and_or_distrib_right]
  rw [hDistrib, Ne, UInt32.or_eq_zero_iff, not_and_or]

theorem mask_bit (native : NativeEvent) (filter : Filter) :
    native.mask &&& filter.bit ≠ 0 ↔ native.filter = filter := by
  obtain ⟨fd, direction, token, evError, evEof⟩ := native
  unfold NativeEvent.mask
  cases direction <;> cases evError <;> cases evEof <;> cases filter <;> simp [Filter.bit] <;> decide

/-- What the loop has made of the native events so far. -/
structure Merged (natives : List NativeEvent) (events : List Event) : Prop where
  distinct : (events.map Event.fd).Nodup
  covers : ∀ native ∈ natives, native.fd ∈ events.map Event.fd
  token : ∀ event ∈ events, ∃ native ∈ natives, native.fd = event.fd ∧ native.token = event.token
  mask : ∀ event ∈ events, ∀ bit, event.mask &&& bit ≠ 0 ↔
    ∃ native ∈ natives, native.fd = event.fd ∧ native.mask &&& bit ≠ 0

theorem merge_fds (native : NativeEvent) (events : List Event) : (merge native events).map Event.fd =
    if native.fd ∈ events.map Event.fd then events.map Event.fd else events.map Event.fd ++ [native.fd] := by
  induction events with
  | nil => rfl
  | cons event rest ih =>
    rw [merge]
    split <;> grind

theorem mem_merge (hDistinct : (events.map Event.fd).Nodup)
    (h : event ∈ merge native events) : event ∈ events ∧ event.fd ≠ native.fd ∨
      (∃ old ∈ events, old.fd = native.fd ∧ event = { old with mask := old.mask ||| native.mask }) ∨
      native.fd ∉ events.map Event.fd ∧ event = ⟨native.fd, native.token, native.mask⟩ := by
  induction events with
  | nil => grind [merge]
  | cons head rest ih =>
    rw [merge] at h
    split at h <;> grind

theorem Merged.merge (hs : Merged natives events) (native : NativeEvent) :
    Merged (natives ++ [native]) (merge native events) := by
  refine ⟨?_, ?_, ?_, ?_⟩
  · rw [merge_fds]
    split
    · exact hs.distinct
    · rename_i hNew
      exact List.nodup_append.mpr ⟨hs.distinct, List.nodup_singleton _, by grind⟩
  · intro seen hSeen
    rw [merge_fds]
    grind [hs.covers]
  · intro event hEvent
    grind [mem_merge hs.distinct hEvent, hs.token]
  · intro event hEvent bit
    obtain ⟨hOld, hOther⟩ | ⟨old, hOld, hSame, rfl⟩ | ⟨hNew, rfl⟩ := mem_merge hs.distinct hEvent
    · rw [hs.mask event hOld bit]
      grind
    · rw [or_and_ne_zero, hs.mask old hOld bit]
      grind
    · grind [hs.covers]

theorem wait_merged (natives : List NativeEvent) : Merged natives (wait natives) := by
  induction natives using List.reverseRecOn with
  | nil => exact ⟨List.nodup_nil, by simp, by simp [wait], by simp [wait]⟩
  | append_singleton natives native ih =>
    rw [wait, List.foldl_append]
    exact ih.merge native

structure Answers (call : Call) (natives : List NativeEvent) (event : Event) : Prop where
  registered : call.operation ≠ .remove
  token : event.token = call.registration.token
  reported : ∀ filter : Filter, event.mask &&& filter.bit ≠ 0 ↔
    ∃ native ∈ natives, native.fd = call.fd ∧ native.filter = filter
  wanted : ∀ filter : Filter, event.mask &&& filter.bit ≠ 0 → call.registration.mask &&& filter.bit ≠ 0

/-- After any calls, some of which the kernel may have refused: a wait gives one event for each descriptor
that the kernel has reported, and it answers the last call on the descriptor, if that one has returned 0. -/
theorem wait_answers (kernel : Kernel) (before after : List (Call × Option Filter)) (call : Call)
    (natives : List NativeEvent) (capacity : Nat) (hLast : ∀ later ∈ after, later.1.fd ≠ call.fd)
    (hNatives : Delivers (run kernel (before ++ (call, none) :: after)) capacity natives) :
    (wait natives).length ≤ capacity ∧ ((wait natives).map Event.fd).Nodup ∧
      (∀ fd, fd ∈ (wait natives).map Event.fd ↔ fd ∈ natives.map NativeEvent.fd) ∧
      ∀ event ∈ wait natives, event.fd = call.fd → Answers call natives event := by
  have hMerged := wait_merged natives
  have hEnabled : ∀ native ∈ natives, native.fd = call.fd → call.change native.filter = some ⟨true, native.token⟩ := by
    intro native hNative hFd
    rw [← run_last hLast, ← hFd]
    exact hNatives.enabled native hNative
  have hFds : (wait natives).map Event.fd ⊆ natives.map NativeEvent.fd := by
    intro fd hFd
    obtain ⟨event, hEvent, rfl⟩ := List.mem_map.mp hFd
    obtain ⟨native, hNative, hSame, -⟩ := hMerged.token event hEvent
    exact List.mem_map.mpr ⟨native, hNative, hSame⟩
  have hCovers : natives.map NativeEvent.fd ⊆ (wait natives).map Event.fd := by
    intro fd hFd
    obtain ⟨native, hNative, rfl⟩ := List.mem_map.mp hFd
    exact hMerged.covers native hNative
  refine ⟨?_, hMerged.distinct, fun fd => ⟨fun hFd => hFds hFd, fun hFd => hCovers hFd⟩, ?_⟩
  · have hLength := hMerged.distinct.length_le_of_subset hFds
    rw [List.length_map, List.length_map] at hLength
    exact hLength.trans (hNatives.room.trans (Nat.min_le_left _ _))
  · intro event hEvent hFd
    obtain ⟨first, hFirst, hSame, hToken⟩ := hMerged.token event hEvent
    obtain ⟨hRegistered, hRegisteredToken, -⟩ := change_enabled (hEnabled first hFirst (hSame.trans hFd))
    have hReported : ∀ filter : Filter, event.mask &&& filter.bit ≠ 0 ↔
        ∃ native ∈ natives, native.fd = call.fd ∧ native.filter = filter := by
      intro filter
      rw [hMerged.mask event hEvent, hFd]
      simp only [mask_bit]
    refine ⟨hRegistered, hToken ▸ hRegisteredToken.symm, hReported, fun filter hMask => ?_⟩
    obtain ⟨native, hNative, hOwn, rfl⟩ := (hReported filter).mp hMask
    exact (change_enabled (hEnabled native hNative hOwn)).2.2

theorem wait_answers_bothFilters :
    Answers ⟨.add, 5, ⟨3, 9⟩⟩ [⟨5, .read, 9, false, false⟩, ⟨5, .write, 9, false, true⟩] ⟨5, 9, 27⟩ :=
  (wait_answers (fun _ _ => none) [] [] _ _ 128 (by simp) ⟨by decide, by decide⟩).2.2.2 _ (by decide) rfl

end EasyUds.Platform.KqueueReadiness

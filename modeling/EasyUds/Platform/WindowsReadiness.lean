import Mathlib.Data.List.Perm.Basic
import Mathlib.Data.List.Nodup
import EasyUds.Transport.Validation

/-! # The Windows readiness set

The registry of pollers and one call of `WSAPoll`. A hash map is a list of entries with distinct keys; the order
in which a call walks through it is any order of these entries. What a socket would report is the environment's.
-/

namespace EasyUds.Platform.WindowsReadiness

open Transport.Validation

abbrev NativeSocket := Nat

def readable : UInt32 := 1
def writable : UInt32 := 2
def error : UInt32 := 4
def hangup : UInt32 := 8
def peerHangup : UInt32 := 16

def maxEvents : Nat := 128

def pollErr : UInt16 := 0x0001
def pollHup : UInt16 := 0x0002
def pollNval : UInt16 := 0x0004
def pollWrNorm : UInt16 := 0x0010
def pollRdNorm : UInt16 := 0x0100

structure Registration where
  mask : UInt32
  token : UInt64
  deriving DecidableEq, Repr

abbrev Entry := NativeSocket × Registration

structure Poller where
  entries : List Entry
  distinct : (entries.map Prod.fst).Nodup
  deriving DecidableEq, Repr

inductive Control
  | add
  | modify
  | remove
  deriving DecidableEq, Repr

inductive Errno
  | ebadf
  | eexist
  | enoent
  deriving DecidableEq, Repr

abbrev Pollers := NativeSocket → Option Poller

namespace Poller

def empty : Poller := ⟨[], List.nodup_nil⟩

def has (poller : Poller) (fd : NativeSocket) : Bool := poller.entries.any (·.1 == fd)

theorem not_mem_of_has {poller : Poller} {fd : NativeSocket} (h : poller.has fd = false) :
    fd ∉ poller.entries.map Prod.fst := by
  rw [has, List.any_eq_false] at h
  rintro hMem
  obtain ⟨entry, hEntry, rfl⟩ := List.mem_map.mp hMem
  exact h entry hEntry (beq_self_eq_true _)

def insert (poller : Poller) (fd : NativeSocket) (registration : Registration) (hNew : poller.has fd = false) :
    Poller where
  entries := (fd, registration) :: poller.entries
  distinct := by
    rw [List.map_cons, List.nodup_cons]
    exact ⟨not_mem_of_has hNew, poller.distinct⟩

def replace (poller : Poller) (fd : NativeSocket) (registration : Registration) : Poller where
  entries := poller.entries.map fun entry => if entry.1 = fd then (fd, registration) else entry
  distinct := by
    have hKeys : (Prod.fst ∘ fun entry : Entry => if entry.1 = fd then (fd, registration) else entry) = Prod.fst := by
      funext entry
      dsimp only [Function.comp]
      split
      · rename_i hSame
        exact hSame.symm
      · rfl
    rw [List.map_map, hKeys]
    exact poller.distinct

def erase (poller : Poller) (fd : NativeSocket) : Poller where
  entries := poller.entries.filter (·.1 != fd)
  distinct := poller.distinct.sublist (List.filter_sublist.map _)

end Poller

def control (pollers : Pollers) (pollerFd : NativeSocket) (operation : Control) (fd : NativeSocket) (mask : UInt32)
    (token : UInt64) : Except Errno Pollers :=
  match pollers pollerFd with
  | none => .error .ebadf
  | some registrations =>
    match operation with
    | .add =>
      if hNew : registrations.has fd = false then
        .ok (Function.update pollers pollerFd (some (registrations.insert fd ⟨mask, token⟩ hNew)))
      else .error .eexist
    | .modify =>
      if registrations.has fd then
        .ok (Function.update pollers pollerFd (some (registrations.replace fd ⟨mask, token⟩)))
      else .error .enoent
    | .remove =>
      if registrations.has fd then .ok (Function.update pollers pollerFd (some (registrations.erase fd)))
      else .error .enoent

def nativeEvents (mask : UInt32) : UInt16 :=
  (if mask &&& readable ≠ 0 then pollRdNorm else 0) ||| (if mask &&& writable ≠ 0 then pollWrNorm else 0)

/-- What a poll call writes for a socket in a given condition: the requested events that apply, and errors and
hangups unasked. -/
def revents (condition events : UInt16) : UInt16 := condition &&& (events ||| pollErr ||| pollHup ||| pollNval)

def eventMask (revents : UInt16) : UInt32 :=
  (if revents &&& pollRdNorm ≠ 0 then readable else 0) ||| (if revents &&& pollWrNorm ≠ 0 then writable else 0) |||
    (if revents &&& pollErr ≠ 0 ∨ revents &&& pollNval ≠ 0 then error else 0) |||
    (if revents &&& pollHup ≠ 0 then hangup ||| peerHangup else 0)

structure Event where
  fd : NativeSocket
  token : UInt64
  mask : UInt32
  deriving DecidableEq, Repr

abbrev Conditions := NativeSocket → UInt16

def report (conditions : Conditions) (entry : Entry) : UInt16 :=
  revents (conditions entry.1) (nativeEvents entry.2.mask)

def polled (order : List Entry) (capacity : Nat) : List Entry := order.take (min capacity maxEvents)

def reported (conditions : Conditions) (entries : List Entry) : List Event :=
  entries.filterMap fun entry =>
    if report conditions entry = 0 then none
    else some ⟨entry.1, entry.2.token, eventMask (report conditions entry)⟩

inductive Waited
  | returned (events : List Event)
  | blocks
  | failed (errno : Errno)
  deriving DecidableEq, Repr

/-- `order` is the order in which the map of the poller is walked. A call that finds nothing ready waits, unless
its timeout is zero. -/
def wait (pollers : Pollers) (pollerFd : NativeSocket) (order : List Entry) (conditions : Conditions) (capacity : Nat)
    (timeoutMs : Int) : Waited :=
  if capacity = 0 then .returned []
  else
    match pollers pollerFd with
    | none => .failed .ebadf
    | some _ =>
      let events := reported conditions (polled order capacity)
      if events = [] ∧ timeoutMs ≠ 0 then .blocks else .returned events

/-- Whenever a registered socket is ready, a call returns with an event and looks at every ready socket. -/
def Watches (pollers : Pollers) (pollerFd : NativeSocket) (poller : Poller) (capacity : Nat) : Prop :=
  ∀ order, order.Perm poller.entries → ∀ conditions timeoutMs,
    (∃ entry ∈ poller.entries, report conditions entry ≠ 0) →
      (∃ events, wait pollers pollerFd order conditions capacity timeoutMs = .returned events ∧ events ≠ []) ∧
      ∀ entry ∈ poller.entries, report conditions entry ≠ 0 → entry ∈ polled order capacity

theorem wait_returns {pollers : Pollers} {pollerFd : NativeSocket} {poller : Poller} {order : List Entry}
    {conditions : Conditions} {capacity : Nat} {entry : Entry} (hPoller : pollers pollerFd = some poller)
    (hCapacity : 0 < capacity) (hPolled : entry ∈ polled order capacity) (hReady : report conditions entry ≠ 0)
    (timeoutMs : Int) :
    ∃ events, wait pollers pollerFd order conditions capacity timeoutMs = .returned events ∧ events ≠ [] := by
  rw [wait, if_neg (Nat.ne_of_gt hCapacity), hPoller]
  dsimp only
  have hEvent : ⟨entry.1, entry.2.token, eventMask (report conditions entry)⟩ ∈
      reported conditions (polled order capacity) := by
    rw [reported, List.mem_filterMap]
    exact ⟨entry, hPolled, if_neg hReady⟩
  have hSome := List.ne_nil_of_mem hEvent
  rw [if_neg fun hNothing => hSome hNothing.1]
  exact ⟨_, rfl, hSome⟩

theorem Poller.not_mem_take (poller : Poller) {limit : Nat} (hMore : limit < poller.entries.length) :
    poller.entries[limit] ∉ poller.entries.take limit := by
  intro hFront
  have hNodup : poller.entries.Nodup := poller.distinct.of_map _
  rw [← List.take_append_drop limit poller.entries, List.nodup_append] at hNodup
  have hBehind : poller.entries[limit] ∈ poller.entries.drop limit := by
    rw [List.drop_eq_getElem_cons hMore]
    exact List.mem_cons_self
  exact hNodup.2.2 _ hFront _ hBehind rfl

def failing (fd : NativeSocket) : Conditions := fun other => if other = fd then pollErr else 0

theorem report_failing (entry : Entry) : report (failing entry.1) entry ≠ 0 := by
  rw [report, failing, if_pos rfl, nativeEvents]
  split <;> split <;> decide

section Watching

variable {pollers : Pollers} {pollerFd : NativeSocket} {poller : Poller} {capacity : Nat}

theorem length_le_of_watches (hWatches : Watches pollers pollerFd poller capacity) :
    poller.entries.length ≤ min capacity maxEvents := by
  by_contra hMore
  rw [Nat.not_le] at hMore
  have hMem := List.getElem_mem hMore
  have hReady := report_failing poller.entries[min capacity maxEvents]
  apply poller.not_mem_take hMore
  exact (hWatches _ (List.Perm.refl _) (failing _) 0 ⟨_, hMem, hReady⟩).2 _ hMem hReady

theorem watches_of_length_le (hPoller : pollers pollerFd = some poller) (hCapacity : 0 < capacity)
    (hFits : poller.entries.length ≤ min capacity maxEvents) : Watches pollers pollerFd poller capacity := by
  intro order hOrder conditions timeoutMs hReady
  have hPolled : ∀ entry ∈ poller.entries, entry ∈ polled order capacity := by
    intro entry hEntry
    rw [polled, List.take_of_length_le (hOrder.length_eq.trans_le hFits)]
    exact hOrder.mem_iff.mpr hEntry
  obtain ⟨entry, hEntry, hReport⟩ := hReady
  refine ⟨wait_returns hPoller hCapacity (hPolled entry hEntry) hReport timeoutMs, ?_⟩
  exact fun entry hEntry _ => hPolled entry hEntry

theorem watches_of_maxConnections {options : ServerOptions} (hPoller : pollers pollerFd = some poller)
    (hRegistered : poller.entries.length ≤ options.maxConnections + 2) (hFew : options.maxConnections ≤ 126) :
    Watches pollers pollerFd poller maxEvents := by
  apply watches_of_length_le hPoller (by decide)
  rw [Nat.min_self, maxEvents]
  omega

end Watching

theorem watches_iff (pollers : Pollers) (pollerFd : NativeSocket) (poller : Poller) (capacity : Nat)
    (hPoller : pollers pollerFd = some poller) (hCapacity : 0 < capacity) :
    Watches pollers pollerFd poller capacity ↔ poller.entries.length ≤ min capacity maxEvents :=
  ⟨length_le_of_watches, watches_of_length_le hPoller hCapacity⟩

def idleServer : Poller := (Poller.empty.insert 0 ⟨readable, 0⟩ rfl).insert 1 ⟨readable, 1⟩ rfl

theorem watches_iff_idleServer :
    Watches (Function.update (fun _ => none) 2 (some idleServer)) 2 idleServer maxEvents ∧
      idleServer.entries.length = 2 :=
  ⟨(watches_iff _ 2 idleServer maxEvents (Function.update_self ..) (by decide)).mpr (by decide), rfl⟩

def addAll (pollers : Pollers) (pollerFd : NativeSocket) : List NativeSocket → Except Errno Pollers
  | [] => .ok pollers
  | fd :: rest => do
    let next ← control pollers pollerFd .add fd readable (UInt64.ofNat fd)
    addAll next pollerFd rest

def readingEntry (fd : NativeSocket) : Entry := (fd, ⟨readable, UInt64.ofNat fd⟩)

theorem has_false {poller : Poller} {fd : NativeSocket} (h : fd ∉ poller.entries.map Prod.fst) :
    poller.has fd = false := by
  rw [Poller.has, List.any_eq_false]
  intro entry hEntry hSame
  exact h (List.mem_map.mpr ⟨entry, hEntry, beq_iff_eq.mp hSame⟩)

theorem addAll_entries {pollers : Pollers} {pollerFd : NativeSocket} {poller : Poller} (fds : List NativeSocket)
    (hPoller : pollers pollerFd = some poller) (hNodup : fds.Nodup)
    (hNew : ∀ fd ∈ fds, fd ∉ poller.entries.map Prod.fst) :
    ∃ next registered, addAll pollers pollerFd fds = .ok next ∧ next pollerFd = some registered ∧
      registered.entries = (fds.map readingEntry).reverse ++ poller.entries := by
  induction fds generalizing pollers poller with
  | nil => exact ⟨pollers, poller, rfl, hPoller, rfl⟩
  | cons fd rest ih =>
    obtain ⟨hFd, hRest⟩ := List.nodup_cons.mp hNodup
    have hAbsent := has_false (hNew fd List.mem_cons_self)
    have hAdded : control pollers pollerFd .add fd readable (UInt64.ofNat fd) =
        .ok (Function.update pollers pollerFd (some (poller.insert fd ⟨readable, UInt64.ofNat fd⟩ hAbsent))) := by
      rw [control, hPoller]
      exact dif_pos hAbsent
    obtain ⟨next, registered, hNext, hRegistered, hEntries⟩ :=
      @ih (Function.update pollers pollerFd (some (poller.insert fd ⟨readable, UInt64.ofNat fd⟩ hAbsent)))
        (poller.insert fd ⟨readable, UInt64.ofNat fd⟩ hAbsent) (Function.update_self ..) hRest (by
          intro other hOther hMem
          obtain rfl | hOld := List.mem_cons.mp hMem
          · exact hFd hOther
          · exact hNew other (List.mem_cons_of_mem _ hOther) hOld)
    refine ⟨next, registered, ?_, hRegistered, ?_⟩
    · rw [addAll, hAdded]
      exact hNext
    · rw [hEntries, List.map_cons, List.reverse_cons, List.append_assoc]
      rfl

def onePoller : Pollers := Function.update (fun _ => none) 0 (some .empty)

def manyConnections : ServerOptions := { maxConnections := 127 }

def allSockets : List NativeSocket := List.range (manyConnections.maxConnections + 2)

def listenerReadable : Conditions := fun fd => if fd = 0 then pollRdNorm else 0

theorem blocked_with_listener_ready : validateServerOptions manyConnections = .ok () ∧
    ∃ pollers poller, addAll onePoller 0 allSockets = .ok pollers ∧ pollers 0 = some poller ∧
      readingEntry 0 ∈ poller.entries ∧ report listenerReadable (readingEntry 0) = pollRdNorm ∧
      readingEntry 0 ∉ polled poller.entries maxEvents ∧
      wait pollers 0 poller.entries listenerReadable maxEvents (-1) = .blocks := by
  refine ⟨by decide, ?_⟩
  obtain ⟨pollers, poller, hAdded, hPoller, hEntries⟩ :=
    @addAll_entries onePoller 0 .empty allSockets (Function.update_self ..) List.nodup_range nofun
  refine ⟨pollers, poller, hAdded, hPoller, ?_⟩
  rw [wait, if_neg (by decide), hPoller, hEntries]
  have hNothing : reported listenerReadable
      (polled ((allSockets.map readingEntry).reverse ++ Poller.empty.entries) maxEvents) = [] := by decide +kernel
  refine ⟨by decide +kernel, by decide, by decide +kernel, ?_⟩
  dsimp only
  rw [hNothing]
  rfl

end EasyUds.Platform.WindowsReadiness

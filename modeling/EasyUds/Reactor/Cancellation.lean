import EasyUds.Lib.Machine
import EasyUds.Protocol.Codec

/-! # Cancellation

The cancellations map of a version-3 connection. `dispatch_request` and `continue_connection` register the
stop flag of a request before they read on; a cancel frame looks its request up. The map holds weak
references: a job, known by the position of its request in the byte stream, may be destroyed at any time
after it has been handed over, in the middle of a registration as well. A finished request is one whose
response has been written; its job may live on, for instance while its worker continues the connection.

One thread at a time reads the connection. Between two frames the descriptor may change hands, from the
reactor to a continuation worker and back; both register and cancel in the same way. `gone` is a history:
the jobs that were destroyed since the last registration began.
-/

namespace EasyUds.Reactor.Cancellation

open Lib

inductive Frame
  | request (requestId : UInt32)
  | cancel (requestId : UInt32)
  | other
  deriving DecidableEq, Repr

abbrev Entry := UInt32 × Nat

inductive Reader
  | rest
  | register (ticket : Nat) (requestId : UInt32)
  | purging (ticket : Nat) (requestId : UInt32) (entries : List Entry)
  | dispatch (ticket : Nat)
  | cancelling (position : Nat) (requestId : UInt32)
  deriving DecidableEq, Repr

structure State where
  frames : List Frame
  position : Nat
  closing : Bool
  reader : Reader
  cancellations : List Entry
  alive : List Nat
  gone : List Nat
  jobs : List Nat
  finished : List Nat
  stopped : List Nat
  deriving DecidableEq, Repr

inductive Action
  | read
  | proceed
  | finish (ticket : Nat)
  | destroy (ticket : Nat)
  deriving DecidableEq, Repr

variable (s : State)

/-- The owner has the next frame complete. `decode_header` refuses a cancellation of request id 0, and
requests without an id have no stop flag. -/
def readFrame : Option State :=
  if s.closing ∨ s.reader ≠ .rest then none
  else
    match s.frames[s.position]? with
    | none => none
    | some (.request requestId) =>
      let next := { s with position := s.position + 1, alive := s.position :: s.alive }
      if requestId = 0 then some { next with reader := .dispatch s.position }
      else some { next with reader := .register s.position requestId }
    | some (.cancel requestId) =>
      if requestId = 0 then some { s with closing := true }
      else some { s with position := s.position + 1, reader := .cancelling s.position requestId }
    | some .other => some { s with position := s.position + 1 }

def insert (entries : List Entry) (requestId : UInt32) (ticket : Nat) : List Entry :=
  (requestId, ticket) :: entries.filter (·.1 ≠ requestId)

def cancel (requestId : UInt32) : State :=
  match s.cancellations.lookup requestId with
  | none => { s with reader := .rest }
  | some ticket =>
    if ticket ∈ s.alive then { s with stopped := ticket :: s.stopped, reader := .rest }
    else { s with cancellations := s.cancellations.filter (·.1 ≠ requestId), reader := .rest }

def proceed : Option State :=
  match s.reader with
  | .rest => none
  | .register ticket requestId => some { s with reader := .purging ticket requestId s.cancellations, gone := [] }
  | .purging ticket requestId (entry :: entries) =>
    if entry.2 ∈ s.alive then some { s with reader := .purging ticket requestId entries }
    else
      some { s with
        cancellations := s.cancellations.filter (· ≠ entry)
        reader := .purging ticket requestId entries }
  | .purging ticket requestId [] =>
    some { s with cancellations := insert s.cancellations requestId ticket, reader := .dispatch ticket }
  | .dispatch ticket => some { s with jobs := ticket :: s.jobs, reader := .rest }
  | .cancelling _ requestId => some (cancel s requestId)

def step : Action → Option State
  | .read => readFrame s
  | .proceed => proceed s
  | .finish ticket => if ticket ∈ s.jobs then some { s with finished := ticket :: s.finished } else none
  | .destroy ticket =>
    if ticket ∈ s.jobs then some { s with alive := s.alive.filter (· ≠ ticket), gone := ticket :: s.gone } else none

structure Initial (s : State) : Prop where
  position : s.position = 0
  reader : s.reader = .rest
  cancellations : s.cancellations = []
  alive : s.alive = []
  jobs : s.jobs = []
  stopped : s.stopped = []

def machine : Machine State Action where
  initial := Initial
  step := step

def lastRequest (frames : List Frame) (requestId : UInt32) : Nat → Option Nat
  | 0 => none
  | count + 1 =>
    if frames[count]? = some (.request requestId) then some count else lastRequest frames requestId count

def registered (s : State) : Nat :=
  match s.reader with
  | .register ticket _ | .purging ticket _ _ => ticket
  | _ => s.position

def ReaderOk (s : State) : Reader → Prop
  | .rest => True
  | .register ticket requestId => s.position = ticket + 1 ∧ s.frames[ticket]? = some (.request requestId) ∧
    requestId ≠ 0 ∧ ticket ∈ s.alive ∧ ticket ∉ s.jobs
  | .purging ticket requestId entries => (s.position = ticket + 1 ∧
    s.frames[ticket]? = some (.request requestId) ∧ requestId ≠ 0 ∧ ticket ∈ s.alive ∧ ticket ∉ s.jobs) ∧
    ∀ entry ∈ s.cancellations, entry ∈ entries ∨ entry.2 ∈ s.alive ∨ entry.2 ∈ s.gone
  | .dispatch ticket => ticket < s.position
  | .cancelling position requestId => s.position = position + 1 ∧ s.frames[position]? = some (.cancel requestId) ∧
    requestId ≠ 0

structure Inv (s : State) : Prop where
  reader : ReaderOk s s.reader
  nonzero : ∀ entry ∈ s.cancellations, entry.1 ≠ 0
  latest : ∀ entry ∈ s.cancellations, lastRequest s.frames entry.1 (registered s) = some entry.2
  covered : ∀ requestId ticket, requestId ≠ 0 → lastRequest s.frames requestId (registered s) = some ticket →
    ticket ∈ s.alive → (requestId, ticket) ∈ s.cancellations
  jobs : ∀ ticket ∈ s.jobs, ticket < s.position

variable {requestId : UInt32} {frames : List Frame} {entries : List Entry} {ticket count : Nat}

theorem lastRequest_lt (h : lastRequest frames requestId count = some ticket) : ticket < count := by
  induction count with
  | zero => cases h
  | succ count ih =>
    rw [lastRequest] at h
    split at h
    · cases h
      exact Nat.lt_succ_self _
    · exact Nat.lt_succ_of_lt (ih h)

theorem lastRequest_skip (h : frames[count]? ≠ some (.request requestId)) :
    lastRequest frames requestId (count + 1) = lastRequest frames requestId count := if_neg h

theorem lastRequest_here (h : frames[count]? = some (.request requestId)) :
    lastRequest frames requestId (count + 1) = some count := if_pos h

variable {s t : State}

theorem Inv.pass (hInv : Inv s) (hRest : registered s = s.position) {reader : Reader} {closing : Bool}
    {alive : List Nat} (hFrame : ∀ requestId, requestId ≠ 0 → s.frames[s.position]? ≠ some (.request requestId))
    (hAlive : ∀ ticket ∈ alive, ticket ∈ s.alive ∨ ticket = s.position)
    (hReader : ReaderOk { s with position := s.position + 1, reader, closing, alive } reader)
    (hRegistered : registered { s with position := s.position + 1, reader, closing, alive } = s.position + 1) :
    Inv { s with position := s.position + 1, reader, closing, alive } := by
  refine ⟨hReader, hInv.nonzero, fun entry hEntry => ?_, fun requestId ticket hId hLast hMem => ?_,
    fun ticket hJob => ?_⟩
  · rw [hRegistered, lastRequest_skip (hFrame entry.1 (hInv.nonzero entry hEntry)), ← hRest]
    exact hInv.latest entry hEntry
  · rw [hRegistered, lastRequest_skip (hFrame requestId hId)] at hLast
    obtain hOld | hNew := hAlive ticket hMem
    · exact hInv.covered requestId ticket hId (hRest ▸ hLast) hOld
    · exact absurd (lastRequest_lt hLast) (hNew ▸ Nat.lt_irrefl _)
  · exact Nat.lt_succ_of_lt (hInv.jobs ticket hJob)

theorem Inv.readFrame (hInv : Inv s) (h : readFrame s = some t) : Inv t := by
  unfold Cancellation.readFrame at h
  split at h
  · cases h
  · rename_i hReady
    have hRest : s.reader = .rest := not_not.mp (not_or.mp hReady).2
    have hRegistered : registered s = s.position := by rw [registered, hRest]
    split at h
    · cases h
    · rename_i requestId hFrame
      dsimp only at h
      split at h
      · rename_i hZero
        cases h
        refine hInv.pass hRegistered ?_ ?_ (Nat.lt_succ_self _) rfl
        · intro other hOther hEq
          rw [hFrame, hZero] at hEq
          cases hEq
          exact hOther rfl
        · intro ticket hMem
          exact (List.mem_cons.mp hMem).symm
      · rename_i hId
        cases h
        have hFresh : s.position ∉ s.jobs := fun hJob => Nat.lt_irrefl _ (hInv.jobs _ hJob)
        refine ⟨⟨rfl, hFrame, hId, List.mem_cons_self, hFresh⟩, hInv.nonzero, ?_, ?_, ?_⟩
        · intro entry hEntry
          exact hRegistered ▸ hInv.latest entry hEntry
        · intro other ticket hOther hLast hMem
          obtain hNew | hOld := List.mem_cons.mp hMem
          · exact absurd (lastRequest_lt hLast) (hNew ▸ Nat.lt_irrefl _)
          · exact hInv.covered other ticket hOther (hRegistered ▸ hLast) hOld
        · intro ticket hJob
          exact Nat.lt_succ_of_lt (hInv.jobs ticket hJob)
    · rename_i requestId hFrame
      split at h <;> cases h
      · exact ⟨hInv.reader, hInv.nonzero, hInv.latest, hInv.covered, hInv.jobs⟩
      · rename_i hId
        refine hInv.pass hRegistered ?_ (fun _ => .inl) ⟨rfl, hFrame, hId⟩ rfl
        intro other _ hEq
        rw [hFrame] at hEq
        cases hEq
    · rename_i hFrame
      cases h
      refine hInv.pass hRegistered ?_ (fun _ => .inl) ?_ ?_
      · intro other _ hEq
        rw [hFrame] at hEq
        cases hEq
      · rw [hRest]
        trivial
      · rw [registered, hRest]

theorem Inv.erase (hInv : Inv s) {keep : Entry → Bool} {reader : Reader}
    (hKeep : ∀ entry ∈ s.cancellations, keep entry = false → entry.2 ∉ s.alive)
    (hRegistered : registered { s with cancellations := s.cancellations.filter keep, reader } = registered s)
    (hReader : ReaderOk { s with cancellations := s.cancellations.filter keep, reader } reader) :
    Inv { s with cancellations := s.cancellations.filter keep, reader } := by
  refine ⟨hReader, ?_, ?_, ?_, hInv.jobs⟩
  · intro entry hEntry
    exact hInv.nonzero entry (List.mem_of_mem_filter hEntry)
  · intro entry hEntry
    rw [hRegistered]
    exact hInv.latest entry (List.mem_of_mem_filter hEntry)
  · intro requestId ticket hId hLast hMem
    rw [hRegistered] at hLast
    have hEntry := hInv.covered requestId ticket hId hLast hMem
    refine List.mem_filter.mpr ⟨hEntry, ?_⟩
    by_contra hNot
    exact hKeep _ hEntry (Bool.eq_false_iff.mpr hNot) hMem

theorem lookup_mem (h : entries.lookup requestId = some ticket) : (requestId, ticket) ∈ entries := by
  induction entries with
  | nil => cases h
  | cons entry rest ih =>
    obtain ⟨key, value⟩ := entry
    rw [List.lookup_cons] at h
    split at h
    · rename_i hKey
      cases h
      rw [beq_iff_eq.mp hKey]
      exact List.mem_cons_self
    · exact List.mem_cons_of_mem _ (ih h)

theorem lookup_none (h : entries.lookup requestId = none) (ticket : Nat) :
    (requestId, ticket) ∉ entries := by
  intro hMem
  exact bne_iff_ne.mp (List.lookup_eq_none_iff.mp h _ hMem) rfl

theorem Inv.cancel (hInv : Inv s) {position : Nat} (hReader : s.reader = .cancelling position requestId) :
    Inv (cancel s requestId) := by
  have hRegistered : registered s = s.position := by rw [registered, hReader]
  unfold Cancellation.cancel
  split
  · refine ⟨trivial, hInv.nonzero, ?_, ?_, hInv.jobs⟩
    · exact hRegistered ▸ hInv.latest
    · exact hRegistered ▸ hInv.covered
  · rename_i ticket hLookup
    split
    · refine ⟨trivial, hInv.nonzero, ?_, ?_, hInv.jobs⟩
      · exact hRegistered ▸ hInv.latest
      · exact hRegistered ▸ hInv.covered
    · rename_i hDead
      refine hInv.erase ?_ hRegistered.symm trivial
      intro entry hEntry hErased
      have hKey : entry.1 = requestId := by simpa using hErased
      have hSame := hInv.latest entry hEntry
      rw [hKey, hInv.latest _ (lookup_mem hLookup)] at hSame
      cases hSame
      exact hDead

theorem Inv.proceed (hInv : Inv s) (h : proceed s = some t) : Inv t := by
  have hReader := hInv.reader
  unfold Cancellation.proceed at h
  split at h
  case h_1 => cases h
  case h_2 ticket requestId hPc =>
    rw [hPc] at hReader
    cases h
    have hRegistered : registered s = ticket := by rw [registered, hPc]
    refine ⟨⟨hReader, fun entry hEntry => .inl hEntry⟩, hInv.nonzero, ?_, ?_, hInv.jobs⟩
    · exact hRegistered ▸ hInv.latest
    · exact hRegistered ▸ hInv.covered
  case h_3 ticket requestId entry entries hPc =>
    rw [hPc] at hReader
    obtain ⟨hTicket, hEntries⟩ := hReader
    have hRegistered : registered s = ticket := by rw [registered, hPc]
    split at h <;> cases h
    · rename_i hAlive
      refine ⟨⟨hTicket, fun other hOther => ?_⟩, hInv.nonzero, ?_, ?_, hInv.jobs⟩
      · obtain hMem | hRest := hEntries other hOther
        · obtain rfl | hLater := List.mem_cons.mp hMem
          · exact .inr (.inl hAlive)
          · exact .inl hLater
        · exact .inr hRest
      · exact hRegistered ▸ hInv.latest
      · exact hRegistered ▸ hInv.covered
    · rename_i hDead
      refine hInv.erase ?_ hRegistered.symm ⟨hTicket, fun other hOther => ?_⟩
      · intro other _ hErased
        obtain rfl : other = entry := by simpa using hErased
        exact hDead
      · obtain ⟨hMem, hNe⟩ := List.mem_filter.mp hOther
        refine (hEntries other hMem).imp_left fun hCons => ?_
        exact (List.mem_cons.mp hCons).resolve_left (by simpa using hNe)
  case h_4 ticket requestId hPc =>
    rw [hPc] at hReader
    obtain ⟨⟨hPosition, hFrame, hId, _, _⟩, _⟩ := hReader
    have hRegistered : registered s = ticket := by rw [registered, hPc]
    have hOther : ∀ {other : UInt32}, other ≠ requestId → s.frames[ticket]? ≠ some (.request other) := by
      intro other hNe hEq
      rw [hFrame] at hEq
      cases hEq
      exact hNe rfl
    cases h
    refine ⟨?_, ?_, ?_, ?_, hInv.jobs⟩
    · change ticket < s.position
      omega
    · intro entry hEntry
      obtain rfl | hOld := List.mem_cons.mp hEntry
      · exact hId
      · exact hInv.nonzero entry (List.mem_of_mem_filter hOld)
    · intro entry hEntry
      change lastRequest s.frames entry.1 s.position = some entry.2
      rw [hPosition]
      obtain rfl | hOld := List.mem_cons.mp hEntry
      · exact lastRequest_here hFrame
      · obtain ⟨hMem, hNe⟩ := List.mem_filter.mp hOld
        rw [lastRequest_skip (hOther (by simpa using hNe)), ← hRegistered]
        exact hInv.latest entry hMem
    · intro other current hOtherId hLast hAlive
      change lastRequest s.frames other s.position = some current at hLast
      rw [hPosition] at hLast
      by_cases hSame : other = requestId
      · subst hSame
        rw [lastRequest_here hFrame] at hLast
        cases hLast
        exact List.mem_cons_self
      · rw [lastRequest_skip (hOther hSame), ← hRegistered] at hLast
        refine List.mem_cons_of_mem _ (List.mem_filter.mpr ⟨hInv.covered other current hOtherId hLast hAlive, ?_⟩)
        simpa using hSame
  case h_5 ticket hPc =>
    rw [hPc] at hReader
    have hRegistered : registered s = s.position := by rw [registered, hPc]
    cases h
    refine ⟨trivial, hInv.nonzero, ?_, ?_, fun job hJob => ?_⟩
    · exact hRegistered ▸ hInv.latest
    · exact hRegistered ▸ hInv.covered
    · obtain rfl | hOld := List.mem_cons.mp hJob
      · exact hReader
      · exact hInv.jobs job hOld
  case h_6 position requestId hPc =>
    cases h
    exact hInv.cancel hPc

theorem Inv.destroy (hInv : Inv s) (hJob : ticket ∈ s.jobs) :
    Inv { s with alive := s.alive.filter (· ≠ ticket), gone := ticket :: s.gone } := by
  refine ⟨?_, hInv.nonzero, hInv.latest, ?_, hInv.jobs⟩
  · have hKept : ∀ {current : Nat}, current ∈ s.alive → current ∉ s.jobs → current ∈ s.alive.filter (· ≠ ticket) := by
      intro current hAlive hNew
      exact List.mem_filter.mpr ⟨hAlive, decide_eq_true fun hEq => hNew (hEq ▸ hJob)⟩
    have hReader := hInv.reader
    change ReaderOk _ s.reader
    generalize s.reader = reader at hReader
    cases reader with
    | register current requestId =>
      obtain ⟨hPosition, hFrame, hId, hAlive, hNew⟩ := hReader
      exact ⟨hPosition, hFrame, hId, hKept hAlive hNew, hNew⟩
    | purging current requestId entries =>
      obtain ⟨⟨hPosition, hFrame, hId, hAlive, hNew⟩, hEntries⟩ := hReader
      refine ⟨⟨hPosition, hFrame, hId, hKept hAlive hNew, hNew⟩, fun entry hEntry => ?_⟩
      obtain hMem | hLive | hGone := hEntries entry hEntry
      · exact .inl hMem
      · by_cases hEq : entry.2 = ticket
        · exact .inr (.inr (hEq ▸ List.mem_cons_self))
        · exact .inr (.inl (List.mem_filter.mpr ⟨hLive, decide_eq_true hEq⟩))
      · exact .inr (.inr (List.mem_cons_of_mem _ hGone))
    | rest | dispatch current | cancelling position requestId => exact hReader
  · intro requestId current hId hLast hAlive
    exact hInv.covered requestId current hId hLast (List.mem_of_mem_filter hAlive)

theorem Inv.next {action : Action} (hInv : Inv s) (h : step s action = some t) : Inv t := by
  cases action with
  | read => exact hInv.readFrame h
  | proceed => exact hInv.proceed h
  | finish ticket =>
    dsimp only [step] at h
    split at h <;> cases h
    refine ⟨?_, hInv.nonzero, hInv.latest, hInv.covered, hInv.jobs⟩
    have hReader := hInv.reader
    change ReaderOk _ s.reader
    generalize s.reader = reader at hReader
    cases reader <;> exact hReader
  | destroy ticket =>
    dsimp only [step] at h
    split at h <;> cases h
    rename_i hJob
    exact hInv.destroy hJob

theorem Inv.start (hInit : Initial s) : Inv s := by
  refine ⟨?_, ?_, ?_, ?_, ?_⟩
  · rw [hInit.reader]
    trivial
  · rw [hInit.cancellations]
    exact nofun
  · rw [hInit.cancellations]
    exact nofun
  · intro requestId ticket _ _ hAlive
    rw [hInit.alive] at hAlive
    cases hAlive
  · rw [hInit.jobs]
    exact nofun

theorem reachable_inv (h : machine.Reachable s) : Inv s :=
  h.invariant (I := Inv) (fun _ => Inv.start) fun _ _ _ _ hInv _ hStep => hInv.next hStep

theorem read_stopped (h : readFrame s = some t) : t.stopped = s.stopped := by
  unfold readFrame at h
  split at h
  · cases h
  · split at h
    · cases h
    · dsimp only at h
      split at h <;> cases h <;> rfl
    · split at h <;> cases h <;> rfl
    · cases h
      rfl

theorem step_stopped {action : Action} (h : step s action = some t)
    (hReader : ∀ position requestId, action = .proceed → s.reader ≠ .cancelling position requestId) :
    t.stopped = s.stopped := by
  cases action with
  | read => exact read_stopped h
  | proceed =>
    dsimp only [step, proceed] at h
    split at h
    case h_1 => cases h
    case h_3 => split at h <;> cases h <;> rfl
    case h_6 position requestId hPc => exact absurd hPc (hReader position requestId rfl)
    all_goals
      cases h
      rfl
  | finish ticket | destroy ticket =>
    dsimp only [step] at h
    split at h <;> cases h
    rfl

theorem cancel_stopped (hInv : Inv s) {position : Nat} (hReader : s.reader = .cancelling position requestId)
    (ticket : Nat) :
    ticket ∈ (cancel s requestId).stopped ↔
      ticket ∈ s.stopped ∨ (lastRequest s.frames requestId position = some ticket ∧ ticket ∈ s.alive) := by
  have hOk := hInv.reader
  rw [hReader] at hOk
  obtain ⟨hPosition, hFrame, hId⟩ := hOk
  have hRegistered : registered s = position + 1 := by rw [registered, hReader, hPosition]
  have hLast : lastRequest s.frames requestId (registered s) = lastRequest s.frames requestId position := by
    rw [hRegistered]
    refine lastRequest_skip fun hEq => ?_
    rw [hFrame] at hEq
    cases hEq
  unfold cancel
  split
  · rename_i hNone
    refine ⟨.inl, fun hCase => hCase.resolve_right ?_⟩
    rintro ⟨hTicket, hAlive⟩
    exact lookup_none hNone ticket (hInv.covered requestId ticket hId (hLast.trans hTicket) hAlive)
  · rename_i found hFound
    have hTicket : lastRequest s.frames requestId position = some found :=
      hLast.symm.trans (hInv.latest _ (lookup_mem hFound))
    split
    · rename_i hAlive
      rw [List.mem_cons, hTicket]
      constructor
      · rintro (rfl | hOld)
        · exact .inr ⟨rfl, hAlive⟩
        · exact .inl hOld
      · rintro (hOld | ⟨hSame, _⟩)
        · exact .inr hOld
        · exact .inl (Option.some.inj hSame).symm
    · rename_i hDead
      refine ⟨.inl, fun hCase => hCase.resolve_right ?_⟩
      rintro ⟨hSame, hAlive⟩
      rw [hTicket] at hSame
      cases hSame
      exact hDead hAlive

/-- The only flag that a step sets is that of the request which a cancel frame names, and after a
registration the map holds jobs that exist or were destroyed in the meantime. -/
structure Exact (s : State) (action : Action) (t : State) : Prop where
  flags : ∀ ticket, ticket ∈ t.stopped ↔ ticket ∈ s.stopped ∨
    ∃ position requestId, action = .proceed ∧ s.reader = .cancelling position requestId ∧
      lastRequest s.frames requestId position = some ticket ∧ ticket ∈ s.alive
  entries : ∀ ticket requestId, action = .proceed → s.reader = .purging ticket requestId [] →
    (requestId, ticket) ∈ t.cancellations ∧ ticket ∈ t.alive ∧
      ∀ entry ∈ t.cancellations, entry.2 ∈ t.alive ∨ entry.2 ∈ t.gone

theorem cancel_exact (s t : State) (action : Action) (hReachable : machine.Reachable s)
    (hStep : machine.step s action = some t) : Exact s action t := by
  have hInv := reachable_inv hReachable
  constructor
  · intro ticket
    by_cases hCancel : ∃ position requestId, action = .proceed ∧ s.reader = .cancelling position requestId
    · obtain ⟨position, requestId, rfl, hReader⟩ := hCancel
      have hNext : t = cancel s requestId := by
        change proceed s = some t at hStep
        rw [proceed, hReader] at hStep
        exact (Option.some.inj hStep).symm
      rw [hNext, cancel_stopped hInv hReader ticket]
      refine or_congr_right ⟨fun hLast => ⟨position, requestId, rfl, hReader, hLast⟩, ?_⟩
      rintro ⟨other, otherId, _, hSame, hLast⟩
      rw [hReader] at hSame
      cases hSame
      exact hLast
    · rw [step_stopped hStep fun position requestId hAction hReader => hCancel ⟨position, requestId, hAction, hReader⟩]
      refine ⟨.inl, fun hCase => hCase.resolve_right ?_⟩
      rintro ⟨position, requestId, hAction, hReader, _⟩
      exact hCancel ⟨position, requestId, hAction, hReader⟩
  · intro ticket requestId hAction hReader
    subst hAction
    have hOk := hInv.reader
    rw [hReader] at hOk
    obtain ⟨⟨_, _, _, hAlive, _⟩, hEntries⟩ := hOk
    change proceed s = some t at hStep
    rw [proceed, hReader] at hStep
    cases hStep
    refine ⟨List.mem_cons_self, hAlive, fun entry hEntry => ?_⟩
    obtain rfl | hOld := List.mem_cons.mp hEntry
    · exact .inl hAlive
    · exact (hEntries entry (List.mem_of_mem_filter hOld)).resolve_left nofun

def connection (frames : List Frame) : State where
  frames
  position := 0
  closing := false
  reader := .rest
  cancellations := []
  alive := []
  gone := []
  jobs := []
  finished := []
  stopped := []

theorem connection_initial (frames : List Frame) : machine.initial (connection frames) :=
  ⟨rfl, rfl, rfl, rfl, rfl, rfl⟩

def reusedId : List Action :=
  [.read, .proceed, .proceed, .proceed, .finish 0, .read, .proceed, .proceed, .proceed, .proceed, .read]

theorem cancel_exact_reused : ∃ s t, machine.Reachable s ∧ machine.step s .proceed = some t ∧
    s.alive = [1, 0] ∧ t.stopped = [1] ∧ Exact s .proceed t := by
  obtain ⟨s, hReached, hAlive, hTest⟩ := Machine.exists_reachable_of_exec
    (fun s => s.alive = [1, 0] ∧ (step s .proceed).any (·.stopped == [1]) = true) reusedId
    (connection_initial [.request 5, .request 5, .cancel 5]) (by decide)
  obtain ⟨t, hStep, hStopped⟩ := (Option.any_eq_true _ _).mp hTest
  exact ⟨s, t, hReached, hStep, hAlive, beq_iff_eq.mp hStopped, cancel_exact s t .proceed hReached hStep⟩

/-- A cancel frame for a request that has been answered sets its flag as long as the job object lives. -/
theorem finished_flag_set : ∃ s t, machine.Reachable s ∧ machine.step s .proceed = some t ∧
    s.reader = .cancelling 1 5 ∧ 0 ∈ s.finished ∧ s.stopped = [] ∧ t.stopped = [0] := by
  obtain ⟨s, hReached, hReader, hFinished, hStopped, hTest⟩ := Machine.exists_reachable_of_exec
    (fun s => s.reader = .cancelling 1 5 ∧ 0 ∈ s.finished ∧ s.stopped = [] ∧
      (step s .proceed).any (·.stopped == [0]) = true)
    [.read, .proceed, .proceed, .proceed, .finish 0, .read] (connection_initial [.request 5, .cancel 5])
    (by decide)
  obtain ⟨t, hStep, hSet⟩ := (Option.any_eq_true _ _).mp hTest
  exact ⟨s, t, hReached, hStep, hReader, hFinished, hStopped, beq_iff_eq.mp hSet⟩

end EasyUds.Reactor.Cancellation

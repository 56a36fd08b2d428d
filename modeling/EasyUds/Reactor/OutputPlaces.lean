import EasyUds.Reactor.OutputStep

/-! # Who holds `output_mutex`

The owner that a connection names is the one thread that stands inside its section, every thread stands
where its place says, and a connection that left the table is shut down. This holds in every run.
-/

namespace EasyUds.Reactor.OutputPlaces

open Lib Protocol.Codec Reactor.Output Reactor.OutputStep

universe u

structure Places (opts : Options) (s : State) : Prop where
  holder : ∀ {index : Nat} {thread : Thread} {conn : Conn}, s.threads[index]? = some thread →
    s.conns[thread.conn]? = some conn → holds thread.pc = true → conn.outputMutex = some index
  owner : ∀ {connIndex index : Nat} {conn : Conn}, s.conns[connIndex]? = some conn →
    conn.outputMutex = some index →
    ∃ thread, s.threads[index]? = some thread ∧ thread.conn = connIndex ∧ holds thread.pc = true
  place : ∀ {index : Nat} {thread : Thread} {conn : Conn}, s.threads[index]? = some thread →
    s.conns[thread.conn]? = some conn → PcOk opts conn thread.pc
  table : ∀ {connIndex : Nat} {conn : Conn}, s.conns[connIndex]? = some conn →
    conn.inTable = false → conn.shutdown = true

def heldAt {α : Type u} (held : Pc → Option α) (s : State) (conn : Conn) : Option α :=
  conn.outputMutex.bind fun owner => s.threads[owner]?.bind fun thread => held thread.pc

variable {connIndex : Nat} {now : Conn}

section ThreadStep

variable {α : Type u} {held : Pc → Option α} {opts : Options} {s : State} {index : Nat} {thread : Thread} {conn : Conn}
  {event : Event} {outcome : Outcome}

theorem Places.owner_ne (hPlaces : Places opts s) (hThread : s.threads[index]? = some thread) {owner : Nat}
    {current : Conn} (hCurrent : s.conns[connIndex]? = some current) (hOwner : current.outputMutex = some owner)
    (hOther : connIndex ≠ thread.conn ∨ holds thread.pc = false) : owner ≠ index := by
  rintro rfl
  obtain ⟨holder, hHolder, hConn, hHolds⟩ := hPlaces.owner hCurrent hOwner
  rw [hThread] at hHolder
  cases hHolder
  obtain hNe | hFalse := hOther
  · exact hNe hConn.symm
  · rw [hHolds] at hFalse
    cases hFalse

section Step

variable (hPlaces : Places opts s) (hThread : s.threads[index]? = some thread)
  (hConn : s.conns[thread.conn]? = some conn) (hLocal : Local opts index conn thread.pc outcome)
include hPlaces hThread hConn hLocal

theorem step_holder {other : Nat} {current : Thread}
    (hCurrent : (apply s index thread outcome).threads[other]? = some current)
    (hNow : (apply s index thread outcome).conns[current.conn]? = some now) (hHolds : holds current.pc = true) :
    now.outputMutex = some other := by
  obtain ⟨rfl, rfl⟩ | ⟨hNe, hCurrent⟩ := Pool.get_set_cases hThread hCurrent
  · obtain ⟨_, rfl⟩ | ⟨hAway, _⟩ := Pool.get_set_cases hConn hNow
    · obtain ⟨hSame, hPc⟩ | ⟨_, hSome, _⟩ | ⟨_, _, hFalse⟩ := hLocal.mutex
      · exact hSame.trans (hPlaces.holder hThread hConn (hPc.symm.trans hHolds))
      · exact hSome
      · exact absurd (hFalse.symm.trans hHolds) Bool.false_ne_true
    · exact absurd rfl hAway
  · obtain ⟨hHere, rfl⟩ | ⟨_, hNow⟩ := Pool.get_set_cases hConn hNow
    · have hOld : conn.outputMutex = some other := by
        rw [← hHere] at hConn
        exact hPlaces.holder hCurrent hConn hHolds
      obtain ⟨hSame, _⟩ | ⟨hNone, _⟩ | ⟨_, hPc, _⟩ := hLocal.mutex
      · exact hSame.trans hOld
      · cases hNone.symm.trans hOld
      · rw [hPlaces.holder hThread hConn hPc] at hOld
        exact absurd (Option.some.inj hOld).symm hNe
    · exact hPlaces.holder hCurrent hNow hHolds

theorem step_owner {owner : Nat} (hNow : (apply s index thread outcome).conns[connIndex]? = some now)
    (hOwner : now.outputMutex = some owner) :
    ∃ current, (apply s index thread outcome).threads[owner]? = some current ∧ current.conn = connIndex ∧
      holds current.pc = true := by
  have hSelf : (apply s index thread outcome).threads[index]? = some { thread with pc := outcome.pc } :=
    Pool.get_set_self hThread _
  have hKeep : ∀ {current : Thread}, owner ≠ index → s.threads[owner]? = some current →
      (apply s index thread outcome).threads[owner]? = some current := by
    intro current hNe hCurrent
    exact (List.getElem?_set_ne (Ne.symm hNe)).trans hCurrent
  obtain ⟨rfl, rfl⟩ | ⟨hAway, hNow⟩ := Pool.get_set_cases hConn hNow
  · obtain ⟨hSame, hPc⟩ | ⟨_, hSome, _, hHolds⟩ | ⟨hNone, _, _⟩ := hLocal.mutex
    · obtain ⟨current, hCurrent, hHere, hHolds⟩ := hPlaces.owner hConn (hSame.symm.trans hOwner)
      by_cases hEq : owner = index
      · subst hEq
        rw [hThread] at hCurrent
        cases hCurrent
        exact ⟨_, hSelf, rfl, hPc.trans hHolds⟩
      · exact ⟨current, hKeep hEq hCurrent, hHere, hHolds⟩
    · rw [hSome] at hOwner
      cases hOwner
      exact ⟨_, hSelf, rfl, hHolds⟩
    · cases hNone.symm.trans hOwner
  · obtain ⟨current, hCurrent, hHere, hHolds⟩ := hPlaces.owner hNow hOwner
    exact ⟨current, hKeep (hPlaces.owner_ne hThread hNow hOwner (.inl hAway)) hCurrent, hHere, hHolds⟩

theorem step_place {other : Nat} {current : Thread}
    (hCurrent : (apply s index thread outcome).threads[other]? = some current)
    (hNow : (apply s index thread outcome).conns[current.conn]? = some now) : PcOk opts now current.pc := by
  obtain ⟨rfl, rfl⟩ | ⟨hNe, hCurrent⟩ := Pool.get_set_cases hThread hCurrent
  · obtain ⟨_, rfl⟩ | ⟨hAway, _⟩ := Pool.get_set_cases hConn hNow
    · exact hLocal.place
    · exact absurd rfl hAway
  · obtain ⟨hHere, rfl⟩ | ⟨_, hNow⟩ := Pool.get_set_cases hConn hNow
    · rw [← hHere] at hConn
      refine (hPlaces.place hCurrent hConn).kept hLocal.wireVersion hLocal.shutdown ?_
      intro hHolds
      have hOwned := hPlaces.holder hCurrent hConn hHolds
      refine hLocal.quiet ?_ (by rw [hOwned]; simp)
      rw [Bool.eq_false_iff]
      intro hPc
      rw [hHere] at hConn
      rw [hPlaces.holder hThread hConn hPc] at hOwned
      exact hNe (Option.some.inj hOwned).symm
    · exact hPlaces.place hCurrent hNow

end Step

theorem step_table (hPlaces : Places opts s) (hConn : s.conns[thread.conn]? = some conn)
    (hLocal : Local opts index conn thread.pc outcome)
    (hNow : (apply s index thread outcome).conns[connIndex]? = some now) (hAbsent : now.inTable = false) :
    now.shutdown = true := by
  obtain ⟨_, rfl⟩ | ⟨_, hNow⟩ := Pool.get_set_cases hConn hNow
  · refine hLocal.table.elim (fun hSame => ?_) id
    exact hSame.1.trans (hPlaces.table hConn (hSame.2.symm.trans hAbsent))
  · exact hPlaces.table hNow hAbsent

theorem heldAt_before (hPlaces : Places opts s) (hThread : s.threads[index]? = some thread)
    (hConn : s.conns[thread.conn]? = some conn) (hHolds : holds thread.pc = true) :
    heldAt held s conn = held thread.pc := by
  rw [heldAt, hPlaces.holder hThread hConn hHolds, Option.bind_some, hThread, Option.bind_some]

theorem heldAt_away (hPlaces : Places opts s) (hThread : s.threads[index]? = some thread) {current : Conn}
    (hCurrent : s.conns[connIndex]? = some current) (hSame : now.outputMutex = current.outputMutex)
    (hOther : connIndex ≠ thread.conn ∨ holds thread.pc = false) :
    heldAt held (apply s index thread outcome) now = heldAt held s current := by
  unfold heldAt
  rw [hSame]
  cases hMutex : current.outputMutex with
  | none => rfl
  | some owner =>
    have hNe := hPlaces.owner_ne hThread hCurrent hMutex hOther
    rw [Option.bind_some, Option.bind_some]
    exact congrArg (Option.bind · _) (List.getElem?_set_ne (Ne.symm hNe))

theorem heldAt_after (hPlaces : Places opts s) (hThread : s.threads[index]? = some thread)
    (hConn : s.conns[thread.conn]? = some conn) (hLocal : Local opts index conn thread.pc outcome) :
    heldAt held (apply s index thread outcome) outcome.conn =
      if holds outcome.pc then held outcome.pc else if holds thread.pc then none else heldAt held s conn := by
  have hOwned : outcome.conn.outputMutex = some index →
      heldAt held (apply s index thread outcome) outcome.conn = held outcome.pc := by
    intro hMutex
    have hSelf : (apply s index thread outcome).threads[index]? = some { thread with pc := outcome.pc } :=
      Pool.get_set_self hThread _
    rw [heldAt, hMutex, Option.bind_some, hSelf, Option.bind_some]
  obtain ⟨hSame, hPc⟩ | ⟨_, hSome, _, hHolds⟩ | ⟨hNone, hHolds, hFree⟩ := hLocal.mutex
  · rw [hPc]
    split
    · rename_i hHolds
      exact hOwned (hSame.trans (hPlaces.holder hThread hConn hHolds))
    · rename_i hHolds
      exact heldAt_away hPlaces hThread hConn hSame (.inr (Bool.eq_false_iff.mpr hHolds))
  · rw [if_pos hHolds]
    exact hOwned hSome
  · rw [hFree, if_neg Bool.false_ne_true, if_pos hHolds, heldAt, hNone]
    rfl

theorem Places.applied (hPlaces : Places opts s) (hThread : s.threads[index]? = some thread)
    (hConn : s.conns[thread.conn]? = some conn) (hLocal : Local opts index conn thread.pc outcome) :
    Places opts (apply s index thread outcome) where
  holder := step_holder hPlaces hThread hConn hLocal
  owner := step_owner hPlaces hThread hConn hLocal
  place := step_place hPlaces hThread hConn hLocal
  table := step_table hPlaces hConn hLocal

end ThreadStep

section Environment

variable {α : Type u} {held : Pc → Option α} {opts : Options} {s : State}
variable {f : Conn → Conn} {pc : Pc}

theorem spawn_cases {index : Nat} {thread : Thread} (hThread : (s.threads ++ [⟨connIndex, pc⟩])[index]? = some thread) :
    s.threads[index]? = some thread ∨ thread = ⟨connIndex, pc⟩ := by
  obtain hLess | hMore := Nat.lt_or_ge index s.threads.length
  · rw [List.getElem?_append_left hLess] at hThread
    exact .inl hThread
  · rw [List.getElem?_append_right hMore] at hThread
    exact .inr (List.mem_singleton.mp (List.mem_of_getElem? hThread))

theorem Places.spawn (hPlaces : Places opts s) (hHolds : holds pc = false) (hPlace : ∀ conn, PcOk opts conn pc) :
    Places opts { s with threads := s.threads ++ [⟨connIndex, pc⟩] } := by
  constructor
  · intro index thread conn hThread hConn hPc
    obtain hOld | rfl := spawn_cases hThread
    · exact hPlaces.holder hOld hConn hPc
    · rw [hHolds] at hPc
      cases hPc
  · intro connIndex index conn hConn hMutex
    obtain ⟨thread, hThread, hRest⟩ := hPlaces.owner hConn hMutex
    refine ⟨thread, ?_, hRest⟩
    exact (List.getElem?_append_left (List.getElem?_eq_some_iff.mp hThread).1).trans hThread
  · intro index thread conn hThread hConn
    obtain hOld | rfl := spawn_cases hThread
    · exact hPlaces.place hOld hConn
    · exact hPlace conn
  · exact hPlaces.table

theorem heldAt_spawn (hPlaces : Places opts s) {current : Nat} {conn : Conn} (hConn : s.conns[current]? = some conn) :
    heldAt held { s with threads := s.threads ++ [⟨connIndex, pc⟩] } conn = heldAt held s conn := by
  unfold heldAt
  cases hMutex : conn.outputMutex with
  | none => rfl
  | some owner =>
    obtain ⟨thread, hThread, _⟩ := hPlaces.owner hConn hMutex
    rw [Option.bind_some, Option.bind_some]
    exact congrArg (Option.bind · _) (List.getElem?_append_left (List.getElem?_eq_some_iff.mp hThread).1)

structure Outside (old now : Conn) : Prop where
  wireVersion : now.wireVersion = old.wireVersion
  outputMutex : now.outputMutex = old.outputMutex
  inTable : now.inTable = old.inTable
  shutdown : old.shutdown = true → now.shutdown = true
  queue : now.outputQueue = old.outputQueue
  tickets : now.tickets = old.tickets
  wire : now.wire = old.wire
  accepted : now.accepted = old.accepted
  queued : now.queuedOutputBytes = old.queuedOutputBytes

theorem Outside.modified {index : Nat} (hOutside : ∀ conn, Outside conn (f conn))
    (hNow : (s.conns.modify connIndex f)[index]? = some now) :
    ∃ old, s.conns[index]? = some old ∧ Outside old now := by
  rw [List.getElem?_modify] at hNow
  obtain ⟨old, hOld, rfl⟩ := Option.map_eq_some_iff.mp hNow
  refine ⟨old, hOld, ?_⟩
  split
  · exact hOutside old
  · exact ⟨rfl, rfl, rfl, id, rfl, rfl, rfl, rfl, rfl⟩

theorem Places.modify (hPlaces : Places opts s) (hOutside : ∀ conn, Outside conn (f conn)) :
    Places opts { s with conns := s.conns.modify connIndex f } := by
  constructor
  · intro index thread conn hThread hConn hPc
    obtain ⟨old, hOld, hOut⟩ := Outside.modified hOutside hConn
    exact hOut.outputMutex.trans (hPlaces.holder hThread hOld hPc)
  · intro current index conn hConn hMutex
    obtain ⟨old, hOld, hOut⟩ := Outside.modified hOutside hConn
    exact hPlaces.owner hOld (hOut.outputMutex.symm.trans hMutex)
  · intro index thread conn hThread hConn
    obtain ⟨old, hOld, hOut⟩ := Outside.modified hOutside hConn
    exact (hPlaces.place hThread hOld).kept hOut.wireVersion hOut.shutdown fun _ => ⟨hOut.queue, hOut.tickets⟩
  · intro current conn hConn hAbsent
    obtain ⟨old, hOld, hOut⟩ := Outside.modified hOutside hConn
    exact hOut.shutdown (hPlaces.table hOld (hOut.inTable.symm.trans hAbsent))

def entry : Pc → Bool
  | .writeCheck .. | .flushLock | .closeEnter none => true
  | _ => false

theorem holds_of_entry (h : entry pc = true) : holds pc = false := by
  cases pc <;> first | rfl | cases h

theorem place_of_entry (h : entry pc = true) (conn : Conn) : PcOk opts conn pc := by
  cases pc <;> trivial

inductive Change (opts : Options) (s : State) : State → Prop
  | spawn (connIndex : Nat) (pc : Pc) : entry pc = true →
      Change opts s { s with threads := s.threads ++ [⟨connIndex, pc⟩] }
  | thread (index : Nat) (event : Event) (thread : Thread) (conn : Conn) (outcome : Outcome) :
      s.threads[index]? = some thread → s.conns[thread.conn]? = some conn →
      threadStep opts s index conn event thread.pc = some outcome → Change opts s (apply s index thread outcome)
  | modify (connIndex : Nat) (f : Conn → Conn) : (∀ conn, Outside conn (f conn)) →
      Change opts s { s with conns := s.conns.modify connIndex f }
  | readiness (fd : Int) : Change opts s { s with readinessFd := fd }

theorem step_change {action : Action} {t : State} (h : step opts s action = some t) : Change opts s t := by
  cases action with
  | respond connIndex requestId response deadline | flush connIndex | close connIndex =>
    rw [step, Output.spawn] at h
    split at h
    · cases h
      exact .spawn connIndex _ rfl
    · cases h
  | thread index event =>
    rw [step] at h
    split at h
    · cases h
    · rename_i thread hThread
      split at h
      · cases h
      · rename_i conn hConn
        obtain ⟨outcome, hOutcome, rfl⟩ := Option.map_eq_some_iff.mp h
        exact .thread index event thread conn outcome hThread hConn hOutcome
  | server connIndex view =>
    cases h
    exact .modify connIndex _ fun _ => ⟨rfl, rfl, rfl, id, rfl, rfl, rfl, rfl, rfl⟩
  | readiness fd =>
    cases h
    exact .readiness fd
  | shutdownFd connIndex =>
    cases h
    exact .modify connIndex _ fun _ => ⟨rfl, rfl, rfl, fun _ => rfl, rfl, rfl, rfl, rfl, rfl⟩

theorem Places.next {t : State} (hPlaces : Places opts s) (h : Change opts s t) : Places opts t := by
  cases h with
  | spawn connIndex pc hEntry => exact hPlaces.spawn (holds_of_entry hEntry) (place_of_entry hEntry)
  | thread index event thread conn outcome hThread hConn hOutcome =>
    exact hPlaces.applied hThread hConn (threadStep_local (hPlaces.place hThread hConn) hOutcome)
  | modify connIndex f hOutside => exact hPlaces.modify hOutside
  | readiness fd => exact ⟨hPlaces.holder, hPlaces.owner, hPlaces.place, hPlaces.table⟩

end Environment

theorem Places.start {opts : Options} {s : State} (hInit : Initial s) : Places opts s := by
  have hThread : ∀ {index : Nat} {thread : Thread}, s.threads[index]? = some thread → False := by
    intro index thread hThread
    rw [hInit.threads] at hThread
    cases hThread
  constructor
  · intro index thread conn hSome
    exact (hThread hSome).elim
  · intro connIndex index conn hConn hMutex
    rw [(hInit.conns conn (List.mem_of_getElem? hConn)).1] at hMutex
    cases hMutex
  · intro index thread conn hSome
    exact (hThread hSome).elim
  · intro connIndex conn hConn hAbsent
    obtain ⟨_, _, _, _, _, _, hTable, _⟩ := hInit.conns conn (List.mem_of_getElem? hConn)
    rw [hTable] at hAbsent
    cases hAbsent

theorem reached_places {opts : Options} {guard : State → Action → Prop} {s : State}
    (h : (machine opts).Reached guard s) : Places opts s :=
  h.invariant (fun _ => Places.start) fun _ _ _ _ hPlaces _ hStep => hPlaces.next (step_change hStep)

end EasyUds.Reactor.OutputPlaces

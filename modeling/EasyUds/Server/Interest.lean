import EasyUds.Server.Footprint

/-! # Readiness interest

`refresh_connection_events` makes the poller's registration follow `read_paused` and the output queue.
Whoever changes one of them calls it afterwards, so a registration that is out of date has a refresh
pending. `rearm_connection` is the exception: it registers for reading only, whatever is queued. The
registration is right as long as descriptors are given back with an empty output queue.
-/

namespace EasyUds.Server.Interest

open Lib Server.Core Server.Steps Server.Outcomes Server.Footprint

variable {opts : Options} {s t : State} {op : Op} {choice : Choice} {ops : List Op} {c k : Nat}

def Watched (s : State) (c : Nat) : Prop :=
  refreshable s c → (s.connections c).watched = some (s.connections c).registeredEvents

def Current (s : State) (c : Nat) : Prop :=
  refreshable s c → (s.connections c).registeredEvents = interest (s.connections c)

structure Frame (s t : State) (c : Nat) : Prop where
  refreshable : refreshable t c → refreshable s c
  registeredEvents : (t.connections c).registeredEvents = (s.connections c).registeredEvents
  watched : (t.connections c).watched = (s.connections c).watched
  interest : interest (t.connections c) = interest (s.connections c)

theorem Frame.of_connection (hTable : c ∈ t.table → c ∈ s.table) (h : t.connections c = s.connections c) :
    Frame s t c := by
  refine ⟨?_, by rw [h], by rw [h], by rw [h]⟩
  rintro ⟨hMem, hOpen⟩
  rw [h] at hOpen
  exact ⟨hTable hMem, hOpen⟩

theorem Frame.of_update {f : Connection → Connection} (hConnections : t.connections = s.connections)
    (hTable : c ∈ t.table → c ∈ s.table) (hc : c ≠ k) : Frame s (t.update k f) c := by
  refine .of_connection hTable ?_
  rw [State.update_other t f hc, hConnections]

theorem Frame.of_keeps {fields : List Field} (h : Keeps fields s t)
    (hClosing : (s.connections c).closing = true → (t.connections c).closing = true)
    (hFields : ∀ field ∈ [Field.registration, .streamActive, .workerOwned, .readPaused, .output, .table],
      field ∉ fields) : Frame s t c := by
  simp only [List.mem_cons, List.not_mem_nil, or_false, forall_eq_or_imp, forall_eq] at hFields
  obtain ⟨hRegistration, hStream, hOwned, hPaused, hOutput, hTable⟩ := hFields
  refine ⟨?_, (h.registration c hRegistration).1, (h.registration c hRegistration).2, ?_⟩
  · rintro ⟨hMem, hOpen, hNoStream, hNotOwned⟩
    rw [h.table hTable] at hMem
    rw [h.streamActive c hStream] at hNoStream
    rw [h.workerOwned c hOwned] at hNotOwned
    refine ⟨hMem, ?_, hNoStream, hNotOwned⟩
    by_contra hClosed
    rw [hClosing (by simpa using hClosed)] at hOpen
    cases hOpen
  · unfold Steps.interest
    rw [h.readPaused c hPaused, h.output c hOutput]

inductive Effect (s t : State) (c : Nat) (ops : List Op) : Prop
  | frame : Frame s t c → Effect s t c ops
  | requested (site : RefreshSite) :
      .refreshConnectionEvents c site ∈ ops → (Watched s c → Watched t c) → Effect s t c ops
  | settled : Watched t c → Current t c → Effect s t c ops

theorem Effect.of_not_refreshable (h : ¬ refreshable t c) : Effect s t c ops :=
  .settled (fun hRefreshable => absurd hRefreshable h) (fun hRefreshable => absurd hRefreshable h)

theorem not_refreshable_setClosing : ¬ refreshable (s.setClosing c) c := by
  rintro ⟨-, hOpen, -⟩
  rw [State.setClosing, State.update_self] at hOpen
  cases hOpen

theorem Effect.setClosing : Effect s (s.setClosing k) c ops := by
  by_cases hc : c = k
  · subst hc
    exact .of_not_refreshable not_refreshable_setClosing
  · exact .frame (.of_update rfl id hc)

theorem Effect.refl : Effect s s c ops := .frame (.of_connection id rfl)

/-- The guard: a descriptor is given back to the reactor with nothing left to send. -/
def rearmsDrained (system : Threads State Op) (action : Nat × Choice) : Bool :=
  match system.next action.1 with
  | some (.rearmLocked c _ _) => (system.shared.connections c).queuedOutputBytes == 0
  | _ => true

theorem resumePausedConnections_effect :
    Effect s (resumePausedConnections opts s k).1 c (resumePausedConnections opts s k).2 := by
  by_cases hResumed : c ∈ resumable opts s k
  · refine .requested .resume (List.mem_map_of_mem hResumed) ?_
    intro hWatched
    have hConnection : (resumePausedConnections opts s k).1.connections c =
        { s.connections c with readPaused := false } := if_pos hResumed
    rintro ⟨hMem, hOpen⟩
    rw [hConnection] at hOpen ⊢
    exact hWatched ⟨hMem, hOpen⟩
  · exact .frame (.of_connection id (if_neg hResumed))

theorem pauseConnectionReads_effect {r : Nat} {finish : Bool} :
    Effect s (pauseConnectionReads s k r finish).1 c (pauseConnectionReads s k r finish).2 := by
  unfold pauseConnectionReads
  split
  · by_cases hc : c = k
    · subst hc
      refine .requested (.pause r finish) (by simp) ?_
      intro hWatched hRefreshable
      simp only [refreshable, State.update_self, State.update_table] at hRefreshable ⊢
      exact hWatched hRefreshable
    · dsimp only
      exact .frame (.of_update rfl id hc)
  · exact .refl

theorem afterRefresh_effect {refreshed : Bool} {site : RefreshSite} :
    (afterRefresh s k refreshed site).1 = s ∨
      (refreshed = false ∧ (afterRefresh s k refreshed site).1 = s.setClosing k) := by
  cases site with
  | pause r finish =>
    cases refreshed with
    | true => exact .inl rfl
    | false => exact .inr ⟨rfl, rfl⟩
  | _ => exact .inl rfl

theorem setClosing_setClosing : (s.setClosing k).setClosing k = s.setClosing k := by
  simp only [State.setClosing, State.update, State.mk.injEq, true_and, and_true]
  funext c
  split
  · rfl
  · rfl

/-- The four ends of `refresh_connection_events`, with what its caller adds. -/
theorem refreshConnectionEvents_state {site : RefreshSite}
    (h : refreshConnectionEvents s k site choice = some (t, ops)) :
    (¬ refreshable s k ∧ t = s) ∨ t = s.setClosing k ∨
      (t = s ∧ (s.connections k).registeredEvents = interest (s.connections k)) ∨
      t = (s.update k fun k => { k with registeredEvents := interest k, watched := some (interest k) }) := by
  obtain ⟨modified, hNext⟩ := refreshConnectionEvents_cases h
  obtain rfl : _ = t := congrArg Prod.fst hNext
  obtain ⟨hNot, hRefresh⟩ | ⟨-, hSame, hRefresh⟩ | ⟨-, hRefresh⟩ | ⟨-, hRefresh⟩ :=
    refresh_cases s k modified <;> rw [hRefresh]
  · obtain hAfter | ⟨-, hAfter⟩ := @afterRefresh_effect s k false site
    · exact .inl ⟨hNot, hAfter⟩
    · exact .inr (.inl hAfter)
  · obtain hAfter | ⟨hFalse, -⟩ := @afterRefresh_effect s k true site
    · exact .inr (.inr (.inl ⟨hAfter, hSame⟩))
    · cases hFalse
  · obtain hAfter | ⟨hFalse, -⟩ := @afterRefresh_effect
      (s.update k fun k => { k with registeredEvents := interest k, watched := some (interest k) }) k true site
    · exact .inr (.inr (.inr hAfter))
    · cases hFalse
  · obtain hAfter | ⟨-, hAfter⟩ := @afterRefresh_effect (s.setClosing k) k false site
    · exact .inr (.inl hAfter)
    · exact .inr (.inl (hAfter.trans setClosing_setClosing))

theorem refreshConnectionEvents_settles {site : RefreshSite} (hWatched : Watched s k)
    (h : refreshConnectionEvents s k site choice = some (t, ops)) : Watched t k ∧ Current t k := by
  obtain ⟨hNot, rfl⟩ | rfl | ⟨rfl, hSame⟩ | rfl := refreshConnectionEvents_state h
  · exact ⟨hWatched, fun hRefreshable => absurd hRefreshable hNot⟩
  · exact ⟨fun hRefreshable => absurd hRefreshable not_refreshable_setClosing,
      fun hRefreshable => absurd hRefreshable not_refreshable_setClosing⟩
  · exact ⟨hWatched, fun _ => hSame⟩
  · constructor
    · intro _
      rw [State.update_self]
    · intro _
      rw [State.update_self]
      rfl

theorem refreshConnectionEvents_effect {site : RefreshSite} (hWatched : Watched s k)
    (h : refreshConnectionEvents s k site choice = some (t, ops)) : Effect s t c ops := by
  by_cases hc : c = k
  · subst hc
    have hSettled := refreshConnectionEvents_settles hWatched h
    exact .settled hSettled.1 hSettled.2
  · obtain ⟨-, rfl⟩ | rfl | ⟨rfl, -⟩ | rfl := refreshConnectionEvents_state h
    · exact .refl
    · exact .setClosing
    · exact .refl
    · exact .frame (.of_update rfl id hc)

theorem writeFixedResponse_effect {site : WriteSite}
    (h : writeFixedResponse opts s k site choice = some (t, ops)) : Effect s t c ops := by
  obtain ⟨rfl, -⟩ | ⟨rfl, -⟩ | ⟨n, -, -, -, rfl, rfl⟩ := writeFixedResponse_cases h
  · exact .refl
  · exact .setClosing
  · by_cases hc : c = k
    · subst hc
      refine .requested (.write site) (by simp) ?_
      intro hWatched hRefreshable
      simp only [refreshable, State.update_self, State.update_table] at hRefreshable ⊢
      exact hWatched hRefreshable
    · exact .frame (.of_update rfl id hc)

theorem ne_zero_of_left {queued n : UInt64} (hCount : n ≤ queued) (hLeft : queued ≠ n) :
    queued ≠ 0 ∧ queued - n ≠ 0 := by
  refine ⟨?_, sub_ne_zero.mpr hLeft⟩
  rintro rfl
  exact hLeft (UInt64.le_antisymm (UInt64.zero_le) hCount)

theorem flushConnectionOutput_effect {r : Nat} {readAllowed : Bool}
    (h : flushConnectionOutput s k r readAllowed choice = some (t, ops)) : Effect s t c ops := by
  obtain ⟨n, hCount, rfl, hOps⟩ | ⟨rfl, -⟩ := flushConnectionOutput_cases h
  · by_cases hc : c = k
    · subst hc
      obtain ⟨-, rfl⟩ | ⟨hLeft, -⟩ := hOps
      · refine .requested (.flush r readAllowed) (by simp) ?_
        intro hWatched hRefreshable
        simp only [refreshable, State.update_self, State.update_table] at hRefreshable ⊢
        exact hWatched hRefreshable
      · refine .frame ⟨?_, by rw [State.update_self], by rw [State.update_self], ?_⟩
        · intro hRefreshable
          simpa only [refreshable, State.update_self, State.update_table] using hRefreshable
        · obtain ⟨hSome, hStill⟩ := ne_zero_of_left hCount hLeft
          simp only [State.update_self, interest, bne_iff_ne.mpr hSome, bne_iff_ne.mpr hStill]
    · exact .frame (.of_update rfl id hc)
  · exact .setClosing

theorem closeConnection_effect {reactor : Bool} :
    Effect s (closeConnection s k reactor).1 c (closeConnection s k reactor).2 := by
  unfold closeConnection close
  dsimp only
  split
  · by_cases hc : c = k
    · subst hc
      refine .of_not_refreshable ?_
      rintro ⟨-, hOpen, -⟩
      rw [State.update_self] at hOpen
      cases hOpen
    · refine .frame (.of_update rfl (fun hMem => ?_) hc)
      dsimp only at hMem
      split at hMem
      · exact hMem
      · exact (List.mem_filter.mp hMem).1
  · exact .refl

theorem runReactor_effect (h : runReactor opts s choice = some (t, ops)) : Effect s t c ops := by
  obtain ⟨rest, rfl, -⟩ | ⟨k, rest, -, -, rfl⟩ | ⟨k, added, hAccept⟩ := runReactor_cases h
  · exact .frame (.of_connection id rfl)
  · by_cases hc : c = k
    · subst hc
      refine .frame ⟨?_, by rw [State.update_self], by rw [State.update_self], by rw [State.update_self]; rfl⟩
      intro hRefreshable
      simpa only [refreshable, State.update_self, State.update_table] using hRefreshable
    · exact .frame (.of_update rfl id hc)
  · obtain ⟨hNew, hFresh, -, rfl⟩ := acceptConnection_cases hAccept
    by_cases hc : c = k
    · subst hc
      cases added with
      | false => exact .of_not_refreshable fun hRefreshable => hNew hRefreshable.1
      | true =>
        refine .settled (fun _ => ?_) (fun _ => ?_)
        · rw [State.update_self]
          dsimp only
          rw [hFresh]
          rfl
        · rw [State.update_self]
          dsimp only
          rw [hFresh]
          rfl
    · refine .frame (.of_update rfl (fun hMem => ?_) hc)
      cases added with
      | false => exact hMem
      | true =>
        obtain hOld | hLast := List.mem_append.mp hMem
        · exact hOld
        · exact absurd (List.mem_singleton.mp hLast) hc

theorem acquireLease_effect (h : acquireLease s k choice = some (t, ops)) : Effect s t c ops := by
  obtain ⟨-, rfl, -⟩ | ⟨rfl | rfl, -⟩ := acquireLease_cases h
  · by_cases hc : c = k
    · subst hc
      refine .of_not_refreshable ?_
      rintro ⟨-, -, -, hNotOwned⟩
      rw [State.update_self] at hNotOwned
      cases hNotOwned
    · exact .frame (.of_update rfl id hc)
  · exact .refl
  · exact .setClosing

theorem rearm_effect {mayReuse more added : Bool} (hDrained : (s.connections k).queuedOutputBytes = 0) :
    Effect s (rearm s k mayReuse more added) c ops := by
  unfold rearm
  by_cases hc : c = k
  · subst hc
    cases added with
    | false =>
      refine .of_not_refreshable ?_
      rintro ⟨-, hOpen, -⟩
      rw [State.update_self] at hOpen
      simp at hOpen
    | true =>
      refine .settled (fun _ => ?_) (fun _ => ?_)
      · rw [State.update_self]
        rfl
      · rw [State.update_self]
        simp only [interest, hDrained]
        rfl
  · refine .frame (.of_update rfl (fun hMem => ?_) hc)
    dsimp only at hMem
    split at hMem
    · exact hMem
    · obtain hOld | hLast := List.mem_append.mp hMem
      · exact hOld
      · exact absurd (List.mem_singleton.mp hLast) hc

theorem exec_effect (h : exec opts s op choice = some (t, ops)) (hWatched : ∀ c, Watched s c)
    (hDrained : ∀ k mayReuse site, op = .rearmLocked k mayReuse site →
      (s.connections k).queuedOutputBytes = 0) (c : Nat) : Effect s t c ops := by
  by_cases hQuiet : ∀ field ∈ [Field.registration, .streamActive, .workerOwned, .readPaused, .output, .table],
      field ∉ writes op
  · exact .frame (.of_keeps (exec_keeps h) (exec_closing h) hQuiet)
  · cases op with
    | resumePausedConnections k =>
      obtain ⟨rfl, rfl⟩ := outcome_eq h
      exact resumePausedConnections_effect
    | pauseConnectionReads k r finish =>
      obtain ⟨rfl, rfl⟩ := outcome_eq h
      exact pauseConnectionReads_effect
    | refreshConnectionEvents k site => exact refreshConnectionEvents_effect (hWatched k) h
    | writeFixedResponse k site => exact writeFixedResponse_effect h
    | flushConnectionOutput k r readAllowed => exact flushConnectionOutput_effect h
    | closeConnection k reactor =>
      obtain ⟨rfl, rfl⟩ := outcome_eq h
      exact closeConnection_effect
    | streamLease k r n =>
      cases h
      by_cases hc : c = k
      · subst hc
        refine .of_not_refreshable ?_
        rintro ⟨-, -, hNoStream, -⟩
        rw [State.update_self] at hNoStream
        cases hNoStream
      · exact .frame (.of_update rfl id hc)
    | runReactor => exact runReactor_effect h
    | acquireLease k => exact acquireLease_effect h
    | rearmLocked k mayReuse site =>
      obtain ⟨more, rfl, -⟩ | ⟨rfl, -⟩ := rearmLocked_cases h
      · exact rearm_effect (hDrained k mayReuse site rfl)
      · exact rearm_effect (hDrained k mayReuse site rfl)
    | _ => exact absurd (by simp [writes]) hQuiet

structure Inv (system : Threads State Op) : Prop where
  watched : ∀ c, Watched system.shared c
  current : ∀ c, Current system.shared c ∨ ∃ site, .refreshConnectionEvents c site ∈ system.pending

theorem Inv.initial {system : Threads State Op} (h : Initial system) : Inv system := by
  obtain ⟨hShared, -⟩ := h
  have hTable : system.shared.table = [] := by rw [hShared]
  constructor
  · rintro c ⟨hMem, -⟩
    rw [hTable] at hMem
    cases hMem
  · refine fun c => .inl ?_
    rintro ⟨hMem, -⟩
    rw [hTable] at hMem
    cases hMem

theorem Inv.step {system next : Threads State Op} {action : Nat × Choice} (hInv : Inv system)
    (hGuard : rearmsDrained system action = true)
    (hStep : Threads.step (exec opts) system action = some next) : Inv next := by
  obtain ⟨op, ops, others, hNext, hTurn⟩ := Threads.step_cases hStep
  have hDrained : ∀ k mayReuse site, op = .rearmLocked k mayReuse site →
      (system.shared.connections k).queuedOutputBytes = 0 := by
    rintro k mayReuse site rfl
    simpa [rearmsDrained, hNext] using hGuard
  have hEffect := exec_effect hTurn.exec hInv.watched hDrained
  constructor
  · intro c
    cases hEffect c with
    | frame hFrame =>
      intro hRefreshable
      rw [hFrame.watched, hFrame.registeredEvents]
      exact hInv.watched c (hFrame.refreshable hRefreshable)
    | requested site _ hKept => exact hKept (hInv.watched c)
    | settled hWatched _ => exact hWatched
  · intro c
    -- a pending refresh of `c` stays pending unless this step performs it
    have hPending : ∀ site, .refreshConnectionEvents c site ∈ system.pending →
        op = .refreshConnectionEvents c site ∨ .refreshConnectionEvents c site ∈ next.pending := by
      intro site hMem
      rw [hTurn.before] at hMem
      rw [hTurn.after]
      exact (Multiset.mem_cons.mp hMem).imp Eq.symm fun hOther => Multiset.mem_add.mpr (.inr hOther)
    by_cases hRefresh : ∃ site, op = .refreshConnectionEvents c site
    · obtain ⟨site, rfl⟩ := hRefresh
      exact .inl (refreshConnectionEvents_settles (hInv.watched c) hTurn.exec).2
    · cases hEffect c with
      | frame hFrame =>
        obtain hCurrent | ⟨site, hMem⟩ := hInv.current c
        · refine .inl fun hRefreshable => ?_
          rw [hFrame.registeredEvents, hFrame.interest]
          exact hCurrent (hFrame.refreshable hRefreshable)
        · obtain hOp | hStill := hPending site hMem
          · exact absurd ⟨site, hOp⟩ hRefresh
          · exact .inr ⟨site, hStill⟩
      | requested site hPushed _ =>
        refine .inr ⟨site, ?_⟩
        rw [hTurn.after]
        exact Multiset.mem_add.mpr (.inl hPushed)
      | settled _ hCurrent => exact .inl hCurrent

/-- A thread is between a change of what a connection needs and the end of the refresh that follows. -/
def refreshing (c : Nat) : Op → Bool
  | .refreshConnectionEvents k _ => k == c
  | _ => false

/-- As long as descriptors are given back with an empty output queue, a connection of the reactor is
registered for reading iff it is not paused and for writing iff it has output queued, except while a thread
is about to refresh it. -/
theorem interest_matches {system : Threads State Op}
    (h : (machine opts).Reached (fun system action => rearmsDrained system action = true) system)
    (c : Nat) (hQuiet : ∀ op ∈ system.pending, refreshing c op = false)
    (hTable : c ∈ system.shared.table) (hOpen : (system.shared.connections c).closing = false)
    (hStream : (system.shared.connections c).streamActive = false)
    (hOwned : (system.shared.connections c).workerOwned = false) :
    (system.shared.connections c).watched =
      some ⟨!(system.shared.connections c).readPaused,
        (system.shared.connections c).queuedOutputBytes != 0⟩ := by
  have hInv : Inv system :=
    h.invariant (fun _ => Inv.initial) fun _ _ _ _ hInv hGuard hStep => hInv.step hGuard hStep
  have hRefreshable : refreshable system.shared c := ⟨hTable, hOpen, hStream, hOwned⟩
  obtain hCurrent | ⟨site, hMem⟩ := hInv.current c
  · rw [hInv.watched c hRefreshable, hCurrent hRefreshable]
    rfl
  · have hFalse := hQuiet _ hMem
    simp [refreshing] at hFalse

def responseQueued : List (Nat × Choice) :=
  performs 0 [.accept 0 true] ++ readRequest 0 10 none ++ performs 0 [.proceed] ++ leaveConsume ++
    performs 1 [.proceed, .proceed, .queued 24, .proceed]

theorem interest_matches_queued : ∃ system,
    (machine roomy).Reached (fun system action => rearmsDrained system action = true) system ∧
      (system.shared.connections 0).queuedOutputBytes = 24 ∧
      (system.shared.connections 0).watched = some ⟨true, true⟩ := by
  obtain ⟨system, hReached, hPrograms, hTable, hOpen, hStream, hOwned, hReading, hQueued⟩ :=
    Machine.exists_reached_of_exec
      (fun system => system.programs = [[.runReactor], [.completeRegularRequest 0 10 true, .workerLoop]] ∧
        0 ∈ system.shared.table ∧ (system.shared.connections 0).closing = false ∧
        (system.shared.connections 0).streamActive = false ∧ (system.shared.connections 0).workerOwned = false ∧
        (system.shared.connections 0).readPaused = false ∧ (system.shared.connections 0).queuedOutputBytes = 24)
      rearmsDrained responseQueued (M := machine roomy) oneWorker_initial (by decide)
  refine ⟨system, hReached, hQueued, ?_⟩
  rw [interest_matches hReached 0 ?_ hTable hOpen hStream hOwned, hReading, hQueued]
  · rfl
  · simp [Threads.pending, hPrograms, refreshing]

/-- The worker completes the request, takes the continuation lease, waits out the idle grace and gives
the descriptor back. -/
def leaseReturned : List (Nat × Choice) :=
  responseQueued ++ performs 1 (List.replicate 8 Choice.proceed ++
    [Choice.handOver, .proceed, .proceed, .rearmed false])

theorem queued_output_unwatched : ∃ system, (machine roomy).Reachable system ∧
    system.programs = [[.runReactor], [.workerLoop]] ∧ system.shared.table = [0] ∧
    (system.shared.connections 0).closing = false ∧ (system.shared.connections 0).streamActive = false ∧
    (system.shared.connections 0).workerOwned = false ∧ (system.shared.connections 0).queuedOutputBytes = 24 ∧
    (system.shared.connections 0).watched = some ⟨true, false⟩ :=
  Machine.exists_reachable_of_exec _ leaseReturned oneWorker_initial (by decide)

end EasyUds.Server.Interest

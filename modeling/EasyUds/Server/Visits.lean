import EasyUds.Server.Pausing

/-! # The reactor's visit to a connection

From the event until `consume` is left, the reactor works on one `ReactorConnection`. During that time no
lease is granted, the connection is not paused by another thread, and it keeps its `ReactorConnection`.
-/

namespace EasyUds.Server.Visits

open Lib Server.Core Server.Steps Server.Outcomes Server.Footprint
open Server.Ownership Server.Pausing

variable {opts : Options} {s t : State} {op : Op} {choice : Choice} {ops : List Op} {c r : Nat}

def visit : Op → Option (Nat × Nat)
  | .flushConnectionOutput c r _ | .consume c r | .beginPayload c r | .reserveConnection c r _ => some (c, r)
  | .reserveTotal c r _ | .unreserveConnection c r _ | .payloadReserved c r _ | .parse c r => some (c, r)
  | .dispatchRequest c r _ _ | .dispatchStream c r | .streamLease c r _ | .finishRequest c r _ => some (c, r)
  | .pauseConnectionReadsIfNeeded c r | .pauseRecheck c r | .pauseConnectionReads c r _ => some (c, r)
  | .enqueueWorkerJob c r _ false | .enqueueSerializedJob c _ _ (.dispatch r) => some (c, r)
  | .writeFixedResponse c (.consume r) | .threw c (.consume r) => some (c, r)
  | .refreshConnectionEvents c (.write (.consume r)) => some (c, r)
  | .refreshConnectionEvents c (.pause r _) | .refreshConnectionEvents c (.flush r _) => some (c, r)
  | _ => none

theorem owner_of_visit (h : visit op = some (c, r)) : owner op = .reactor c := by
  unfold visit at h
  split at h
  all_goals first | cases h; done | cases h; rfl

theorem visit_of_owner (h : owner op = .reactor c) : ∃ r, visit op = some (c, r) := by
  unfold owner at h
  split at h
  all_goals first | cases h; done | cases h; exact ⟨_, rfl⟩

theorem visit_next (h : exec opts s op choice = some (t, ops)) {o : Op} (ho : o ∈ ops)
    (hVisit : visit o = some (c, r)) :
    visit op = some (c, r) ∨ op = .runReactor ∧ visitable s c ∧ (s.connections c).object = r := by
  cases exec_next h o ho with
  | reactorFlushes hVisitable hAllowed | reactorReads hVisitable hReading =>
    cases hVisit
    exact .inr ⟨rfl, hVisitable, rfl⟩
  | @threw k site | @queued k site | @refreshFailed k site => cases site <;> exact .inl hVisit
  | _ => first | exact .inl hVisit | cases hVisit

theorem streamActive_next (h : exec opts s op choice = some (t, ops))
    (hActive : (t.connections c).streamActive = true) :
    (s.connections c).streamActive = true ∨ ∃ r n, op = .streamLease c r n := by
  by_cases hField : .streamActive ∈ writes op
  · cases op with
    | streamLease k r n =>
      cases h
      by_cases hc : c = k
      · exact .inr ⟨r, n, by rw [hc]⟩
      · rw [State.update_other s _ hc] at hActive
        exact .inl hActive
    | rearmLocked k mayReuse site =>
      by_cases hc : c = k
      · subst hc
        obtain ⟨more, rfl, -⟩ | ⟨rfl, -⟩ := rearmLocked_cases h <;> simp [rearm] at hActive
      · rw [rearmLocked_other h hc] at hActive
        exact .inl hActive
    | _ => simp [writes] at hField
  · exact .inl (((exec_keeps h).streamActive c hField).symm.trans hActive)

theorem workerOwned_next (h : exec opts s op choice = some (t, ops)) (hOwned : (t.connections c).workerOwned = true) :
    (s.connections c).workerOwned = true ∨ op = .acquireLease c ∧ leasable s c := by
  by_cases hField : .workerOwned ∈ writes op
  · cases op with
    | acquireLease k =>
      obtain ⟨hLeasable, rfl, -⟩ | ⟨rfl | rfl, -⟩ := acquireLease_cases h
      · by_cases hc : c = k
        · exact .inr ⟨by rw [hc], hc ▸ hLeasable⟩
        · rw [State.update_other s _ hc] at hOwned
          exact .inl hOwned
      · exact .inl hOwned
      · exact .inl (((@Keeps.setClosing s [.closing] k (by decide)).workerOwned c (by decide)).symm.trans hOwned)
    | rearmLocked k mayReuse site =>
      by_cases hc : c = k
      · subst hc
        obtain ⟨more, rfl, -⟩ | ⟨rfl, -⟩ := rearmLocked_cases h <;> simp [rearm] at hOwned
      · rw [rearmLocked_other h hc] at hOwned
        exact .inl hOwned
    | _ => simp [writes] at hField
  · exact .inl (((exec_keeps h).workerOwned c hField).symm.trans hOwned)

theorem object_update {k : Nat} {f : Connection → Connection} (hf : ∀ l, (f l).object = l.object) :
    ((s.update k f).connections c).object = (s.connections c).object := by
  rw [State.update_apply]
  split
  · exact hf _
  · rfl

theorem object_account {k : Nat} (n : UInt64) :
    ((accountConnectionRequest opts s k n).connections c).object = (s.connections c).object := by
  unfold accountConnectionRequest
  split <;> exact object_update fun _ => rfl

theorem object_next (h : exec opts s op choice = some (t, ops))
    (hRearm : ∀ mayReuse site, op ≠ .rearmLocked c mayReuse site) :
    (t.connections c).object = (s.connections c).object ∨
      op = .runReactor ∧ ops = [.runReactor] ∧ s.connections c = {} := by
  cases exec_outcome h with
  | accept k added hAccept =>
    obtain ⟨-, hNew, hOps, rfl⟩ := acceptConnection_cases hAccept
    by_cases hc : c = k
    · exact .inr ⟨rfl, hOps, hc ▸ hNew⟩
    · exact .inl (congrArg Connection.object (State.update_other _ _ hc))
  | @rearmLocked k | @rearmRefused k =>
    have hc : c ≠ k := by
      rintro rfl
      exact hRearm _ _ rfl
    exact .inl (congrArg Connection.object (rearmLocked_other h hc))
  | @refreshConnectionEvents k site modified =>
    refine .inl ?_
    have hRefresh : ((refresh s k modified).1.connections c).object = (s.connections c).object := by
      obtain ⟨-, h⟩ | ⟨-, -, h⟩ | ⟨-, h⟩ | ⟨-, h⟩ := refresh_cases s k modified <;> rw [h] <;> dsimp only
      · exact object_update fun _ => rfl
      · exact object_update fun _ => rfl
    rw [← hRefresh]
    cases site with
    | pause r finish =>
      simp only [afterRefresh]
      split
      · rfl
      · exact object_update fun _ => rfl
    | _ => rfl
  | parse hParsed =>
    refine .inl ?_
    rw [State.update_apply]
    split
    · rename_i hc
      subst hc
      cases hParsed <;> rfl
    · rfl
  | leaseRefused hSame | continueLeaves hSame | exchangeReserved hSame | exchange hSame =>
    obtain rfl | rfl := hSame
    · exact .inl rfl
    · exact .inl (object_update fun _ => rfl)
  | queueRequest => exact .inl ((object_account _).trans (object_update fun _ => rfl))
  | @admitted k n route site latestWins =>
    cases site with
    | dispatch r => exact .inl ((object_account _).trans (object_update fun _ => rfl))
    | continuation =>
      dsimp only [admitJob]
      exact .inl (object_update fun _ => rfl)
  | resumePausedConnections =>
    refine .inl ?_
    dsimp only [resumePausedConnections]
    split <;> rfl
  | closeConnection =>
    refine .inl ?_
    unfold close
    split
    · exact object_update fun _ => rfl
    · rfl
  | reactorDone =>
    refine .inl ?_
    unfold reactorDone
    dsimp only
    split
    · exact object_update fun _ => rfl
    · rfl
  | _ => first | exact .inl rfl | exact .inl (object_update fun _ => rfl)

structure Inv (system : Threads State Op) : Prop where
  reading : ∀ op ∈ system.pending, ∀ c, reads op = some c → (system.shared.connections c).readPaused = false
  visited : ∀ op ∈ system.pending, ∀ c r, visit op = some (c, r) →
    (system.shared.connections c).object = r ∧ (system.shared.connections c).streamActive = false ∧
      (system.shared.connections c).workerOwned = false
  streaming : ∀ c, (system.shared.connections c).streamActive = true →
    (system.shared.connections c).workerOwned = false ∧ (system.shared.connections c).readPaused = false

section Step

variable {system later : Threads State Op} {others : Multiset Op}

theorem Inv.apart (hInv : Inv system) (hOp : op ∈ system.pending) (hOwner : owner op = .reactor c) :
    (system.shared.connections c).streamActive = false ∧ (system.shared.connections c).workerOwned = false := by
  obtain ⟨r, hVisit⟩ := visit_of_owner hOwner
  exact (hInv.visited op hOp c r hVisit).2

theorem claim_of_reactor (h : owner op = .reactor c) : claim c op = 1 := by
  rw [claim, h]
  exact if_pos rfl

theorem Inv.visit_stays (hInv : Inv system) (hOwners : Ownership.Inv opts system)
    (hBefore : system.pending = op ::ₘ others)
    (hExec : exec opts system.shared op choice = some (t, ops)) {o : Op} (ho : o ∈ others)
    (hVisit : visit o = some (c, r)) :
    (t.connections c).object = r ∧ (t.connections c).streamActive = false ∧
      (t.connections c).workerOwned = false := by
  have hMem : o ∈ system.pending := hBefore ▸ Multiset.mem_cons_of_mem ho
  have hOp : op ∈ system.pending := hBefore ▸ Multiset.mem_cons_self _ _
  have hReactor := owner_of_visit hVisit
  have hBusy : (system.shared.connections c).reactorBusy = true := by
    have hFlag := hOwners.flags o hMem
    rwa [hReactor] at hFlag
  have hUnique : claim c op = 0 := hOwners.claim_unique hBefore ho (claim_of_reactor hReactor)
  obtain ⟨hObject, hStream, hOwned⟩ := hInv.visited o hMem c r hVisit
  refine ⟨?_, ?_, ?_⟩
  · obtain hSame | ⟨-, -, hNew⟩ := object_next (c := c) hExec (by
      rintro mayReuse site rfl
      rw [claims_rearmLocked (hOwners.sane _ hOp)] at hUnique
      cases hUnique)
    · exact hSame.trans hObject
    · rw [hNew] at hBusy
      cases hBusy
  · by_contra hRaised
    obtain hWas | ⟨q, n, rfl⟩ := streamActive_next hExec (by simpa using hRaised)
    · cases hWas.symm.trans hStream
    · cases hUnique.symm.trans (if_pos rfl)
  · by_contra hRaised
    obtain hWas | ⟨rfl, hLeasable⟩ := workerOwned_next hExec (by simpa using hRaised)
    · cases hWas.symm.trans hOwned
    · cases hBusy.symm.trans hLeasable.2.1

theorem Inv.visit_goes_on (hInv : Inv system) (hBefore : system.pending = op ::ₘ others)
    (hExec : exec opts system.shared op choice = some (t, ops)) {o : Op} (ho : o ∈ ops)
    (hVisit : visit o = some (c, r)) :
    (t.connections c).object = r ∧ (t.connections c).streamActive = false ∧
      (t.connections c).workerOwned = false := by
  have hOp : op ∈ system.pending := hBefore ▸ Multiset.mem_cons_self _ _
  have hNext := visit_next hExec ho hVisit
  have hFacts : (system.shared.connections c).object = r ∧ (system.shared.connections c).streamActive = false ∧
      (system.shared.connections c).workerOwned = false := by
    obtain hSame | ⟨-, hOpen, hObject⟩ := hNext
    · exact hInv.visited op hOp c r hSame
    · exact ⟨hObject, hOpen.2.2⟩
  obtain ⟨hObject, hStream, hOwned⟩ := hFacts
  refine ⟨?_, ?_, ?_⟩
  · obtain hSame | ⟨-, rfl, -⟩ := object_next (c := c) hExec (by
      rintro mayReuse site rfl
      obtain hSame | ⟨hEq, -⟩ := hNext <;> contradiction)
    · exact hSame.trans hObject
    · rw [List.mem_singleton.mp ho] at hVisit
      cases hVisit
  · by_contra hRaised
    obtain hWas | ⟨q, n, rfl⟩ := streamActive_next hExec (by simpa using hRaised)
    · cases hWas.symm.trans hStream
    · cases hExec
      rw [List.mem_singleton.mp ho] at hVisit
      cases hVisit
  · by_contra hRaised
    obtain hWas | ⟨rfl, -⟩ := workerOwned_next hExec (by simpa using hRaised)
    · cases hWas.symm.trans hOwned
    · obtain hSame | ⟨hEq, -⟩ := hNext <;> contradiction

theorem Inv.streaming_next (hInv : Inv system) (hOp : op ∈ system.pending)
    (hExec : exec opts system.shared op choice = some (t, ops)) (hStream : (t.connections c).streamActive = true) :
    (t.connections c).workerOwned = false ∧ (t.connections c).readPaused = false := by
  obtain hWas | ⟨r, n, rfl⟩ := streamActive_next hExec hStream
  · obtain ⟨hOwned, hReading⟩ := hInv.streaming c hWas
    constructor
    · by_contra hRaised
      obtain hOld | ⟨rfl, hLeasable⟩ := workerOwned_next hExec (by simpa using hRaised)
      · cases hOld.symm.trans hOwned
      · cases hWas.symm.trans hLeasable.2.2.2.2.2.1
    · by_contra hRaised
      obtain hOld | ⟨r, finish, rfl, -⟩ := readPaused_next hExec (by simpa using hRaised)
      · cases hOld.symm.trans hReading
      · cases hWas.symm.trans (hInv.apart hOp rfl).1
  · have hKeeps := exec_keeps hExec
    rw [hKeeps.workerOwned c (by simp [writes]), hKeeps.readPaused c (by simp [writes])]
    exact ⟨(hInv.apart hOp rfl).2, hInv.reading _ hOp c rfl⟩

theorem Inv.next (hInv : Inv system) (hOwners : Ownership.Inv opts system)
    (hTurn : Turn opts system op choice ops others later) : Inv later where
  reading := fun _ ho _ => reading_next hOwners hInv.reading hTurn ho
  visited := by
    intro o ho c r hVisit
    exact (hTurn.mem_later ho).elim (fun hNew => hInv.visit_goes_on hTurn.before hTurn.exec hNew hVisit)
      (fun hOther => hInv.visit_stays hOwners hTurn.before hTurn.exec hOther hVisit)
  streaming := fun _ => hInv.streaming_next hTurn.mem hTurn.exec

end Step

theorem Inv.start {system : Threads State Op} (h : Initial system) : Inv system := by
  refine ⟨?_, ?_, ?_⟩
  · rw [h.1]
    exact fun _ _ _ _ => rfl
  · intro op hOp c r hVisit
    obtain rfl | rfl | rfl | rfl := initial_pending h hOp <;> cases hVisit
  · rw [h.1]
    intro c hStream
    cases hStream

theorem reached_visits {guard : Threads State Op → Nat × Choice → Prop} {system : Threads State Op}
    (h : (machine opts).Reached guard system) : Inv system :=
  h.invariant (fun _ => Inv.start) fun _ _ _ hReached hInv _ hStep => by
    obtain ⟨op, ops, others, -, hTurn⟩ := Threads.step_cases hStep
    exact hInv.next (reached_inv hReached) hTurn

end EasyUds.Server.Visits

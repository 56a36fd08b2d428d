import EasyUds.Server.Closing

/-! # The connection table

The reactor closes a connection that has expired after it has left the section in which it looked at the
flags. A lease that is granted in between does not stop it. If the worker has already found the connection
open when it gives the descriptor back, its section puts an erased connection into the table again, after the
reactor has accepted another one in its place.
-/

namespace EasyUds.Server.Table

open Lib Server.Core Server.Steps Server.Outcomes Server.Footprint
open Server.Ownership Server.Pausing Server.Counters Server.Closing

variable {opts : Options} {s t : State} {op : Op} {choice : Choice} {ops : List Op} {c : Nat}

def rearming : Op → Option Nat
  | .rearmRunning c .continuation | .rearmRunning c .stream => some c
  | .rearmLocked c _ .continuation | .rearmLocked c _ .stream => some c
  | _ => none

/-- The reactor erases no connection from the table while another thread is in `rearm_connection`, between
the load of `closing` and the section. -/
def closesOutsideRearm (system : Threads State Op) (action : Nat × Choice) : Bool :=
  match system.next action.1 with
  | some (.closeConnection c true) =>
    (system.shared.connections c).activeRegular != 0 || (system.shared.connections c).pendingSerialized != 0 ||
      system.programs.flatten.all fun op => rearming op != some c
  | _ => true

def owners (system : Threads State Op) (c : Nat) : Nat :=
  Threads.weigh (claim c) system.pending + streamJobs c system.shared.pendingJobs

structure Inv (opts : Options) (system : Threads State Op) : Prop where
  present : ∀ c, owners system c ≠ 0 →
    c ∈ system.shared.table ∨ (system.shared.connections c).closing = true
  rearmed : ∀ op ∈ system.pending, ∀ c, rearming op = some c → c ∈ system.shared.table
  bounded : system.shared.table.length ≤ opts.maxConnections

theorem erased_closing (h : exec opts s op choice = some (t, ops)) (hTable : c ∈ s.table) :
    c ∈ t.table ∨ (t.connections c).closing = true := by
  obtain hStays | ⟨⟨reactor, rfl⟩, -⟩ := table_stays h hTable
  · exact .inl hStays
  · obtain ⟨rfl, -⟩ := outcome_eq h
    refine .inr ?_
    rw [closeConnection, close, if_pos hTable, State.update_self]

theorem owner_of_rearming (h : rearming op = some c) : owner op = .worker c ∨ owner op = .stream c := by
  unfold rearming at h
  split at h
  · cases h
    exact .inl rfl
  · cases h
    exact .inr rfl
  · cases h
    exact .inl rfl
  · cases h
    exact .inr rfl
  · cases h

theorem claim_of_leased (h : owner op = .worker c ∨ owner op = .stream c) : claim c op = 1 := by
  unfold claim
  obtain hOwner | hOwner := h <;> rw [hOwner] <;> exact if_pos rfl

theorem rearming_next (h : exec opts s op choice = some (t, ops)) {o : Op} (ho : o ∈ ops)
    (hRearming : rearming o = some c) :
    t = s ∧ (rearming op = some c ∨ claim c op = 1 ∧ (s.connections c).closing = false) := by
  have hLeased := owner_of_rearming hRearming
  cases exec_next h o ho with
  | @rearmRunning k site hOpen =>
    obtain ⟨rfl, -⟩ := outcome_eq h
    refine ⟨rfl, .inr ?_⟩
    cases site <;> cases hRearming <;> exact ⟨claim_of_leased hLeased, hOpen⟩
  | @rearmLocked k mayReuse site =>
    obtain ⟨rfl, -⟩ := outcome_eq h
    refine ⟨rfl, .inl ?_⟩
    cases site <;> exact hRearming
  | _ => cases hRearming

section Step

variable {system later : Threads State Op} {others : Multiset Op}

theorem owners_next (hTurn : Turn opts system op choice ops others later) (hOwned : owners later c ≠ 0) :
    owners system c ≠ 0 ∨ c ∈ system.shared.table ∧ (system.shared.connections c).closing = false := by
  unfold owners at hOwned ⊢
  rw [hTurn.after, Threads.weigh_add] at hOwned
  rw [hTurn.before, Threads.weigh_cons]
  obtain hMoved | ⟨-, -, ⟨-, hTable, hOpen, -⟩ | ⟨-, hTable, -, -, -, -, -, -, hOpen, -⟩⟩ := claims_next hTurn.exec c
  · refine .inl ?_
    omega
  · exact .inr ⟨hTable, hOpen⟩
  · exact .inr ⟨hTable, hOpen⟩

theorem Inv.present_next (hInv : Inv opts system) (hTurn : Turn opts system op choice ops others later)
    (hOwned : owners later c ≠ 0) :
    c ∈ later.shared.table ∨ (later.shared.connections c).closing = true := by
  have hWas : c ∈ system.shared.table ∨ (system.shared.connections c).closing = true :=
    (owners_next hTurn hOwned).elim (hInv.present c) fun hNew => .inl hNew.1
  exact hWas.elim (erased_closing hTurn.exec) fun hClosing => .inr (exec_closing hTurn.exec hClosing)

theorem owners_of_claim (hOp : op ∈ system.pending) (hClaim : claim c op = 1) : owners system c ≠ 0 := by
  have hLe := Threads.le_weigh (claim c) hOp
  unfold owners
  omega

theorem Inv.rearmed_next (hInv : Inv opts system)
    (hReactor : op = .closeConnection c true → (system.shared.connections c).activeRegular = 0 →
      (system.shared.connections c).pendingSerialized = 0 → ∀ o ∈ system.pending, rearming o ≠ some c)
    (hSpared : op = .closeConnection c false → (system.shared.connections c).activeRegular = 0 →
      (system.shared.connections c).pendingSerialized = 0 →
        ∀ o ∈ system.pending, reads o ≠ some c ∧ owner o ≠ .stream c)
    (hTurn : Turn opts system op choice ops others later) {o : Op} (ho : o ∈ later.pending)
    (hRearming : rearming o = some c) :
    c ∈ later.shared.table := by
  have hOp := hTurn.mem
  obtain hNew | hOther := hTurn.mem_later ho
  · obtain ⟨hSame, hWas | ⟨hClaim, hOpen⟩⟩ := rearming_next hTurn.exec hNew hRearming
    · exact hSame ▸ hInv.rearmed op hOp c hWas
    · rw [hSame]
      refine (hInv.present c (owners_of_claim hOp hClaim)).resolve_right fun hClosing => ?_
      cases hClosing.symm.trans hOpen
  · have hMem : o ∈ system.pending := hTurn.mem_other hOther
    obtain hStays | ⟨⟨reactor, rfl⟩, hActive, hSerialized⟩ := table_stays hTurn.exec (hInv.rearmed o hMem c hRearming)
    · exact hStays
    · cases reactor with
      | true => exact absurd hRearming (hReactor rfl hActive hSerialized o hMem)
      | false =>
        obtain ⟨hUnread, hNoStream⟩ := hSpared rfl hActive hSerialized o hMem
        obtain hWorker | hStream := owner_of_rearming hRearming
        · exact absurd (by rw [reads, hWorker]) hUnread
        · exact absurd hStream hNoStream

theorem Inv.bounded_next (hInv : Inv opts system) (hOwners : Ownership.Inv opts system) (hOp : op ∈ system.pending)
    (hExec : exec opts system.shared op choice = some (t, ops)) : t.table.length ≤ opts.maxConnections := by
  obtain hLe | hRoom | ⟨c, mayReuse, site, rfl, hErased⟩ := table_length_next hExec
  · exact hLe.trans hInv.bounded
  · exact hRoom
  · refine absurd (hInv.rearmed _ hOp c ?_) hErased
    cases site with
    | failed => exact (hOwners.sane _ hOp).elim
    | _ => rfl

theorem Inv.next {action : Nat × Choice} (hInv : Inv opts system) (hOwners : Ownership.Inv opts system)
    (hClosing : Closing.Inv opts system) (hGuard : closesOutsideRearm system action = true)
    (hStep : (machine opts).step system action = some later) : Inv opts later := by
  obtain ⟨op, ops, rest, others, hProgram, -, hTurn⟩ := Threads.step_programs hStep
  have hNext := Threads.next_of_program hProgram
  refine ⟨fun c => hInv.present_next hTurn, fun o ho c => ?_,
    hInv.bounded_next hOwners hTurn.mem hTurn.exec⟩
  refine hInv.rearmed_next ?_ ?_ hTurn ho
  · rintro rfl hActive hSerialized o ho
    simp only [closesOutsideRearm, hNext, hActive, hSerialized, bne_self_eq_false, Bool.false_or, List.all_eq_true,
      bne_iff_ne] at hGuard
    exact hGuard o ho
  · rintro rfl hActive hSerialized o ho
    obtain hCounted | hCounted | ⟨hUnread, -⟩ := hClosing.close_spares hOwners hProgram
    · exact absurd hActive hCounted
    · exact absurd hSerialized hCounted
    · exact hUnread o ho

end Step

theorem Inv.start {system : Threads State Op} (h : Initial system) : Inv opts system := by
  refine ⟨fun c hOwned => absurd ?_ hOwned, fun op hOp c hRearming => ?_, ?_⟩
  · have hNone : Threads.weigh (claim c) system.pending = 0 := by
      refine Threads.weigh_eq_zero _ fun op hOp => ?_
      obtain rfl | rfl | rfl | rfl := initial_pending h hOp <;> rfl
    rw [owners, hNone, h.1]
    rfl
  · obtain rfl | rfl | rfl | rfl := initial_pending h hOp <;> cases hRearming
  · rw [h.1]
    exact Nat.zero_le _

/-- If the reactor erases no connection during a `rearm_connection` and the two counters do not overflow,
then a connection has one owner at most, an open one with an owner is in the table, `rearm_connection` adds
no key, and the table keeps to its cap. -/
theorem one_reader_bounded_table {system : Threads State Op}
    (h : (machine opts).Reached
      (fun system action => (closesOutsideRearm system action && countersFit system action) = true) system) :
    (∀ c, owners system c ≤ 1) ∧
      (∀ c, owners system c ≠ 0 → (system.shared.connections c).closing = false → c ∈ system.shared.table) ∧
      (∀ c mayReuse site, .rearmLocked c mayReuse site ∈ system.pending → ∀ more added,
        (rearm system.shared c mayReuse more added).table = system.shared.table) ∧
      system.shared.table.length ≤ opts.maxConnections := by
  have hOwners := reached_inv h
  have hInv : Inv opts system :=
    h.invariant (fun _ => Inv.start) fun _ _ _ hReached hInv hGuard hStep =>
      hInv.next (reached_inv hReached)
        (reached_closing (fun _ _ hBoth => (Bool.and_eq_true_iff.mp hBoth).2) hReached)
        (Bool.and_eq_true_iff.mp hGuard).1 hStep
  refine ⟨hOwners.single, fun c hOwned hOpen => ?_, fun c mayReuse site hRearm more added => ?_, hInv.bounded⟩
  · refine (hInv.present c hOwned).resolve_right fun hClosing => ?_
    cases hClosing.symm.trans hOpen
  · have hTable : c ∈ system.shared.table := by
      refine hInv.rearmed _ hRearm c ?_
      cases site with
      | failed => exact (hOwners.sane _ hRearm).elim
      | _ => rfl
    simp [rearm, hTable]

def single : Options := { roomy with maxConnections := 1, connections_pos := by decide, streams_fit := by decide }

def answersOnce : List (Nat × Choice) :=
  performs 0 [.accept 0 true] ++ readRequest 0 10 none ++ performs 0 [.proceed] ++ leaveConsume ++
    performs 1 ([Choice.proceed, .proceed, .sent] ++ List.replicate 7 Choice.proceed)

def findsOpen : List (Nat × Choice) := performs 1 [.proceed, .handOver, .proceed, .proceed]

theorem one_reader_bounded_table_leased : ∃ system,
    (machine single).Reached
        (fun system action => (closesOutsideRearm system action && countersFit system action) = true) system ∧
      owners system 0 = 1 ∧ .rearmLocked 0 true .continuation ∈ system.pending ∧
      (rearm system.shared 0 true false true).table = system.shared.table ∧
      system.shared.table.length ≤ single.maxConnections := by
  obtain ⟨system, hReached, hOwners, hRearm⟩ := Machine.exists_reached_of_exec
    (fun system => owners system 0 = 1 ∧ .rearmLocked 0 true .continuation ∈ system.pending)
    (fun system action => closesOutsideRearm system action && countersFit system action)
    (answersOnce ++ findsOpen) (M := machine single) oneWorker_initial (by decide)
  obtain ⟨-, -, hKeys, hBounded⟩ := one_reader_bounded_table hReached
  exact ⟨system, hReached, hOwners, hRearm, hKeys 0 true .continuation hRearm false true, hBounded⟩

/-- The reactor closes an expired connection after the worker has found it open, and accepts the next one;
then the worker gives the descriptor back. -/
theorem table_exceeds_cap : ∃ system, (machine single).Reachable system ∧ system.shared.table = [1, 0] ∧
    single.maxConnections = 1 :=
  Machine.exists_reachable_of_exec _
    (answersOnce ++ performs 0 [.expire 0] ++ findsOpen ++ performs 0 [.proceed, .accept 1 true] ++
      performs 1 [.rearmed false])
    oneWorker_initial (by decide)

end EasyUds.Server.Table

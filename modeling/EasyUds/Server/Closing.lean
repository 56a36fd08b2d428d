import EasyUds.Server.Counters
import EasyUds.Server.Visits

/-! # Who closes a connection

A thread other than the reactor closes a connection when an answer overflows its output, and when the
connection is closing while its descriptor is given back. In the first case the request that is answered is
still counted, in the second one nobody owns the connection any more. So such a `close_connection` never
erases a connection that another thread is reading or holds a lease of.
-/

namespace EasyUds.Server.Closing

open Lib Server.Core Server.Steps Server.Outcomes Server.Footprint
open Server.Ownership Server.Pausing Server.Ledger Server.Counters

variable {opts : Options} {s t : State} {op : Op} {choice : Choice} {ops rest : List Op} {c : Nat}

def served : Op → Option Nat
  | .execute c | .writeFixedResponse c .guarded | .threw c .guarded => some c
  | .refreshConnectionEvents c (.write .guarded) => some c
  | _ => none

def settles : Op → Option Nat
  | .completeRegularRequest c _ _ | .subSerialized c _ => some c
  | _ => none

def closes : Op → Option Nat
  | .closeConnection c false => some c
  | _ => none

def overflowed : Op → Option Nat
  | .completeRegularRequest c _ _ | .subSerialized c _ => some c
  | .threw c (.continuation _) | .threw c (.consume _) => some c
  | _ => none

theorem overflowed_of_settles (h : settles op = some c) : overflowed op = some c := by
  unfold settles at h
  split at h
  all_goals first | cases h; done | exact h

/-- A connection that is closing and has no owner, or one with a request that was never completed. -/
def Shut (opts : Options) (system : Threads State Op) (c : Nat) : Prop :=
  ((system.shared.connections c).closing = true ∧
      Threads.weigh (claim c) system.pending + streamJobs c system.shared.pendingJobs = 0) ∨
    Covers opts .active 1 system c

def Ordered (opts : Options) (system : Threads State Op) : List Op → Prop
  | [] => True
  | op :: rest =>
    (∀ c, served op = some c → ∃ o ∈ rest, settles o = some c) ∧
      (∀ c, closes op = some c → (∃ o ∈ rest, overflowed o = some c) ∨ Shut opts system c) ∧
      Ordered opts system rest

def plain (op : Op) : Prop := served op = none ∧ closes op = none

section Programs

variable {system later : Threads State Op}

theorem Ordered.plain_cons {o : Op} (hPlain : plain o) (h : Ordered opts system rest) :
    Ordered opts system (o :: rest) := by
  refine ⟨fun c hServed => ?_, fun c hCloses => ?_, h⟩
  · rw [hPlain.1] at hServed
    cases hServed
  · rw [hPlain.2] at hCloses
    cases hCloses

theorem Ordered.plain_append (hPlain : ∀ o ∈ ops, plain o) (h : Ordered opts system rest) :
    Ordered opts system (ops ++ rest) := by
  induction ops with
  | nil => exact h
  | cons o more ih =>
    exact .plain_cons (hPlain o List.mem_cons_self) (ih fun x hx => hPlain x (List.mem_cons_of_mem _ hx))

theorem Ordered.served_cons {o : Op} (hServed : served o = some c) (hSettled : ∃ x ∈ rest, settles x = some c)
    (hCloses : closes o = none) (h : Ordered opts system rest) : Ordered opts system (o :: rest) := by
  refine ⟨fun k hk => ?_, fun k hk => ?_, h⟩
  · rw [hServed] at hk
    cases hk
    exact hSettled
  · rw [hCloses] at hk
    cases hk

theorem Ordered.settled {program : List Op} (h : Ordered opts system program) (hOp : op ∈ program)
    (hServed : served op = some c) : ∃ o ∈ program, settles o = some c := by
  induction program with
  | nil => cases hOp
  | cons first rest ih =>
    obtain rfl | hRest := List.mem_cons.mp hOp
    · obtain ⟨o, ho, hSettles⟩ := h.1 c hServed
      exact ⟨o, List.mem_cons_of_mem _ ho, hSettles⟩
    · obtain ⟨o, ho, hSettles⟩ := ih h.2.2 hRest
      exact ⟨o, List.mem_cons_of_mem _ ho, hSettles⟩

theorem Ordered.mono (hShut : ∀ c, Shut opts system c → Shut opts later c) (h : Ordered opts system rest) :
    Ordered opts later rest := by
  induction rest with
  | nil => trivial
  | cons o more ih => exact ⟨h.1, fun c hCloses => (h.2.1 c hCloses).imp_right (hShut c), ih h.2.2⟩

def notable : Op → Bool
  | .workerLoop | .serializedWorkerLoop | .serveFixedRequest .. | .enqueueSerializedJob .. => true
  | .execute _ | .writeFixedResponse .. | .refreshConnectionEvents .. => true
  | .rearmConnection .. | .rearmLocked .. => true
  | _ => false

theorem giveBack_plain {n : UInt64} : ∀ o ∈ giveBack opts c n, plain o := by
  unfold giveBack
  split <;> simp [plain, served, closes]

theorem afterFlush_plain {r : Nat} {readAllowed : Bool} : ∀ o ∈ afterFlush c r readAllowed, plain o := by
  cases readAllowed <;> simp [afterFlush, plain, served, closes]

theorem afterPause_plain {r : Nat} {finish : Bool} : ∀ o ∈ afterPause c r finish, plain o := by
  cases finish <;> simp [afterPause, plain, served, closes]

theorem plain_next (h : exec opts s op choice = some (t, ops)) (hPlain : notable op = false) :
    ∀ o ∈ ops, plain o := by
  intro o ho
  cases exec_next h o ho with
  | @threw c site | @queued c site | @refreshFailed c site => cases site <;> first | exact ⟨rfl, rfl⟩ | cases hPlain
  | _ => first | exact ⟨rfl, rfl⟩ | cases hPlain

theorem Ordered.finishSuperseded (jobs : List SerializedJob) (h : Ordered opts system rest) :
    Ordered opts system (jobs.flatMap finishSuperseded ++ rest) := by
  induction jobs with
  | nil => exact h
  | cons job more ih =>
    rw [List.flatMap_cons, List.append_assoc]
    refine .served_cons rfl ⟨_, List.mem_cons_self, rfl⟩ rfl (.plain_cons ⟨rfl, rfl⟩ ih)

theorem Ordered.threw {site : WriteSite} (hSettled : site = .guarded → ∃ o ∈ rest, settles o = some c)
    (h : Ordered opts system rest) : Ordered opts system (.threw c site :: rest) := by
  cases site with
  | guarded => exact .served_cons rfl (hSettled rfl) rfl h
  | consume r | continuation n => exact .plain_cons ⟨rfl, rfl⟩ h

theorem Ordered.afterWrite {site : WriteSite} (h : Ordered opts system rest) :
    Ordered opts system (afterWrite c site ++ rest) := by
  cases site with
  | guarded => exact h
  | consume r | continuation n => exact .plain_cons ⟨rfl, rfl⟩ h

theorem Ordered.write {site : WriteSite} (hExec : exec opts s (.writeFixedResponse c site) choice = some (t, ops))
    (hSettled : site = .guarded → ∃ o ∈ rest, settles o = some c) (h : Ordered opts system rest) :
    Ordered opts system (ops ++ rest) := by
  obtain ⟨-, ⟨-, rfl⟩ | ⟨-, rfl⟩ | rfl⟩ | ⟨-, rfl⟩ | ⟨m, -, -, -, -, rfl⟩ := writeFixedResponse_cases hExec
  · exact .threw hSettled h
  · exact .afterWrite h
  · refine .plain_cons ⟨rfl, rfl⟩ ⟨nofun, fun k hk => .inl ?_, .threw hSettled h⟩
    cases hk
    cases site with
    | guarded =>
      obtain ⟨o, ho, hSettles⟩ := hSettled rfl
      exact ⟨o, List.mem_cons_of_mem _ ho, overflowed_of_settles hSettles⟩
    | consume r | continuation n => exact ⟨_, List.mem_cons_self, rfl⟩
  · exact .threw hSettled h
  · cases site with
    | guarded => exact .served_cons rfl (hSettled rfl) rfl h
    | consume r | continuation n => exact .plain_cons ⟨rfl, rfl⟩ h

theorem Ordered.refresh {site : RefreshSite} {refreshed : Bool}
    (hSettled : site = .write .guarded → ∃ o ∈ rest, settles o = some c) (h : Ordered opts system rest) :
    Ordered opts system ((afterRefresh s c refreshed site).2 ++ rest) := by
  cases site with
  | resume => exact h
  | pause r finish => exact .plain_append afterPause_plain h
  | write site =>
    simp only [afterRefresh]
    split
    · exact .afterWrite h
    · exact .threw (fun hSite => hSettled (hSite ▸ rfl)) h
  | flush r readAllowed =>
    simp only [afterRefresh]
    split
    · exact .plain_append afterFlush_plain h
    · exact .plain_cons ⟨rfl, rfl⟩ h

theorem Ordered.enqueueSerialized {n : UInt64} {route : Nat} {site : AdmissionSite}
    (hExec : exec opts s (.enqueueSerializedJob c n route site) choice = some (t, ops))
    (h : Ordered opts system rest) : Ordered opts system (ops ++ rest) := by
  obtain ⟨-, hOps⟩ | ⟨latestWins, hNext⟩ := enqueueSerializedJob_cases hExec
  · refine .plain_append ?_ h
    cases site with
    | dispatch r =>
      obtain rfl | rfl | rfl := hOps <;> refine List.forall_mem_append.mpr ⟨giveBack_plain, ?_⟩ <;>
        simp [plain, served, closes]
    | continuation =>
      obtain rfl | rfl | rfl := hOps <;>
        simp [afterAllocationFailed, afterStopping, afterBusy, plain, served, closes]
  · obtain rfl : ops = _ := congrArg Prod.snd hNext
    simp only [admitJob, List.append_assoc]
    refine .finishSuperseded _ ?_
    cases site <;> exact .plain_cons ⟨rfl, rfl⟩ h

theorem Ordered.next (hExec : exec opts s op choice = some (t, ops)) (h : Ordered opts system (op :: rest))
    (hRearm : ∀ c site, op = .rearmConnection c site → (s.connections c).closing = true → Shut opts system c)
    (hRefused : ∀ c mayReuse site, op = .rearmLocked c mayReuse site → ops = [.closeConnection c false] →
      Shut opts system c) : Ordered opts system (ops ++ rest) := by
  obtain ⟨hServed, -, hRest⟩ := h
  cases hNotable : notable op with
  | false => exact .plain_append (plain_next hExec hNotable) hRest
  | true =>
    cases op with
    | workerLoop =>
      obtain ⟨job, jobs, -, -, rfl⟩ | ⟨-, rfl⟩ := workerLoop_cases hExec
      · unfold startJob
        split
        · exact .plain_cons ⟨rfl, rfl⟩ (.plain_cons ⟨rfl, rfl⟩ hRest)
        · exact .served_cons rfl ⟨_, List.mem_cons_self, rfl⟩ rfl
            (.plain_cons ⟨rfl, rfl⟩ (.plain_cons ⟨rfl, rfl⟩ hRest))
      · exact hRest
    | serializedWorkerLoop =>
      obtain ⟨index, job, -, -, rfl⟩ | ⟨-, rfl⟩ := serializedWorkerLoop_cases hExec
      · exact .served_cons rfl ⟨_, List.mem_cons_self, rfl⟩ rfl
          (.plain_cons ⟨rfl, rfl⟩ (.plain_cons ⟨rfl, rfl⟩ hRest))
      · exact hRest
    | serveFixedRequest k n =>
      obtain ⟨-, rfl | ⟨route, rfl⟩⟩ := serveFixedRequest_cases hExec
      · exact .served_cons rfl ⟨_, List.mem_cons_self, rfl⟩ rfl (.plain_cons ⟨rfl, rfl⟩ hRest)
      · exact .plain_cons ⟨rfl, rfl⟩ hRest
    | enqueueSerializedJob k n route site => exact .enqueueSerialized hExec hRest
    | execute k =>
      obtain ⟨-, rfl | rfl⟩ := execute_cases hExec
      · exact hRest
      · exact .served_cons rfl (hServed k rfl) rfl hRest
    | writeFixedResponse k site =>
      refine .write hExec ?_ hRest
      rintro rfl
      exact hServed k rfl
    | refreshConnectionEvents k site =>
      obtain ⟨modified, hNext⟩ := refreshConnectionEvents_cases hExec
      obtain rfl : _ = ops := congrArg Prod.snd hNext
      refine .refresh ?_ hRest
      rintro rfl
      exact hServed k rfl
    | rearmConnection k site =>
      obtain ⟨-, rfl⟩ := outcome_eq hExec
      unfold rearmConnection
      dsimp only
      split
      · rename_i hClosing
        refine ⟨nofun, fun c hc => .inr ?_, hRest⟩
        cases hc
        exact hRearm k site rfl hClosing
      · exact .plain_cons ⟨rfl, rfl⟩ hRest
    | rearmLocked k mayReuse site =>
      obtain ⟨more, -, rfl⟩ | ⟨-, rfl⟩ := rearmLocked_cases hExec
      · exact hRest
      · refine ⟨nofun, fun c hc => .inr ?_, hRest⟩
        cases hc
        exact hRefused k mayReuse site rfl rfl
    | _ => cases hNotable

end Programs

structure Inv (opts : Options) (system : Threads State Op) : Prop where
  active : ∀ c, Covers opts .active 0 system c
  serialized : ∀ c, Covers opts .serialized 0 system c
  failed : ∀ c, .rearmConnection c .failed ∈ system.pending → Covers opts .active 1 system c
  programs : ∀ program ∈ system.programs, Ordered opts system program

section Step

variable {system later : Threads State Op} {others : Multiset Op}

/-- No step overflows the two counters that `close_connection` looks at. -/
def Fits (system : Threads State Op) (op : Op) : Prop :=
  ∀ counter c, counter ≠ Counter.requests → counter.gains op = some c →
    (counter.value (system.shared.connections c)).toNat + 1 < 2 ^ 64

theorem shut_next (hSane : Sane opts system.shared op) (hFits : Fits system op)
    (hTurn : Turn opts system op choice ops others later) (h : Shut opts system c) : Shut opts later c := by
  obtain ⟨hClosing, hNone⟩ | hSpare := h
  · refine .inl ⟨exec_closing hTurn.exec hClosing, ?_⟩
    rw [hTurn.before, Threads.weigh_cons] at hNone
    rw [hTurn.after, Threads.weigh_add]
    obtain hMoved | ⟨-, -, ⟨-, -, hOpen, -⟩ | ⟨-, -, -, -, -, -, -, -, hOpen, -⟩⟩ := claims_next hTurn.exec c
    · omega
    · cases hClosing.symm.trans hOpen
    · cases hClosing.symm.trans hOpen
  · exact .inr (covers_next hSane hTurn hSpare (hFits .active c (by decide)))

theorem shut_of_given_up (hOwners : Ownership.Inv opts system) (hBefore : system.pending = op ::ₘ others)
    (hAfter : later.pending = ↑ops + others) (hClaim : claim c op = 1) (hOps : ops = [.closeConnection c false])
    (hJobs : later.shared.pendingJobs = system.shared.pendingJobs)
    (hClosing : (later.shared.connections c).closing = true) : Shut opts later c := by
  obtain ⟨hOthers, hStream⟩ := hOwners.claim_others hBefore hClaim
  refine .inl ⟨hClosing, ?_⟩
  rw [hAfter, hJobs, Threads.weigh_add, hOthers, hStream, hOps]
  rfl

/-- The exception of a busy answer under a lease leaves its request counted. -/
theorem spare_of_threw {n : UInt64} (hActive : Covers opts .active 0 system c)
    (hTurn : Turn opts system (.threw c (.continuation n)) choice ops others later) :
    Covers opts .active 1 later c := by
  obtain ⟨hValue, hOps, hQueued⟩ := @inexact_part _ _ _ _ _ _ c .active hTurn.exec rfl
  have hDebt : Counter.active.part (debt opts (.threw c (.continuation n)) c) = 1 := by
    simp [debt, part_active, part_requests, part_bytes]
  unfold Covers outstanding owed at hActive ⊢
  rw [hTurn.before] at hActive
  rw [hTurn.after, hValue]
  simp only [Threads.weigh_cons, Threads.weigh_add, Pi.add_apply, Counter.part_add] at hActive ⊢
  omega

theorem Inv.failed_next (hInv : Inv opts system) (hSane : Sane opts system.shared op) (hFits : Fits system op)
    (hTurn : Turn opts system op choice ops others later) (hFailed : .rearmConnection c .failed ∈ later.pending) :
    Covers opts .active 1 later c := by
  rw [hTurn.after, Multiset.mem_add, Multiset.mem_coe] at hFailed
  obtain hNew | hOther := hFailed
  · obtain ⟨n, rfl⟩ : ∃ n, op = .threw c (.continuation n) := by
      cases conditional_leads hTurn.exec hNew rfl with
      | serve _ hServing => cases hServing
      | failed c n => exact ⟨n, rfl⟩
    exact spare_of_threw (hInv.active c) hTurn
  · exact covers_next hSane hTurn (hInv.failed c (hTurn.mem_other hOther))
      (hFits .active c (by decide))

theorem Inv.next {action : Nat × Choice} (hInv : Inv opts system) (hOwners : Ownership.Inv opts system)
    (hGuard : countersFit system action = true)
    (hStep : (machine opts).step system action = some later) : Inv opts later := by
  obtain ⟨op, ops, rest, others, hProgram, hPrograms, hTurn⟩ := Threads.step_programs hStep
  have hOp := hTurn.mem
  have hSane := hOwners.sane op hOp
  have hFits : Fits system op := fun _ _ => fits_of_guard hGuard (Threads.next_of_program hProgram)
  have hShut (c : Nat) : Shut opts system c → Shut opts later c := shut_next hSane hFits hTurn
  refine ⟨fun c => ?_, fun c => ?_, fun c => hInv.failed_next hSane hFits hTurn, ?_⟩
  · exact covers_next hSane hTurn (hInv.active c) (hFits .active c (by decide))
  · exact covers_next hSane hTurn (hInv.serialized c) (hFits .serialized c (by decide))
  · intro program hMem
    rw [hPrograms] at hMem
    obtain hOld | rfl := List.mem_or_eq_of_mem_set hMem
    · exact (hInv.programs program hOld).mono hShut
    · refine .next hTurn.exec ((hInv.programs _ (List.mem_of_getElem? hProgram)).mono hShut) ?_ ?_
      · rintro c site rfl hClosing
        cases site with
        | failed => exact hShut c (.inr (hInv.failed c hOp))
        | _ =>
          obtain ⟨hSame, hOps⟩ := outcome_eq hTurn.exec
          refine shut_of_given_up hOwners hTurn.before hTurn.after (if_pos rfl) ?_ ?_ ?_
          · rw [hOps]
            exact if_pos hClosing
          · rw [hSame]
            rfl
          · rw [hSame]
            exact hClosing
      · rintro c mayReuse site rfl hOps
        refine shut_of_given_up hOwners hTurn.before hTurn.after (claims_rearmLocked hSane) hOps
          ((exec_keeps hTurn.exec).jobs (by simp [writes])) ?_
        obtain ⟨more, -, rfl⟩ | ⟨hLater, -⟩ := rearmLocked_cases hTurn.exec
        · cases hOps
        · rw [hLater, rearm, State.update_self]
          simp

end Step

theorem Inv.start {system : Threads State Op} (h : Initial system) : Inv opts system := by
  refine ⟨fun c => covers_start h, fun c => covers_start h, fun c hFailed => ?_, ?_⟩
  · obtain hOp | hOp | hOp | hOp := initial_pending h hFailed <;> cases hOp
  · obtain ⟨-, others, hIdle, hPrograms⟩ := h
    rw [hPrograms]
    intro program hMem
    obtain rfl | hOther := List.mem_cons.mp hMem
    · exact .plain_cons ⟨rfl, rfl⟩ trivial
    · obtain ⟨op, hOp, rfl⟩ := List.mem_map.mp hOther
      have hStart := hIdle op hOp
      cases op with
      | workerLoop | serializedWorkerLoop | stopRunning => exact .plain_cons ⟨rfl, rfl⟩ trivial
      | _ => cases hStart

theorem reached_closing {guard : Threads State Op → Nat × Choice → Prop} {system : Threads State Op}
    (hFits : ∀ system action, guard system action → countersFit system action = true)
    (h : (machine opts).Reached guard system) : Inv opts system :=
  h.invariant (fun _ => Inv.start) fun _ _ _ hReached hInv hGuard hStep =>
    hInv.next (reached_inv hReached) (hFits _ _ hGuard) hStep

section Spared

variable {system : Threads State Op}

theorem Inv.counted (hInv : Inv opts system) (counter : Counter) (hCounter : counter ≠ .requests)
    (hOp : op ∈ system.pending) (hDebt : counter.part (debt opts op c) ≠ 0) :
    counter.value (system.shared.connections c) ≠ 0 := by
  have hOwed := @le_outstanding system opts op c counter hOp
  have hCovers : Covers opts counter 0 system c := by
    cases counter with
    | active => exact hInv.active c
    | serialized => exact hInv.serialized c
    | requests => exact absurd rfl hCounter
  unfold Covers at hCovers
  intro hZero
  rw [hZero, UInt64.toNat_zero] at hCovers
  omega

theorem Inv.settles_counted (hInv : Inv opts system) (hOp : op ∈ system.pending) (hSettles : settles op = some c) :
    (system.shared.connections c).activeRegular ≠ 0 ∨ (system.shared.connections c).pendingSerialized ≠ 0 := by
  cases op with
  | completeRegularRequest k n release =>
    cases hSettles
    refine .inl (hInv.counted .active (by decide) hOp ?_)
    cases release <;> simp [debt, part_active]
  | subSerialized k n =>
    cases hSettles
    refine .inr (hInv.counted .serialized (by decide) hOp ?_)
    simp [debt, part_serialized]
  | _ => cases hSettles

theorem unowned_of_weigh {ops : Multiset Op} (h : Threads.weigh (claim c) ops = 0) (hOp : op ∈ ops) :
    reads op ≠ some c ∧ owner op ≠ .stream c := by
  have hLe := Threads.le_weigh (claim c) hOp
  refine ⟨fun hReads => ?_, fun hStream => ?_⟩
  · rw [claim_of_reads hReads] at hLe
    omega
  · rw [claim, hStream, Owner.claims, if_pos rfl] at hLe
    omega

theorem Inv.close_spares (hInv : Inv opts system) (hOwners : Ownership.Inv opts system) {thread : Nat}
    (hProgram : system.programs[thread]? = some (.closeConnection c false :: rest)) :
    (system.shared.connections c).activeRegular ≠ 0 ∨ (system.shared.connections c).pendingSerialized ≠ 0 ∨
      (∀ o ∈ system.pending, reads o ≠ some c ∧ owner o ≠ .stream c) ∧
        streamJobs c system.shared.pendingJobs = 0 := by
  have hMem := List.mem_of_getElem? hProgram
  obtain ⟨o, ho, hOverflowed⟩ | ⟨-, hNone⟩ | hSpare := (hInv.programs _ hMem).2.1 c rfl
  · have hPending : o ∈ system.pending := Threads.mem_pending.mpr ⟨_, hMem, List.mem_cons_of_mem _ ho⟩
    cases o with
    | completeRegularRequest k n release =>
      exact (hInv.settles_counted hPending hOverflowed).imp_right .inl
    | subSerialized k n => exact (hInv.settles_counted hPending hOverflowed).imp_right .inl
    | threw k site =>
      cases site with
      | guarded => cases hOverflowed
      | continuation n =>
        cases hOverflowed
        refine .inl (hInv.counted .active (by decide) hPending ?_)
        simp [debt, part_active]
      | consume r =>
        -- the reactor itself closes the connection that it visits
        cases hOverflowed
        refine .inr (.inr ?_)
        obtain ⟨others, hBefore⟩ := Multiset.exists_cons_of_mem hPending
        obtain ⟨hOthers, hJobs⟩ := hOwners.claim_others (c := c) hBefore (if_pos rfl)
        refine ⟨fun x hx => ?_, hJobs⟩
        rw [hBefore] at hx
        obtain rfl | hOther := Multiset.mem_cons.mp hx
        · exact ⟨fun hRead => (by cases hRead), fun hOwner => (by cases hOwner)⟩
        · exact unowned_of_weigh hOthers hOther
    | _ => cases hOverflowed
  · obtain ⟨hPending, hJobs⟩ := Nat.add_eq_zero_iff.mp hNone
    exact .inr (.inr ⟨fun o ho => unowned_of_weigh hPending ho, hJobs⟩)
  · refine .inl fun hZero => ?_
    change _ + 1 ≤ (system.shared.connections c).activeRegular.toNat at hSpare
    rw [hZero, UInt64.toNat_zero] at hSpare
    omega

end Spared

end EasyUds.Server.Closing

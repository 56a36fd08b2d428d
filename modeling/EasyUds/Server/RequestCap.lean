import EasyUds.Server.Table

/-! # The cap on the requests in flight

`max_inflight_requests_per_connection` is enforced by pausing: after each request that it queues, the reactor
stops reading a connection that has reached the cap, and a release lets it read again at half of the cap. A
continuation worker counts the request that it has read and gives the descriptor back without looking at the
cap, so the reactor may queue one more.
-/

namespace EasyUds.Server.RequestCap

open Lib Server.Core Server.Steps Server.Outcomes Server.Footprint
open Server.Ownership Server.Pausing Server.Counters Server.Visits

variable {opts : Options} {s t : State} {op : Op} {choice : Choice} {ops : List Op} {c r : Nat}

/-- A continuation worker gives the descriptor of an open connection back below the cap only. -/
def givesBackBelowCap (opts : Options) (system : Threads State Op) (action : Nat × Choice) : Bool :=
  match system.next action.1 with
  | some (.rearmLocked c _ .continuation) =>
    action.2 == .refused || (system.shared.connections c).closing ||
      (system.shared.connections c).inflightRequests < opts.maxInflightRequestsPerConnection
  | _ => true

def checking : Op → Option Nat
  | .pauseConnectionReadsIfNeeded c _ | .pauseRecheck c _ | .pauseConnectionReads c _ true => some c
  | _ => none

/-- A continuation worker waits for a request, or has read one that is not counted yet. -/
def uncounted : Op → Option Nat
  | .continueConnection c | .addActive c _ _ | .addRequests c _ _ => some c
  | _ => none

def Below (opts : Options) (s : State) (c : Nat) : Prop :=
  (s.connections c).inflightRequests < opts.maxInflightRequestsPerConnection

/-- Nobody reads the connection any more. -/
def Gone (system : Threads State Op) (c : Nat) : Prop :=
  (system.shared.connections c).closing = true ∧ Table.owners system c = 0

/-- Another request may be counted, or the reactor does not read the connection before it has looked at
the counters. -/
def Room (opts : Options) (system : Threads State Op) (c : Nat) : Prop :=
  Below opts system.shared c ∨ (system.shared.connections c).readPaused = true ∨
    (system.shared.connections c).workerOwned = true ∨ (∃ op ∈ system.pending, checking op = some c) ∨ Gone system c

structure Inv (opts : Options) (system : Threads State Op) : Prop where
  covers : ∀ c, Covers opts .requests 0 system c
  capped : ∀ c, (system.shared.connections c).inflightRequests ≤ opts.maxInflightRequestsPerConnection
  room : ∀ c, Room opts system c
  fresh : ∀ op ∈ system.pending, ∀ c, uncounted op = some c → Below opts system.shared c
  present : ∀ op ∈ system.pending, ∀ c r, visit op = some (c, r) → reads op = some c → c ∈ system.shared.table

theorem owner_of_checking (h : checking op = some c) : owner op = .reactor c := by
  unfold checking at h
  split at h
  all_goals first | cases h; done | cases h; rfl

theorem owner_of_uncounted (h : uncounted op = some c) : owner op = .worker c := by
  unfold uncounted at h
  split at h
  all_goals first | cases h; done | cases h; rfl

theorem owner_of_gains (h : Counter.requests.gains op = some c) :
    uncounted op = some c ∨ checking op = none ∧ ∃ r, visit op = some (c, r) ∧ reads op = some c := by
  cases op with
  | addRequests k n session =>
    cases h
    exact .inl rfl
  | enqueueWorkerJob k r n isStream =>
    cases isStream <;> cases h
    exact .inr ⟨rfl, r, rfl, rfl⟩
  | enqueueSerializedJob k n route site =>
    cases site <;> cases h
    exact .inr ⟨rfl, _, rfl, rfl⟩
  | _ => cases h

theorem claim_of_gains (h : Counter.requests.gains op = some c) : claim c op = 1 := by
  obtain hUncounted | ⟨-, r, hVisit, -⟩ := owner_of_gains h
  · rw [claim, owner_of_uncounted hUncounted]
    exact if_pos rfl
  · exact claim_of_reactor (owner_of_visit hVisit)

section Step

variable {system later : Threads State Op} {others : Multiset Op}

theorem not_checking (hOwners : Ownership.Inv opts system) (hBefore : system.pending = op ::ₘ others)
    (hClaim : claim c op = 1) (hPlain : checking op = none) : ¬ ∃ o ∈ system.pending, checking o = some c := by
  rintro ⟨o, ho, hChecking⟩
  rw [hBefore] at ho
  obtain rfl | hOther := Multiset.mem_cons.mp ho
  · rw [hPlain] at hChecking
    cases hChecking
  · have hUnique := hOwners.claim_unique hBefore hOther (claim_of_reactor (owner_of_checking hChecking))
    cases hUnique.symm.trans hClaim

section Room

variable (hInv : Inv opts system) (hOwners : Ownership.Inv opts system)
include hInv hOwners

theorem Inv.below (hVisits : Visits.Inv system) (hBefore : system.pending = op ::ₘ others)
    (hGains : Counter.requests.gains op = some c) : Below opts system.shared c := by
  have hOp : op ∈ system.pending := hBefore ▸ Multiset.mem_cons_self _ _
  obtain hUncounted | ⟨hPlain, r, hVisit, hReads⟩ := owner_of_gains hGains
  · exact hInv.fresh op hOp c hUncounted
  · obtain hBelow | hPaused | hOwned | hChecking | hGone := hInv.room c
    · exact hBelow
    · cases hPaused.symm.trans (hVisits.reading op hOp c hReads)
    · cases hOwned.symm.trans (hVisits.visited op hOp c r hVisit).2.2
    · exact absurd hChecking (not_checking hOwners hBefore (claim_of_gains hGains) hPlain)
    · exact absurd hGone.2 (Table.owners_of_claim hOp (claim_of_gains hGains))

theorem Inv.requests_next (hTurn : Turn opts system op choice ops others later) (c : Nat) :
    (later.shared.connections c).inflightRequests ≤ (system.shared.connections c).inflightRequests ∨
      Counter.requests.gains op = some c ∧
        (later.shared.connections c).inflightRequests = (system.shared.connections c).inflightRequests + 1 :=
  value_next .requests c (hOwners.sane op hTurn.mem) hTurn (hInv.covers c)

theorem Inv.covers_later (hVisits : Visits.Inv system) (hTurn : Turn opts system op choice ops others later) (c : Nat) :
    Covers opts .requests 0 later c := by
  refine covers_next (hOwners.sane op hTurn.mem) hTurn (hInv.covers c) ?_
  intro hGains
  have hBelow := UInt64.lt_iff_toNat_lt.mp (hInv.below hOwners hVisits hTurn.before hGains)
  have hCap := opts.maxInflightRequestsPerConnection.toNat_lt
  change (system.shared.connections c).inflightRequests.toNat + 1 < 2 ^ 64
  omega

theorem Inv.capped_later (hVisits : Visits.Inv system) (hTurn : Turn opts system op choice ops others later) (c : Nat) :
    (later.shared.connections c).inflightRequests ≤ opts.maxInflightRequestsPerConnection := by
  obtain hLe | ⟨hGains, hEq⟩ := hInv.requests_next hOwners hTurn c
  · exact UInt64.le_trans hLe (hInv.capped c)
  · rw [hEq]
    have hBelow := UInt64.lt_iff_toNat_lt.mp (hInv.below hOwners hVisits hTurn.before hGains)
    have hCap := opts.maxInflightRequestsPerConnection.toNat_lt
    rw [UInt64.le_iff_toNat_le, UInt64.toNat_add, UInt64.toNat_one]
    omega

theorem Inv.leased_below (hLeasable : leasable system.shared c) : Below opts system.shared c := by
  obtain ⟨-, hIdle, -, hReading, -, -, hFree, hOpen, -⟩ := hLeasable
  obtain hBelow | hPaused | hOwned | ⟨o, ho, hChecking⟩ | hGone := hInv.room c
  · exact hBelow
  · cases hPaused.symm.trans hReading
  · cases hOwned.symm.trans hFree
  · have hBusy := hOwners.flags o ho
    rw [owner_of_checking hChecking] at hBusy
    cases hBusy.symm.trans hIdle
  · cases hGone.1.symm.trans hOpen

end Room

theorem uncounted_next (h : exec opts s op choice = some (t, ops)) {o : Op} (ho : o ∈ ops)
    (hUncounted : uncounted o = some c) :
    (uncounted op = some c ∨ op = .acquireLease c ∧ leasable s c) ∧
      (t.connections c).inflightRequests = (s.connections c).inflightRequests := by
  cases exec_next h o ho with
  | continueConnection hLeasable =>
    cases hUncounted
    exact ⟨.inr ⟨rfl, hLeasable⟩, ((exec_keeps h).account c (by simp [writes])).2.2.1⟩
  | continueCancel | addActive => exact ⟨.inl hUncounted, ((exec_keeps h).account c (by simp [writes])).2.2.1⟩
  | addRequests =>
    cases h
    refine ⟨.inl hUncounted, ?_⟩
    rw [State.update_apply]
    split <;> rfl
  | _ => cases hUncounted

theorem Inv.fresh_later (hInv : Inv opts system) (hOwners : Ownership.Inv opts system)
    (hTurn : Turn opts system op choice ops others later) {o : Op} (ho : o ∈ later.pending)
    (hUncounted : uncounted o = some c) :
    Below opts later.shared c := by
  obtain hNew | hOther := hTurn.mem_later ho
  · obtain ⟨hFrom, hSame⟩ := uncounted_next hTurn.exec hNew hUncounted
    unfold Below
    rw [hSame]
    obtain hWas | ⟨-, hLeasable⟩ := hFrom
    · exact hInv.fresh op hTurn.mem c hWas
    · exact hInv.leased_below hOwners hLeasable
  · have hWas := hInv.fresh o (hTurn.mem_other hOther) c hUncounted
    obtain hLe | ⟨hGains, -⟩ := hInv.requests_next hOwners hTurn c
    · exact UInt64.lt_of_le_of_lt hLe hWas
    · -- only the lease holder counts requests of its connection
      have hClaim : claim c o = 1 := by
        rw [claim, owner_of_uncounted hUncounted]
        exact if_pos rfl
      have hUnique := hOwners.claim_unique hTurn.before hOther hClaim
      cases hUnique.symm.trans (claim_of_gains hGains)

theorem Inv.present_later (hInv : Inv opts system) (hOwners : Ownership.Inv opts system)
    (hSpared : ∀ k, op = .closeConnection k false → (system.shared.connections k).activeRegular = 0 →
      (system.shared.connections k).pendingSerialized = 0 → ∀ o ∈ system.pending, reads o ≠ some k)
    (hTurn : Turn opts system op choice ops others later) {o : Op} (ho : o ∈ later.pending)
    (hVisit : visit o = some (c, r)) (hReads : reads o = some c) : c ∈ later.shared.table := by
  have hOp := hTurn.mem
  obtain hNew | hOther := hTurn.mem_later ho
  · have hTable : c ∈ system.shared.table ∧ ∀ reactor, op ≠ .closeConnection c reactor := by
      obtain hSame | ⟨rfl, hOpen, -⟩ := visit_next hTurn.exec hNew hVisit
      · obtain hStops | hRead := reads_of_owner ((owner_of_visit hVisit).trans (owner_of_visit hSame).symm) hReads
        · rw [stops_next hTurn.exec hStops hNew] at hReads
          cases hReads
        · refine ⟨hInv.present op hOp c r hSame hRead, ?_⟩
          rintro reactor rfl
          cases hSame
      · exact ⟨hOpen.1, nofun⟩
    obtain hStays | ⟨⟨reactor, hClose⟩, -⟩ := table_stays hTurn.exec hTable.1
    · exact hStays
    · exact absurd hClose (hTable.2 reactor)
  · have hMem : o ∈ system.pending := hTurn.mem_other hOther
    obtain hStays | ⟨⟨reactor, rfl⟩, hActive, hSerialized⟩ :=
      table_stays hTurn.exec (hInv.present o hMem c r hVisit hReads)
    · exact hStays
    · cases reactor with
      | true =>
        -- the reactor does not close a connection during a visit
        have hControl := hOwners.control_others hTurn.before rfl o hOther
        rw [control_of_reactor (owner_of_visit hVisit)] at hControl
        cases hControl
      | false => exact absurd hReads (hSpared c rfl hActive hSerialized o hMem)

theorem gains_checked (h : exec opts s op choice = some (t, ops)) (hGains : Counter.requests.gains op = some c) :
    (t.connections c).inflightRequests = (s.connections c).inflightRequests ∨ owner op = .worker c ∨
      ∃ o ∈ ops, checking o = some c := by
  cases op with
  | addRequests k n session =>
    cases hGains
    exact .inr (.inl rfl)
  | enqueueWorkerJob k r n isStream =>
    cases isStream <;> cases hGains
    cases exec_outcome h with
    | jobRefused | jobFailed => exact .inl rfl
    | queueRequest => exact .inr (.inr ⟨_, List.mem_singleton_self _, rfl⟩)
  | enqueueSerializedJob k n route site =>
    cases site <;> cases hGains
    obtain ⟨rfl, -⟩ | ⟨latestWins, hNext⟩ := enqueueSerializedJob_cases h
    · exact .inl rfl
    · obtain rfl : ops = _ := congrArg Prod.snd hNext
      exact .inr (.inr ⟨_, List.mem_append_right _ (List.mem_singleton_self _), rfl⟩)
  | _ => cases hGains

theorem half_below (opts : Options) :
    opts.maxInflightRequestsPerConnection / 2 < opts.maxInflightRequestsPerConnection := by
  have hPos := UInt64.lt_iff_toNat_lt.mp opts.requests_pos
  rw [UInt64.lt_iff_toNat_lt, UInt64.toNat_div]
  exact Nat.div_lt_self hPos (by decide)

theorem readPaused_falls (h : exec opts s op choice = some (t, ops)) (hPaused : (s.connections c).readPaused = true)
    (hReading : (t.connections c).readPaused = false) :
    Below opts t c ∨ ∃ mayReuse site, op = .rearmLocked c mayReuse site := by
  by_cases hField : .readPaused ∈ writes op
  · cases op with
    | resumePausedConnections k =>
      cases h
      refine .inl ?_
      dsimp only at hReading
      split at hReading
      · rename_i hResumed
        have hReady := (List.mem_filter.mp hResumed).2
        simp only [ready, belowResumeWatermark, Bool.and_eq_true, decide_eq_true_eq] at hReady
        simp only [Below, if_pos hResumed]
        exact UInt64.lt_of_le_of_lt hReady.2.1.2 (half_below opts)
      · cases hPaused.symm.trans hReading
    | pauseConnectionReads k r finish =>
      simp only [exec, pauseConnectionReads] at h
      split at h <;> cases h
      · rw [State.update_apply] at hReading
        split at hReading
        · cases hReading
        · cases hPaused.symm.trans hReading
      · cases hPaused.symm.trans hReading
    | rearmLocked k mayReuse site =>
      by_cases hc : c = k
      · exact .inr ⟨mayReuse, site, by rw [hc]⟩
      · rw [rearmLocked_other h hc] at hReading
        cases hPaused.symm.trans hReading
    | _ => simp [writes] at hField
  · rw [(exec_keeps h).readPaused c hField] at hReading
    cases hPaused.symm.trans hReading

theorem below_of_watermark (h : abovePauseWatermark opts s c = false) : Below opts s c := by
  simp only [abovePauseWatermark, Bool.or_eq_false_iff, decide_eq_false_iff_not, UInt64.not_le] at h
  exact h.1.2

theorem Inv.checked (hInv : Inv opts system) (hVisits : Visits.Inv system) (hOp : op ∈ system.pending)
    (hExec : exec opts system.shared op choice = some (t, ops)) (hChecking : checking op = some c) :
    Below opts t c ∨ (t.connections c).readPaused = true ∨ ∃ o ∈ ops, checking o = some c := by
  cases op with
  | pauseConnectionReadsIfNeeded k r =>
    cases hChecking
    cases hExec
    cases hAbove : abovePauseWatermark opts system.shared c with
    | true => exact .inr (.inr ⟨.pauseRecheck c r, by simp, rfl⟩)
    | false => exact .inl (below_of_watermark hAbove)
  | pauseRecheck k r =>
    cases hChecking
    cases hExec
    have hTable := hInv.present _ hOp c r rfl rfl
    have hObject := (hVisits.visited _ hOp c r rfl).1
    cases hAbove : abovePauseWatermark opts system.shared c with
    | true =>
      rw [if_pos ⟨hTable, hObject, rfl⟩]
      exact .inr (.inr ⟨_, List.mem_singleton_self _, rfl⟩)
    | false => exact .inl (below_of_watermark hAbove)
  | pauseConnectionReads k r finish =>
    cases finish with
    | false => cases hChecking
    | true =>
      cases hChecking
      have hPauses : pauses system.shared c r :=
        ⟨hInv.present _ hOp c r rfl rfl, (hVisits.visited _ hOp c r rfl).1, hVisits.reading _ hOp c rfl⟩
      simp only [exec, pauseConnectionReads, if_pos hPauses] at hExec
      cases hExec
      exact .inr (.inl (congrArg Connection.readPaused (State.update_self _ c _)))
  | _ => cases hChecking

theorem Gone.next (hGone : Gone system c) (hTurn : Turn opts system op choice ops others later) : Gone later c := by
  refine ⟨exec_closing hTurn.exec hGone.1, ?_⟩
  by_contra hOwned
  obtain hWas | ⟨-, hOpen⟩ := Table.owners_next hTurn hOwned
  · exact hWas hGone.2
  · cases hGone.1.symm.trans hOpen

theorem gone_of_rearm (hOwners : Ownership.Inv opts system) {mayReuse : Bool} {site : RearmSite}
    (hTurn : Turn opts system (.rearmLocked c mayReuse site) choice ops others later)
    (hClosing : (later.shared.connections c).closing = true) : Gone later c := by
  have hSingle := hOwners.single c
  have hNone : Threads.weigh (claim c) (ops : Multiset Op) = 0 := by
    obtain ⟨more, -, rfl⟩ | ⟨-, rfl⟩ := rearmLocked_cases hTurn.exec <;> rfl
  rw [hTurn.before, Threads.weigh_cons, claims_rearmLocked (hOwners.sane _ hTurn.mem)] at hSingle
  refine ⟨hClosing, ?_⟩
  rw [Table.owners, hTurn.after, Threads.weigh_add, hNone, (exec_keeps hTurn.exec).jobs (by simp [writes])]
  omega

/-- A stream's worker gives back what it got below the cap; a continuation worker need not. -/
theorem Inv.rearmed (hInv : Inv opts system) (hOwners : Ownership.Inv opts system) (hVisits : Visits.Inv system)
    {mayReuse : Bool} {site : RearmSite}
    (hTurn : Turn opts system (.rearmLocked c mayReuse site) choice ops others later)
    (hGuard : site = .continuation → choice = .refused ∨ (system.shared.connections c).closing = true ∨
      Below opts system.shared c) :
    Below opts system.shared c ∨ (later.shared.connections c).closing = true := by
  cases site with
  | continuation =>
    obtain rfl | hClosing | hBelow := hGuard rfl
    · obtain ⟨hShared, -⟩ := outcome_eq hTurn.exec
      refine .inr ?_
      rw [hShared, rearm, State.update_self]
      exact Bool.or_true _
    · exact .inr (exec_closing hTurn.exec hClosing)
    · exact .inl hBelow
  | failed => exact (hOwners.sane _ hTurn.mem).elim
  | stream =>
    obtain ⟨hFree, hReading⟩ := hVisits.streaming c (hOwners.flags _ hTurn.mem)
    obtain hBelow | hPaused | hOwned | hChecking | hGone := hInv.room c
    · exact .inl hBelow
    · cases hPaused.symm.trans hReading
    · cases hOwned.symm.trans hFree
    · exact absurd hChecking (not_checking hOwners hTurn.before (if_pos rfl) rfl)
    · exact absurd hGone.2 (Table.owners_of_claim hTurn.mem (if_pos rfl))

theorem Inv.room_later (hInv : Inv opts system) (hOwners : Ownership.Inv opts system) (hVisits : Visits.Inv system)
    (hGuard : ∀ mayReuse, op = .rearmLocked c mayReuse .continuation →
      choice = .refused ∨ (system.shared.connections c).closing = true ∨ Below opts system.shared c)
    (hTurn : Turn opts system op choice ops others later) : Room opts later c := by
  have hOp := hTurn.mem
  have hNext {o : Op} (ho : o ∈ ops) : o ∈ later.pending := hTurn.after ▸ Multiset.mem_add.mpr (.inl ho)
  by_cases hRearm : ∃ mayReuse site, op = .rearmLocked c mayReuse site
  · obtain ⟨mayReuse, site, rfl⟩ := hRearm
    obtain hBelow | hClosing := hInv.rearmed hOwners hVisits hTurn fun hSite => hGuard mayReuse (hSite ▸ rfl)
    · refine .inl ?_
      unfold Below
      rwa [((exec_keeps hTurn.exec).account c (by simp [writes])).2.2.1]
    · exact .inr (.inr (.inr (.inr (gone_of_rearm hOwners hTurn hClosing))))
  · obtain hBelow | hPaused | hOwned | ⟨o, ho, hChecking⟩ | hGone := hInv.room c
    · obtain hLe | ⟨hGains, hEq⟩ := hInv.requests_next hOwners hTurn c
      · exact .inl (UInt64.lt_of_le_of_lt hLe hBelow)
      · obtain hSame | hWorker | ⟨o, ho, hChecking⟩ := gains_checked hTurn.exec hGains
        · exact .inl (lt_of_eq_of_lt hSame hBelow)
        · have hFlag := hOwners.flags op hOp
          rw [hWorker] at hFlag
          obtain hKept | ⟨_, _, _, hParty⟩ | ⟨k, mayReuse, site, rfl, hClaims⟩ := exec_flagged hTurn.exec hFlag
          · exact .inr (.inr (.inl hKept))
          · cases hParty
          · cases hGains
        · exact .inr (.inr (.inr (.inl ⟨o, hNext ho, hChecking⟩)))
    · cases hStill : (later.shared.connections c).readPaused with
      | true => exact .inr (.inl hStill)
      | false => exact .inl ((readPaused_falls hTurn.exec hPaused hStill).resolve_right hRearm)
    · have hFlag : (Owner.worker c).Flagged system.shared := hOwned
      obtain hKept | ⟨_, _, _, hParty⟩ | ⟨k, mayReuse, site, rfl, hClaims⟩ := exec_flagged hTurn.exec hFlag
      · exact .inr (.inr (.inl hKept))
      · cases hParty
      · have hk : c = k := by
          by_contra hOther
          simp [Owner.claims, hOther] at hClaims
        exact absurd ⟨mayReuse, site, by rw [hk]⟩ hRearm
    · rw [hTurn.before] at ho
      obtain rfl | hOther := Multiset.mem_cons.mp ho
      · obtain hBelow | hPaused | ⟨x, hx, hNextCheck⟩ := hInv.checked hVisits hOp hTurn.exec hChecking
        · exact .inl hBelow
        · exact .inr (.inl hPaused)
        · exact .inr (.inr (.inr (.inl ⟨x, hNext hx, hNextCheck⟩)))
      · exact .inr (.inr (.inr (.inl ⟨o, hTurn.after ▸ Multiset.mem_add.mpr (.inr hOther), hChecking⟩)))
    · exact .inr (.inr (.inr (.inr (hGone.next hTurn))))

theorem guard_rearms {action : Nat × Choice} (hGuard : givesBackBelowCap opts system action = true)
    (hNext : system.next action.1 = some op) (mayReuse : Bool) (h : op = .rearmLocked c mayReuse .continuation) :
    action.2 = .refused ∨ (system.shared.connections c).closing = true ∨ Below opts system.shared c := by
  subst h
  simp only [givesBackBelowCap, hNext, Bool.or_eq_true, beq_iff_eq, decide_eq_true_eq, or_assoc] at hGuard
  exact hGuard

theorem Inv.next {action : Nat × Choice} (hInv : Inv opts system) (hOwners : Ownership.Inv opts system)
    (hVisits : Visits.Inv system) (hClosing : Closing.Inv opts system)
    (hGuard : givesBackBelowCap opts system action = true)
    (hStep : (machine opts).step system action = some later) : Inv opts later := by
  obtain ⟨op, ops, rest, others, hProgram, -, hTurn⟩ := Threads.step_programs hStep
  have hSpared : ∀ k, op = .closeConnection k false → (system.shared.connections k).activeRegular = 0 →
      (system.shared.connections k).pendingSerialized = 0 → ∀ o ∈ system.pending, reads o ≠ some k := by
    rintro k rfl hActive hSerialized o ho
    obtain hCounted | hCounted | ⟨hUnread, -⟩ := hClosing.close_spares hOwners hProgram
    · exact absurd hActive hCounted
    · exact absurd hSerialized hCounted
    · exact (hUnread o ho).1
  exact
    { covers := hInv.covers_later hOwners hVisits hTurn
      capped := hInv.capped_later hOwners hVisits hTurn
      room := fun _ =>
        hInv.room_later hOwners hVisits (guard_rearms hGuard (Threads.next_of_program hProgram)) hTurn
      fresh := fun _ ho _ => hInv.fresh_later hOwners hTurn ho
      present := fun _ ho _ _ => hInv.present_later hOwners hSpared hTurn ho }

end Step

theorem Inv.start {system : Threads State Op} (h : Initial system) : Inv opts system := by
  have hZero (c : Nat) : (system.shared.connections c).inflightRequests = 0 := by rw [h.1]
  refine ⟨fun c => covers_start h, fun c => ?_, fun c => .inl ?_, ?_, ?_⟩
  · rw [hZero]
    exact UInt64.zero_le
  · unfold Below
    rw [hZero]
    exact opts.requests_pos
  · intro op hOp c hUncounted
    obtain rfl | rfl | rfl | rfl := initial_pending h hOp <;> cases hUncounted
  · intro op hOp c r hVisit
    obtain rfl | rfl | rfl | rfl := initial_pending h hOp <;> cases hVisit

/-- If continuation workers give the descriptors of open connections back below the cap only, and `active_regular` and
`pending_serialized` do not overflow, a connection never has more requests in flight than the cap. -/
theorem requests_capped {system : Threads State Op}
    (h : (machine opts).Reached
      (fun system action => (givesBackBelowCap opts system action && countersFit system action) = true) system)
    (c : Nat) :
    (system.shared.connections c).inflightRequests ≤ opts.maxInflightRequestsPerConnection := by
  have hInv : Inv opts system :=
    h.invariant (fun _ => Inv.start) fun _ _ _ hReached hInv hGuard hStep =>
      hInv.next (reached_inv hReached) (reached_visits hReached)
        (Closing.reached_closing (fun _ _ hBoth => (Bool.and_eq_true_iff.mp hBoth).2) hReached)
        (Bool.and_eq_true_iff.mp hGuard).1 hStep
  exact hInv.capped c

def leasesAfterAnswer : List (Nat × Choice) :=
  decidesToPause ++ raisesPaused ++ performs 1 ([Choice.proceed, .proceed, .sent] ++ List.replicate 9 Choice.proceed)

def handsBack : List (Nat × Choice) :=
  leasesAfterAnswer ++ performs 1 [.handOver, .proceed, .proceed, .rearmed false]

def countsUnderLease : List (Nat × Choice) :=
  leasesAfterAnswer ++ performs 1 ([Choice.request 10 true] ++ List.replicate 6 Choice.proceed ++
    [Choice.rearmed false])

/-- The lease is given back without a second request, and the next one reaches the cap again. -/
theorem requests_capped_reached : ∃ system,
    (machine narrow).Reached
        (fun system action => (givesBackBelowCap narrow system action && countersFit system action) = true) system ∧
      (system.shared.connections 0).inflightRequests = 1 ∧
      (system.shared.connections 0).inflightRequests ≤ narrow.maxInflightRequestsPerConnection := by
  obtain ⟨system, hReached, hOne⟩ := Machine.exists_reached_of_exec
    (fun system => (system.shared.connections 0).inflightRequests = 1)
    (fun system action => givesBackBelowCap narrow system action && countersFit system action)
    (handsBack ++ readRequest 0 10 none ++ performs 0 [.proceed]) (M := machine narrow) oneWorker_initial (by decide)
  exact ⟨system, hReached, hOne, requests_capped hReached 0⟩

/-- The reactor reads a third request before the second one is answered. -/
theorem cap_exceeded : ∃ system, (machine narrow).Reachable system ∧
    (system.shared.connections 0).closing = false ∧
    (system.shared.connections 0).inflightRequests = 2 ∧ narrow.maxInflightRequestsPerConnection = 1 :=
  Machine.exists_reachable_of_exec _ (countsUnderLease ++ readRequest 0 10 none ++ performs 0 [.proceed])
    oneWorker_initial (by decide)

end EasyUds.Server.RequestCap

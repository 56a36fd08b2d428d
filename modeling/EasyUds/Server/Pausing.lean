import EasyUds.Server.Ownership

/-! # Paused connections

A paused connection is read again by the scan that ends a release. So whenever a connection is paused,
something that will be released must be outstanding, or a release must be on its way to its scan. The
reactor decides to pause and raises `read_paused` in two sections, and a release whose scan falls between
them does not see the flag.
-/

namespace EasyUds.Server.Pausing

open Lib Server.Core Server.Steps Server.Outcomes Server.Footprint
open Server.Ownership

variable {opts : Options} {s t : State} {op : Op} {choice : Choice} {ops : List Op} {c : Nat}

/-- Work whose release scans the connection. -/
def Outstanding (opts : Options) (s : State) (c : Nat) : Prop :=
  (s.connections c).inflightRequests ≠ 0 ∨ (s.connections c).inflightRequestBytes ≠ 0 ∨
    opts.maxTotalInflightBytes ≠ 0 ∧ s.totalInflightRequestBytes ≠ 0

def rescans (opts : Options) (c : Nat) : Op → Bool
  | .subRequests k _ | .subTotal k _ | .resumePausedConnections k => opts.strictBudget || k == c
  | _ => false

instance : Decidable (Outstanding opts s c) := inferInstanceAs (Decidable (_ ∨ _ ∨ _ ∧ _))

/-- Where the reactor has decided to pause a connection and has not marked it yet, the scan does not look at
it, or another one will. -/
def sparesGap (opts : Options) (s : State) (scan : Op) : Op → Bool
  | .unreserveConnection c _ _ => s.totalInflightRequestBytes ≠ 0 || !rescans opts c scan
  | .pauseConnectionReads c _ _ => Outstanding opts s c || !rescans opts c scan
  | _ => true

/-- No last scan of a connection falls between the decision to pause it and the raise of `read_paused`. -/
def scansOutsideGap (opts : Options) (system : Threads State Op) (action : Nat × Choice) : Bool :=
  match system.next action.1 with
  | some (.resumePausedConnections k) =>
    system.programs.flatten.all (sparesGap opts system.shared (.resumePausedConnections k))
  | _ => true

/-- The reactor's operations at which `read_paused` may be up. -/
def stops : Op → Bool
  | .flushConnectionOutput _ _ readAllowed | .refreshConnectionEvents _ (.flush _ readAllowed) => !readAllowed
  | .refreshConnectionEvents _ (.pause _ _) | .threw _ (.consume _) => true
  | .finishRequest _ _ paused => paused
  | _ => false

/-- The connection that an operation goes on reading. -/
def reads (op : Op) : Option Nat :=
  match owner op with
  | .reactor c => if stops op then none else some c
  | .worker c => some c
  | _ => none

variable {f : Connection → Connection} {o : Op} {k : Nat}

theorem claim_of_reads (h : reads op = some c) : claim c op = 1 := by
  unfold reads at h
  split at h
  · rename_i k hOwner
    split at h
    · cases h
    · cases h
      rw [claim, hOwner]
      exact if_pos rfl
  · rename_i k hOwner
    cases h
    rw [claim, hOwner]
    exact if_pos rfl
  · cases h

theorem readPaused_next (h : exec opts s op choice = some (t, ops)) (hPaused : (t.connections c).readPaused = true) :
    (s.connections c).readPaused = true ∨
      ∃ r finish, op = .pauseConnectionReads c r finish ∧
        ops = [.refreshConnectionEvents c (.pause r finish)] := by
  by_cases hField : .readPaused ∈ writes op
  · cases op with
    | resumePausedConnections k =>
      cases h
      dsimp only at hPaused
      split at hPaused
      · cases hPaused
      · exact .inl hPaused
    | pauseConnectionReads k r finish =>
      simp only [exec, pauseConnectionReads] at h
      split at h
      · cases h
        by_cases hc : c = k
        · exact .inr ⟨r, finish, by rw [hc], by rw [hc]⟩
        · rw [State.update_other s _ hc] at hPaused
          exact .inl hPaused
      · cases h
        exact .inl hPaused
    | rearmLocked k mayReuse site =>
      by_cases hc : c = k
      · subst hc
        obtain ⟨more, rfl, -⟩ | ⟨rfl, -⟩ := rearmLocked_cases h
        · simp [rearm] at hPaused
        · simp [rearm] at hPaused
      · rw [rearmLocked_other h hc] at hPaused
        exact .inl hPaused
    | _ => simp [writes] at hField
  · rw [(exec_keeps h).readPaused c hField] at hPaused
    exact .inl hPaused

theorem stops_next (h : exec opts s op choice = some (t, ops)) (hStops : stops op = true) (ho : o ∈ ops) :
    reads o = none := by
  cases exec_next h o ho with
  | @threw k site | @queued k site | @refreshFailed k site => cases site <;> first | rfl | cases hStops
  | @flushed k r readAllowed => cases readAllowed <;> first | rfl | cases hStops
  | _ => first | rfl | cases hStops

theorem reads_of_owner (hOwner : owner o = owner op) (hRead : reads o = some c) :
    stops op = true ∨ reads op = some c := by
  cases hStops : stops op with
  | true => exact .inl rfl
  | false =>
    refine .inr ?_
    unfold reads at hRead ⊢
    rw [hOwner] at hRead
    split at hRead
    · rename_i k hReactor
      split at hRead
      · cases hRead
      · rw [hStops]
        exact hRead
    · exact hRead
    · cases hRead

theorem acquired_reads (h : exec opts s op choice = some (t, ops)) (hAcquires : acquires op = true) (ho : o ∈ ops)
    (hRead : reads o = some c) : (s.connections c).readPaused = false := by
  cases exec_next h o ho with
  | @reactorFlushes k readAllowed hVisit hAllowed =>
    cases readAllowed <;> cases hRead
    exact hAllowed rfl
  | reactorReads hVisit hReading =>
    cases hRead
    exact hReading
  | continueConnection hLeasable =>
    cases hRead
    exact hLeasable.2.2.2.1
  | _ => first | cases hAcquires; done | cases hRead

theorem reads_next (h : exec opts s op choice = some (t, ops))
    (hReading : reads op = some c → (s.connections c).readPaused = false) (ho : o ∈ ops) (hRead : reads o = some c) :
    (t.connections c).readPaused = false := by
  by_contra hPaused
  obtain hBefore | ⟨r, finish, -, rfl⟩ := readPaused_next h (by simpa using hPaused)
  · cases hAcquires : acquires op with
    | true => cases hBefore.symm.trans (acquired_reads h hAcquires ho hRead)
    | false =>
      obtain hNobody | hOwner := (exec_passes h hAcquires).owners o ho
      · rw [reads, hNobody] at hRead
        cases hRead
      · obtain hStops | hSame := reads_of_owner hOwner hRead
        · rw [stops_next h hStops ho] at hRead
          cases hRead
        · cases hBefore.symm.trans (hReading hSame)
  · rw [List.mem_singleton.mp ho] at hRead
    cases hRead

theorem Outstanding.of_same (h : Outstanding opts s c)
    (hRequests : (t.connections c).inflightRequests = (s.connections c).inflightRequests)
    (hBytes : (t.connections c).inflightRequestBytes = (s.connections c).inflightRequestBytes)
    (hTotal : opts.strictBudget = true → t.totalInflightRequestBytes = s.totalInflightRequestBytes) :
    Outstanding opts t c := by
  unfold Outstanding
  rw [hRequests, hBytes]
  refine h.imp id (Or.imp id ?_)
  rintro ⟨hStrict, hNonzero⟩
  exact ⟨hStrict, by rwa [hTotal (bne_iff_ne.mpr hStrict)]⟩

theorem Outstanding.update_other (h : Outstanding opts s c) (hc : c ≠ k) :
    Outstanding opts (s.update k f) c := by
  have hSame := State.update_other s f hc
  exact h.of_same (congrArg _ hSame) (congrArg _ hSame) fun _ => rfl

theorem Outstanding.update (h : Outstanding opts s c) (hRequests : ∀ l, (f l).inflightRequests = l.inflightRequests)
    (hBytes : ∀ l, (f l).inflightRequestBytes = l.inflightRequestBytes) :
    Outstanding opts (s.update k f) c := by
  by_cases hc : c = k
  · subst hc
    refine h.of_same ?_ ?_ fun _ => rfl
    · rw [State.update_self, hRequests]
    · rw [State.update_self, hBytes]
  · exact h.update_other hc

theorem rescans_of (h : opts.strictBudget = true ∨ k = c) : (opts.strictBudget || k == c) = true := by
  simpa using h

theorem add_ne_zero_of_le {x n limit : UInt64} (hx : x ≤ limit) (hn : n ≤ limit - x) (hNonzero : x ≠ 0) :
    x + n ≠ 0 := by
  intro hZero
  have hSum := congrArg UInt64.toNat hZero
  have hLimit := limit.toNat_lt
  rw [UInt64.le_iff_toNat_le] at hx hn
  rw [UInt64.toNat_sub_of_le _ _ (UInt64.le_iff_toNat_le.mpr hx)] at hn
  rw [UInt64.toNat_add, Nat.mod_eq_of_lt (by omega)] at hSum
  exact hNonzero (UInt64.toNat_inj.mp (by simpa using (show x.toNat = 0 by simp at hSum; omega)))

theorem Outstanding.account_other {n : UInt64} (h : Outstanding opts s c) (hc : c ≠ k) :
    Outstanding opts (accountConnectionRequest opts s k n) c := by
  unfold accountConnectionRequest
  split
  · exact h.update_other hc
  · rename_i hStrict
    refine Outstanding.update_other ?_ hc
    exact h.of_same rfl rfl fun hTrue => absurd hTrue hStrict

theorem outstanding_next (h : exec opts s op choice = some (t, ops)) (hSane : Sane opts s op)
    (hReads : reads op ≠ some c) (hOut : Outstanding opts s c) :
    Outstanding opts t c ∨ ∃ o ∈ ops, rescans opts c o = true := by
  have hOther : ∀ k, reads op = some k → c ≠ k := by
    rintro k hRead rfl
    exact hReads hRead
  cases exec_outcome h with
  | @releaseConnectionRequest k | @releaseConnectionRequestBytes k | @subRequests k =>
    by_cases hc : c = k
    · exact .inr ⟨_, List.mem_singleton_self _, rescans_of (.inr hc.symm)⟩
    · exact .inl (hOut.update_other hc)
  | releaseNothing | connectionFull | totalFull | jobRefused | jobFailed | allocationFailed | serializedStopping
  | serializedBusy =>
    exact .inl hOut
  | subTotal =>
    cases hStrict : opts.strictBudget with
    | true => exact .inr ⟨_, List.mem_singleton_self _, rescans_of (.inl hStrict)⟩
    | false => exact .inl (hOut.of_same rfl rfl fun hTrue => absurd (hStrict.symm.trans hTrue) (by simp))
  | reserveConnection | unreserveConnection | addRequests | addBytes => exact .inl (hOut.update_other (hOther _ rfl))
  | reserveTotal hFits =>
    refine .inl (hOut.imp id (Or.imp id ?_))
    rintro ⟨hStrict, hNonzero⟩
    exact ⟨hStrict, add_ne_zero_of_le hFits.1 hFits.2 hNonzero⟩
  | completeRegularRequest | completeAdmitted | addActive | subSerialized =>
    exact .inl (hOut.update (fun _ => rfl) (fun _ => rfl))
  | addTotal =>
    refine .inl (Outstanding.update ?_ (fun _ => rfl) (fun _ => rfl))
    -- a lease is not granted under an aggregate budget
    exact hOut.of_same rfl rfl fun hStrict => absurd ((hSane.of_worker rfl).symm.trans hStrict) (by simp)
  | queueStream => exact .inl (hOut.of_same rfl rfl fun _ => rfl)
  | queueRequest =>
    refine .inl (Outstanding.account_other (Outstanding.update_other ?_ (hOther _ rfl)) (hOther _ rfl))
    exact hOut.of_same rfl rfl fun _ => rfl
  | @admitted k n route site latestWins =>
    have hQueued (jobs : List SerializedJob) : Outstanding opts { s with pendingSerialized := jobs } c :=
      hOut.of_same rfl rfl fun _ => rfl
    cases site with
    | dispatch r => exact .inl (Outstanding.account_other ((hQueued _).update_other (hOther _ rfl)) (hOther _ rfl))
    | continuation =>
      dsimp only [admitJob]
      exact .inl ((hQueued _).update (fun _ => rfl) (fun _ => rfl))
  | _ =>
    obtain ⟨-, -, hRequests, hBytes⟩ := (exec_keeps h).account c (by simp [writes])
    exact .inl (hOut.of_same hRequests hBytes fun _ => (exec_keeps h).total (by simp [writes]))

theorem outstanding_of_above (h : abovePauseWatermark opts s c = true) : Outstanding opts s c := by
  unfold abovePauseWatermark at h
  simp only [Bool.or_eq_true, Bool.and_eq_true, bne_iff_ne, decide_eq_true_eq] at h
  have hBytes := UInt64.lt_of_lt_of_le opts.message_pos opts.bytes_fit
  obtain (⟨hStrict, hTotal⟩ | hRequests) | hFull := h
  · refine .inr (.inr ⟨hStrict, fun hZero => hStrict ?_⟩)
    rw [hZero] at hTotal
    exact UInt64.le_zero_iff.mp hTotal
  · refine .inl fun hZero => ?_
    rw [hZero] at hRequests
    exact absurd (UInt64.lt_of_lt_of_le opts.requests_pos hRequests) (by simp)
  · refine .inr (.inl fun hZero => ?_)
    rw [hZero] at hFull
    exact absurd (UInt64.lt_of_lt_of_le hBytes hFull) (by simp)

theorem outstanding_of_above_resume (h : belowResumeWatermark opts s c = false) : Outstanding opts s c := by
  by_contra hNone
  unfold Outstanding at hNone
  simp only [not_or, not_and, Decidable.not_not] at hNone
  obtain ⟨hRequests, hBytes, hTotal⟩ := hNone
  unfold belowResumeWatermark at h
  rw [hRequests, hBytes] at h
  by_cases hStrict : opts.maxTotalInflightBytes = 0
  · simp [hStrict] at h
  · simp [hTotal hStrict] at h

/-- The sizes that the parser holds are those of an accepted frame. -/
def Sized (opts : Options) (k : Connection) : Prop :=
  k.payloadTotal ≤ opts.maxMessageSize ∧ k.arg1 ≤ opts.maxMessageSize

theorem Sized.budget_le {k : Connection} (h : Sized opts k) : budget k ≤ opts.maxMessageSize := by
  unfold budget
  split
  · exact h.2
  · exact h.1

theorem Sized.update (h : Sized opts (s.connections c)) (hf : ∀ l, Sized opts l → Sized opts (f l)) :
    Sized opts ((s.update k f).connections c) := by
  rw [State.update_apply]
  split
  · exact hf _ h
  · exact h

theorem sized_next (h : exec opts s op choice = some (t, ops)) (hSized : Sized opts (s.connections c)) :
    Sized opts (t.connections c) := by
  by_cases hField : .parser ∈ writes op
  · cases op with
    | beginPayload k r =>
      simp only [exec, beginPayload] at h
      split at h
      · cases h
        exact hSized
      · cases h
        exact hSized.update fun _ hOld => hOld
    | finishRequest k r paused | payloadReserved k r n =>
      cases h
      exact hSized.update fun _ hOld => hOld
    | parse k r =>
      obtain ⟨l, rfl, hParsed⟩ := parseInput_cases h
      rw [State.update_apply]
      split
      · rename_i hc
        subst hc
        cases hParsed with
        | request n more hPhase hNonzero hFits => exact ⟨hFits, hSized.2⟩
        | stream n more hPhase hNonzero hFits => exact ⟨hSized.1, hFits⟩
        | _ => exact hSized
      · exact hSized
    | rearmLocked k mayReuse site =>
      by_cases hc : c = k
      · subst hc
        have hZero : ∀ more added, Sized opts ((rearm s c mayReuse more added).connections c) := by
          intro more added
          unfold rearm
          rw [State.update_self]
          exact ⟨UInt64.zero_le, UInt64.zero_le⟩
        obtain ⟨more, rfl, -⟩ | ⟨rfl, -⟩ := rearmLocked_cases h
        · exact hZero more true
        · exact hZero false false
      · rw [rearmLocked_other h hc]
        exact hSized
    | _ => simp [writes] at hField
  · obtain ⟨-, hTotal, hArg⟩ := (exec_keeps h).parser c hField
    unfold Sized
    rw [hTotal, hArg]
    exact hSized

/-- Something will lead to a scan of the connection. -/
def Covered (opts : Options) (system : Threads State Op) (c : Nat) : Prop :=
  Outstanding opts system.shared c ∨ ∃ op ∈ system.pending, rescans opts c op = true

/-- The same on account of the aggregate budget alone. -/
def TotalCovered (opts : Options) (system : Threads State Op) (c : Nat) : Prop :=
  opts.strictBudget = true ∧
    (system.shared.totalInflightRequestBytes ≠ 0 ∨ ∃ op ∈ system.pending, rescans opts c op = true)

/-- What is known while a reservation is tried and while the decision to pause stands. -/
def Decided (opts : Options) (system : Threads State Op) : Op → Prop
  | .reserveConnection _ _ n | .reserveTotal _ _ n => opts.strictBudget = true ∧ n ≤ opts.maxMessageSize
  | .unreserveConnection c _ _ => TotalCovered opts system c
  | .pauseConnectionReads c _ _ => Covered opts system c
  | _ => True

structure Inv (opts : Options) (system : Threads State Op) : Prop where
  sized : ∀ c, Sized opts (system.shared.connections c)
  reading : ∀ op ∈ system.pending, ∀ c, reads op = some c → (system.shared.connections c).readPaused = false
  decided : ∀ op ∈ system.pending, Decided opts system op
  paused : ∀ c ∈ system.shared.table, (system.shared.connections c).closing = false →
    (system.shared.connections c).readPaused = true → Covered opts system c

theorem not_paused_of_new (h : exec opts s op choice = some (t, ops)) (hTable : c ∈ t.table)
    (hPaused : (t.connections c).readPaused = true) : c ∈ s.table := by
  obtain hOld | ⟨hNew, rfl⟩ | ⟨mayReuse, site, rfl⟩ := table_next h hTable
  · exact hOld
  · rw [(exec_keeps h).readPaused c (by simp [writes]), hNew] at hPaused
    cases hPaused
  · obtain ⟨more, rfl, -⟩ | ⟨rfl, -⟩ := rearmLocked_cases h
    · simp [rearm] at hPaused
    · simp [rearm] at hPaused

theorem total_next (h : exec opts s op choice = some (t, ops)) (hSane : Sane opts s op)
    (hStrict : opts.strictBudget = true) (hTotal : s.totalInflightRequestBytes ≠ 0) (c : Nat) :
    t.totalInflightRequestBytes ≠ 0 ∨ ∃ o ∈ ops, rescans opts c o = true := by
  by_cases hField : .total ∈ writes op
  · cases op with
    | subTotal k n =>
      cases h
      exact .inr ⟨_, List.mem_singleton_self _, rescans_of (.inl hStrict)⟩
    | reserveTotal k r n =>
      simp only [exec, reserveTotal] at h
      split at h
      · rename_i hFits
        cases h
        exact .inl (add_ne_zero_of_le hFits.1 hFits.2 hTotal)
      · cases h
        exact .inl hTotal
    | addTotal k n session => cases (hSane.of_worker rfl).symm.trans hStrict
    | enqueueWorkerJob k r n isStream =>
      cases exec_outcome h with
      | jobRefused | jobFailed | queueStream => exact .inl hTotal
      | queueRequest =>
        rw [accountConnectionRequest, if_pos hStrict]
        exact .inl hTotal
    | enqueueSerializedJob k n route site =>
      obtain ⟨rfl, -⟩ | ⟨latestWins, hNext⟩ := enqueueSerializedJob_cases h
      · exact .inl hTotal
      · obtain rfl : t = _ := congrArg Prod.fst hNext
        unfold admitJob
        cases site with
        | dispatch r =>
          dsimp only
          rw [accountConnectionRequest, if_pos hStrict]
          exact .inl hTotal
        | continuation => exact .inl hTotal
    | _ => simp [writes] at hField
  · rw [(exec_keeps h).total hField]
    exact .inl hTotal

section Step

variable {system later : Threads State Op} {others : Multiset Op}
variable {action : Nat × Choice}

theorem rescanning_next (hTurn : Turn opts system op choice ops others later)
    (hScan : ∀ k, op = .resumePausedConnections k → rescans opts c op = false)
    (h : ∃ o ∈ system.pending, rescans opts c o = true) : ∃ o ∈ later.pending, rescans opts c o = true := by
  obtain ⟨o, ho, hRescans⟩ := h
  rw [hTurn.before] at ho
  rw [hTurn.after]
  obtain rfl | hOther := Multiset.mem_cons.mp ho
  · cases o with
    | subRequests k n | subTotal k n =>
      obtain ⟨-, rfl⟩ := outcome_eq hTurn.exec
      exact ⟨_, Multiset.mem_add.mpr (.inl (List.mem_singleton_self _)), hRescans⟩
    | resumePausedConnections k =>
      rw [hScan k rfl] at hRescans
      cases hRescans
    | _ => cases hRescans
  · exact ⟨o, Multiset.mem_add.mpr (.inr hOther), hRescans⟩

theorem Covered.next (hTurn : Turn opts system op choice ops others later) (hSane : Sane opts system.shared op)
    (hScan : Outstanding opts system.shared c ∨ ∀ k, op = .resumePausedConnections k → rescans opts c op = false)
    (hReads : reads op ≠ some c) (h : Covered opts system c) : Covered opts later c := by
  by_cases hOut : Outstanding opts system.shared c
  · refine (outstanding_next hTurn.exec hSane hReads hOut).imp id ?_
    rintro ⟨o, ho, hNext⟩
    exact ⟨o, hTurn.after ▸ Multiset.mem_add.mpr (.inl ho), hNext⟩
  · exact .inr (rescanning_next hTurn (hScan.resolve_left hOut) (h.resolve_left hOut))

theorem TotalCovered.next (hTurn : Turn opts system op choice ops others later) (hSane : Sane opts system.shared op)
    (hScan : system.shared.totalInflightRequestBytes ≠ 0 ∨
      ∀ k, op = .resumePausedConnections k → rescans opts c op = false)
    (h : TotalCovered opts system c) : TotalCovered opts later c := by
  obtain ⟨hStrict, hCovered⟩ := h
  refine ⟨hStrict, ?_⟩
  by_cases hTotal : system.shared.totalInflightRequestBytes = 0
  · exact .inr (rescanning_next hTurn (hScan.resolve_left (absurd hTotal)) (hCovered.resolve_left (absurd hTotal)))
  · refine (total_next hTurn.exec hSane hStrict hTotal c).imp id ?_
    rintro ⟨o, ho, hNext⟩
    exact ⟨o, hTurn.after ▸ Multiset.mem_add.mpr (.inl ho), hNext⟩

theorem resume_leaves (h : exec opts s (.resumePausedConnections k) choice = some (t, ops))
    (hRescans : rescans opts c (.resumePausedConnections k) = true) (hTable : c ∈ s.table)
    (hOpen : (s.connections c).closing = false) (hBefore : (s.connections c).readPaused = true)
    (hPaused : (t.connections c).readPaused = true) : Outstanding opts t c := by
  obtain ⟨rfl, -⟩ := outcome_eq h
  have hStays : c ∉ resumable opts s k := by
    intro hMem
    simp only [resumePausedConnections, if_pos hMem] at hPaused
    cases hPaused
  have hHigh : belowResumeWatermark opts s c = false := by
    by_contra hLow
    refine hStays (List.mem_filter.mpr ⟨?_, ?_⟩)
    · have hSame : opts.strictBudget = true ∨ k = c := by simpa [rescans] using hRescans
      split
      · rename_i hZero
        obtain hStrict | rfl := hSame
        · exact absurd hZero (bne_iff_ne.mp hStrict)
        · exact List.mem_filter.mpr ⟨hTable, by simp⟩
      · exact hTable
    · simp only [ready, hBefore, hOpen, Bool.not_false, Bool.and_self, Bool.true_and]
      simpa using hLow
  refine (outstanding_of_above_resume hHigh).of_same ?_ ?_ fun _ => rfl
  all_goals
    simp only [resumePausedConnections, if_neg hStays]

theorem Inv.paused_next (hInv : Inv opts system) (hOwners : Ownership.Inv opts system)
    (hTurn : Turn opts system op choice ops others later) (hTable : c ∈ later.shared.table)
    (hOpen : (later.shared.connections c).closing = false)
    (hPaused : (later.shared.connections c).readPaused = true) : Covered opts later c := by
  have hOp := hTurn.mem
  obtain hWas | ⟨r, finish, rfl, rfl⟩ := readPaused_next hTurn.exec hPaused
  · have hInTable : c ∈ system.shared.table := not_paused_of_new hTurn.exec hTable hPaused
    have hWasOpen : (system.shared.connections c).closing = false := by
      by_contra hClosed
      rw [exec_closing hTurn.exec (by simpa using hClosed)] at hOpen
      cases hOpen
    by_cases hScan : ∀ k, op = .resumePausedConnections k → rescans opts c op = false
    · refine Covered.next hTurn (hOwners.sane _ hOp) (.inr hScan) ?_
        (hInv.paused c hInTable hWasOpen hWas)
      intro hReads
      cases hWas.symm.trans (hInv.reading op hOp c hReads)
    · push Not at hScan
      obtain ⟨k, rfl, hRescans⟩ := hScan
      exact .inl (resume_leaves hTurn.exec (by simpa using hRescans) hInTable hWasOpen hWas hPaused)
  · -- the pause itself: what led to the decision is still there
    obtain hOut | ⟨o, ho, hRescans⟩ := (hInv.decided _ hOp : Covered opts system c)
    · obtain ⟨-, -, hRequests, hBytes⟩ := (exec_keeps hTurn.exec).account c (by simp [writes])
      exact .inl (hOut.of_same hRequests hBytes fun _ => (exec_keeps hTurn.exec).total (by simp [writes]))
    · rw [hTurn.before] at ho
      obtain rfl | hOther := Multiset.mem_cons.mp ho
      · cases hRescans
      · exact .inr ⟨o, hTurn.after ▸ Multiset.mem_add.mpr (.inr hOther), hRescans⟩

theorem Inv.decided_others (hInv : Inv opts system) (hOwners : Ownership.Inv opts system)
    (hTurn : Turn opts system op choice ops others later)
    (hGuard : ∀ k, op = .resumePausedConnections k → ∀ o ∈ system.pending, sparesGap opts system.shared op o = true)
    (ho : o ∈ others) : Decided opts later o := by
  have hMem : o ∈ system.pending := hTurn.mem_other ho
  have hSane := hOwners.sane op hTurn.mem
  have hDecided := hInv.decided o hMem
  cases o with
  | reserveConnection c r n | reserveTotal c r n => exact hDecided
  | unreserveConnection c r n =>
    refine TotalCovered.next hTurn hSane (or_iff_not_imp_left.mpr fun hNone k hk => ?_) hDecided
    simpa [sparesGap, hNone] using hGuard k hk _ hMem
  | pauseConnectionReads c r finish =>
    refine Covered.next hTurn hSane (or_iff_not_imp_left.mpr fun hNone k hk => ?_) (fun hReads => ?_) hDecided
    · simpa [sparesGap, hNone] using hGuard k hk _ hMem
    · have hUnique := hOwners.claim_unique (c := c) hTurn.before ho (if_pos rfl)
      rw [claim_of_reads hReads] at hUnique
      cases hUnique
  | _ => trivial

theorem decided_of_plain (h : conditional o = false ∨ serving o = true) : Decided opts later o := by
  cases o with
  | reserveConnection c r n | reserveTotal c r n | unreserveConnection c r n
  | pauseConnectionReads c r finish => exact absurd h (by simp [conditional, serving])
  | _ => trivial

theorem Inv.decided_next (hInv : Inv opts system) (hTurn : Turn opts system op choice ops others later) (ho : o ∈ ops) :
    Decided opts later o := by
  have hDecided := hInv.decided op hTurn.mem
  cases hCond : conditional o with
  | false => exact decided_of_plain (.inl hCond)
  | true =>
    cases conditional_leads hTurn.exec ho hCond with
    | serve _ hServing => exact decided_of_plain (.inr hServing)
    | reserve c r hStrict => exact ⟨hStrict, (hInv.sized c).budget_le⟩
    | reserved c r n => exact hDecided
    | connectionFull c r n hFull =>
      have hFits : n ≤ opts.maxInflightRequestBytesPerConnection := UInt64.le_trans hDecided.2 opts.bytes_fit
      have hNonzero : (system.shared.connections c).inflightRequestBytes ≠ 0 := by
        intro hZero
        have hMin : min 0 opts.maxInflightRequestBytesPerConnection = 0 := if_pos UInt64.zero_le
        rw [hZero, hMin, UInt64.sub_zero] at hFull
        exact hFull hFits
      have hStays : reserveConnection opts system.shared c r n = _ := if_neg hFull
      have hExec := hTurn.exec
      simp only [exec, hStays, Option.some.injEq, Prod.mk.injEq] at hExec
      exact .inl (hExec.1 ▸ .inr (.inl hNonzero))
    | totalFull c r n hFull =>
      obtain ⟨hStrict, hSmall⟩ := hDecided
      have hFits := UInt64.le_trans hSmall (opts.total_fits.resolve_left (bne_iff_ne.mp hStrict))
      have hNonzero : system.shared.totalInflightRequestBytes ≠ 0 := by
        intro hZero
        rw [hZero, UInt64.sub_zero] at hFull
        exact hFull ⟨UInt64.zero_le, hFits⟩
      have hStays : reserveTotal opts system.shared c r n = _ := if_neg hFull
      have hExec := hTurn.exec
      simp only [exec, hStays, Option.some.injEq, Prod.mk.injEq] at hExec
      exact ⟨hStrict, .inl (hExec.1 ▸ hNonzero)⟩
    | unreserved c r n =>
      obtain ⟨hStrict, hTotal | ⟨x, hx, hRescans⟩⟩ := hDecided
      · obtain ⟨hShared, -⟩ := outcome_eq hTurn.exec
        refine .inl (.inr (.inr ⟨bne_iff_ne.mp hStrict, ?_⟩))
        rw [hShared]
        exact hTotal
      · rw [hTurn.before] at hx
        obtain rfl | hOther := Multiset.mem_cons.mp hx
        · cases hRescans
        · exact .inr ⟨x, hTurn.after ▸ Multiset.mem_add.mpr (.inr hOther), hRescans⟩
    | busy c r hAbove =>
      obtain ⟨hShared, -⟩ := outcome_eq hTurn.exec
      exact .inl (hShared ▸ outstanding_of_above hAbove)
    | _ => trivial

theorem guard_gap (hGuard : scansOutsideGap opts system action = true) (hNext : system.next action.1 = some op) :
    ∀ k, op = .resumePausedConnections k → ∀ o ∈ system.pending, sparesGap opts system.shared op o = true := by
  rintro k rfl
  simp only [scansOutsideGap, hNext, List.all_eq_true] at hGuard
  exact hGuard

theorem reading_next (hOwners : Ownership.Inv opts system)
    (hReading : ∀ op ∈ system.pending, ∀ c, reads op = some c → (system.shared.connections c).readPaused = false)
    (hTurn : Turn opts system op choice ops others later) (ho : o ∈ later.pending) (hRead : reads o = some c) :
    (later.shared.connections c).readPaused = false := by
  obtain hNew | hOther := hTurn.mem_later ho
  · exact reads_next hTurn.exec (hReading op hTurn.mem c) hNew hRead
  · by_contra hPaused
    have hNotPaused := hReading o (hTurn.mem_other hOther) c hRead
    obtain hWas | ⟨r, finish, rfl, -⟩ := readPaused_next hTurn.exec (by simpa using hPaused)
    · cases hWas.symm.trans hNotPaused
    · -- only one thread reads a connection
      have hUnique := hOwners.claim_unique hTurn.before hOther (claim_of_reads hRead)
      cases hUnique.symm.trans (if_pos rfl)

theorem Inv.next (hInv : Inv opts system) (hOwners : Ownership.Inv opts system)
    (hGuard : scansOutsideGap opts system action = true) (hStep : (machine opts).step system action = some later) :
    Inv opts later := by
  obtain ⟨op, ops, others, hNext, hTurn⟩ := Threads.step_cases hStep
  have hMem : ∀ o ∈ later.pending, o ∈ ops ∨ o ∈ others := by
    intro o ho
    exact hTurn.mem_later ho
  refine ⟨fun c => sized_next hTurn.exec (hInv.sized c), ?_, ?_, ?_⟩
  · exact fun o ho c => reading_next hOwners hInv.reading hTurn ho
  · intro o ho
    exact (hMem o ho).elim (hInv.decided_next hTurn)
      (hInv.decided_others hOwners hTurn (guard_gap hGuard hNext))
  · intro c hTable hOpen hPaused
    exact hInv.paused_next hOwners hTurn hTable hOpen hPaused

end Step

theorem Inv.start {system : Threads State Op} (h : Initial system) : Inv opts system := by
  refine ⟨?_, ?_, ?_, ?_⟩
  · rw [h.1]
    exact fun c => ⟨UInt64.zero_le, UInt64.zero_le⟩
  · rw [h.1]
    exact fun _ _ _ _ => rfl
  · intro op hOp
    obtain rfl | rfl | rfl | rfl := initial_pending h hOp <;> trivial
  · rw [h.1]
    intro c hTable
    cases hTable

/-- If no last scan falls between the decision to pause a connection and the raise of `read_paused`, every
paused connection has outstanding work whose release scans it, except while a release is on its way to
that scan. -/
theorem paused_has_work {system : Threads State Op}
    (h : (machine opts).Reached (fun system action => scansOutsideGap opts system action = true) system)
    (c : Nat) (hQuiet : ∀ op ∈ system.pending, rescans opts c op = false)
    (hTable : c ∈ system.shared.table) (hOpen : (system.shared.connections c).closing = false)
    (hPaused : (system.shared.connections c).readPaused = true) :
    (system.shared.connections c).inflightRequests ≠ 0 ∨
      (system.shared.connections c).inflightRequestBytes ≠ 0 ∨
      opts.maxTotalInflightBytes ≠ 0 ∧ system.shared.totalInflightRequestBytes ≠ 0 := by
  have hInv : Inv opts system :=
    h.invariant (fun _ => Inv.start) fun _ _ _ hReached hInv hGuard hStep =>
      hInv.next (reached_inv hReached) hGuard hStep
  obtain hOut | ⟨op, hOp, hRescans⟩ := hInv.paused c hTable hOpen hPaused
  · exact hOut
  · cases (hQuiet op hOp).symm.trans hRescans

def narrow : Options := { roomy with maxInflightRequestsPerConnection := 1, requests_pos := by decide }

/-- The reactor queues a request and decides to pause the connection. -/
def decidesToPause : List (Nat × Choice) :=
  performs 0 [.accept 0 true] ++ readRequest 0 10 none ++ performs 0 [.proceed, .proceed, .proceed]

def raisesPaused : List (Nat × Choice) := performs 0 [.proceed, .proceed, .proceed, .proceed, .proceed]

theorem paused_has_work_queued : ∃ system,
    (machine narrow).Reached (fun system action => scansOutsideGap narrow system action = true) system ∧
      (system.shared.connections 0).readPaused = true ∧
      ((system.shared.connections 0).inflightRequests ≠ 0 ∨
        (system.shared.connections 0).inflightRequestBytes ≠ 0 ∨
        narrow.maxTotalInflightBytes ≠ 0 ∧ system.shared.totalInflightRequestBytes ≠ 0) := by
  obtain ⟨system, hReached, hQuiet, hTable, hOpen, hPaused⟩ := Machine.exists_reached_of_exec
    (fun system => (∀ op ∈ system.pending, rescans narrow 0 op = false) ∧ 0 ∈ system.shared.table ∧
      (system.shared.connections 0).closing = false ∧ (system.shared.connections 0).readPaused = true)
    (scansOutsideGap narrow) (decidesToPause ++ raisesPaused) (M := machine narrow) oneWorker_initial
    (by decide +kernel)
  exact ⟨system, hReached, hPaused, paused_has_work hReached 0 hQuiet hTable hOpen hPaused⟩

/-- The worker answers the request and its scan finds the connection not paused yet. Then the reactor
raises the flag, and all threads are idle. -/
theorem paused_without_work : ∃ system, (machine narrow).Reachable system ∧
    system.programs = [[.runReactor], [.workerLoop]] ∧ system.shared.table = [0] ∧
    (system.shared.connections 0).closing = false ∧ (system.shared.connections 0).readPaused = true ∧
    (system.shared.connections 0).inflightRequests = 0 ∧
    (system.shared.connections 0).inflightRequestBytes = 0 ∧ system.shared.totalInflightRequestBytes = 0 :=
  Machine.exists_reachable_of_exec _
    (decidesToPause ++ performs 1 ([Choice.proceed, .proceed, .sent] ++ List.replicate 8 Choice.proceed) ++
      raisesPaused)
    oneWorker_initial (by decide +kernel)

end EasyUds.Server.Pausing

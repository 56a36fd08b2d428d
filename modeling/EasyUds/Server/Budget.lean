import Mathlib.Algebra.BigOperators.Intervals
import Mathlib.Algebra.Group.Pi.Lemmas
import EasyUds.Server.Accounting

/-! # The aggregate budget

With `max_total_inflight_bytes` set, every byte of a request is reserved before it is read, first for the
connection and then in total, and released in the same order. So the total is the sum over the connections
up to the reservation or the release in progress, and nothing wraps. This is so as long as no other thread
takes the reservation of a connection from a visit of the reactor that goes on with it.
-/

namespace EasyUds.Server.Budget

open Lib Server.Core Server.Steps Server.Outcomes Server.Footprint
open Server.Ownership Server.Reservation Server.Ledger Server.Accounting

variable {opts : Options} {s t : State} {op : Op} {choice : Choice} {ops : List Op} {c : Nat}

/-- The bytes of a connection that its parser has reserved, that its queued jobs hold and that are held by
the operations which execute its jobs. -/
def inFlight (opts : Options) (system : Threads State Op) (c : Nat) : ℕ := (owed opts system c).2.2.2

/-- Bytes that are reserved for the connection and not yet, or not at all, in total. -/
def lag : Op → ℕ
  | .reserveTotal _ _ n | .unreserveConnection _ _ n => n.toNat
  | _ => 0

/-- Bytes that are released from the connection and not yet in total. -/
def trail : Op → ℕ
  | .subRequests _ n | .subTotal _ n => n.toNat
  | _ => 0

def underflows (s : State) : Op → Prop
  | .releaseConnectionRequest c n | .releaseConnectionRequestBytes c n | .unreserveConnection c _ n =>
    (s.connections c).inflightRequestBytes < n
  | .subRequests c _ => (s.connections c).inflightRequests = 0
  | .subTotal _ n => s.totalInflightRequestBytes < n
  | .completeRegularRequest c _ _ => (s.connections c).activeRegular = 0
  | .subSerialized c _ => (s.connections c).pendingSerialized = 0
  | _ => False

/-- The size of a request that the parser has read a header of. -/
def Declared (k : Connection) : Prop := k.phase = .requestBudget ∨ k.phase = .requestPayload → k.payloadTotal ≠ 0

variable {f : Connection → Connection} {system : Threads State Op} {job : SerializedJob} {k : Nat}

theorem Declared.update (h : Declared (s.connections c)) (hf : ∀ l, Declared l → Declared (f l)) :
    Declared ((s.update k f).connections c) := by
  rw [State.update_apply]
  split
  · exact hf _ h
  · exact h

theorem admitted_declared {k : Connection} {n : UInt64} (h : Declared k) :
    Declared { k with reservedRequestBytes := n, phase := admittedPhase k.phase } := by
  unfold Declared at h ⊢
  intro hPhase
  refine h ?_
  cases hOld : k.phase with
  | header => simp [hOld, admittedPhase] at hPhase
  | requestBudget => exact .inl rfl
  | requestPayload => exact .inr rfl
  | streamBudget | streamRoute => simp [hOld, admittedPhase] at hPhase

theorem declared_next (h : exec opts s op choice = some (t, ops)) (hDeclared : Declared (s.connections c)) :
    Declared (t.connections c) := by
  by_cases hField : .parser ∈ writes op
  · cases op with
    | beginPayload k r =>
      simp only [exec, beginPayload] at h
      split at h
      · cases h
        exact hDeclared
      · cases h
        exact hDeclared.update fun _ hOld => admitted_declared hOld
    | finishRequest k r paused =>
      cases h
      exact hDeclared.update fun _ _ hPhase => by simp at hPhase
    | payloadReserved k r n =>
      cases h
      exact hDeclared.update fun _ hOld => admitted_declared hOld
    | parse k r =>
      obtain ⟨l, rfl, hParsed⟩ := parseInput_cases h
      rw [State.update_apply]
      split
      · rename_i hc
        subst hc
        cases hParsed with
        | request n more hPhase hNonzero hFits => exact fun _ => hNonzero
        | stream n more hPhase hNonzero hFits => exact fun hPhase => by simp at hPhase
        | _ => exact hDeclared
      · exact hDeclared
    | rearmLocked k mayReuse site =>
      by_cases hc : c = k
      · subst hc
        have hReset : ∀ more added, Declared ((rearm s c mayReuse more added).connections c) := by
          intro more added hPhase
          simp [rearm] at hPhase
        obtain ⟨more, rfl, -⟩ | ⟨rfl, -⟩ := rearmLocked_cases h
        · exact hReset more true
        · exact hReset false false
      · rw [rearmLocked_other h hc]
        exact hDeclared
    | _ => simp [writes] at hField
  · obtain ⟨hPhase, hTotal, -⟩ := (exec_keeps h).parser c hField
    unfold Declared
    rw [hPhase, hTotal]
    exact hDeclared

/-- The request that an operation carries is not empty; the completion without release belongs to leases. -/
def Sound : Op → Prop
  | .enqueueWorkerJob _ _ n false | .enqueueSerializedJob _ n _ _ | .completeRegularRequest _ n true => n ≠ 0
  | .releaseConnectionRequest _ n | .subRequests _ n | .subSerialized _ n => n ≠ 0
  | .completeRegularRequest _ _ false => False
  | _ => True

structure SoundQueues (s : State) : Prop where
  jobs : ∀ job ∈ s.pendingJobs, job.isStream = false → job.requestBytes ≠ 0
  serialized : ∀ job ∈ s.pendingSerialized, job.requestBytes ≠ 0

theorem sound_next (h : exec opts s op choice = some (t, ops)) (hStrict : opts.strictBudget = true)
    (hSane : Sane opts s op) (hParsing : Parsing opts s op) (hDeclared : ∀ c, Declared (s.connections c))
    (hQueues : SoundQueues s) (hSound : Sound op) : ∀ o ∈ ops, Sound o := by
  have hLoose : leased op = true → False := fun hLeased =>
    absurd ((hSane.of_leased hLeased).symm.trans hStrict) (by simp)
  intro o ho
  cases exec_next h o ho with
  | subRequests | completeReleases | serializedReleases => exact hSound
  | dispatchSerialized | dispatchRegular => exact hDeclared _ (.inr hParsing.1)
  | complete hJob hRegular => exact hQueues.jobs _ hJob hRegular
  | subSerialized hJob | supersededSub hJob => exact hQueues.serialized _ hJob
  | serveSerialized | serveCompletes | admissionCompletes | sentContinuation | refreshedContinuation =>
    exact (hLoose rfl).elim
  | _ => trivial

theorem exec_serialized (h : exec opts s op choice = some (t, ops)) (hJob : job ∈ t.pendingSerialized) :
    job ∈ s.pendingSerialized ∨
      ∃ c n route site, op = .enqueueSerializedJob c n route site ∧ job = ⟨c, n, route⟩ := by
  by_cases hField : .serializedJobs ∈ writes op
  · cases op with
    | enqueueSerializedJob k n route site =>
      obtain ⟨rfl, -⟩ | ⟨latestWins, hNext⟩ := enqueueSerializedJob_cases h
      · exact .inl hJob
      · obtain rfl : t = _ := congrArg Prod.fst hNext
        have hQueue : (admitJob opts s k n route site latestWins).1.pendingSerialized =
            s.pendingSerialized.filter (fun job => !(latestWins && job.route == route)) ++ [⟨k, n, route⟩] := by
          cases site with
          | dispatch r =>
            exact (@accountConnectionRequest_keeps opts _ [.account, .total] k n (by decide) (by decide)).serializedJobs
              (by decide)
          | continuation => rfl
        rw [hQueue, List.mem_append, List.mem_singleton] at hJob
        exact hJob.imp (fun hOld => (List.mem_filter.mp hOld).1) fun hNew => ⟨k, n, route, site, rfl, hNew⟩
    | serializedWorkerLoop =>
      obtain ⟨index, first, -, rfl, -⟩ | ⟨rfl, -⟩ := serializedWorkerLoop_cases h
      · exact .inl (List.mem_of_mem_eraseIdx hJob)
      · exact .inl hJob
    | _ => simp [writes] at hField
  · exact .inl ((exec_keeps h).serializedJobs hField ▸ hJob)

theorem soundQueues_next (h : exec opts s op choice = some (t, ops)) (hQueues : SoundQueues s) (hSound : Sound op) :
    SoundQueues t where
  jobs := by
    intro job hJob hRegular
    obtain hOld | ⟨c, r, n, isStream, rfl, rfl⟩ := exec_jobs h hJob
    · exact hQueues.jobs job hOld hRegular
    · obtain rfl : isStream = false := hRegular
      exact hSound
  serialized := by
    intro job hJob
    obtain hOld | ⟨c, n, route, site, rfl, rfl⟩ := exec_serialized h hJob
    · exact hQueues.serialized job hOld
    · exact hSound

/-- The operations that move bytes between a connection and the total. -/
def moves : Op → Bool
  | .releaseConnectionRequest .. | .releaseConnectionRequestBytes .. | .subRequests .. | .subTotal .. => true
  | .reserveConnection .. | .reserveTotal .. | .unreserveConnection .. => true
  | _ => false

theorem lag_of_plain (h : conditional op = false) : lag op = 0 := by
  cases op <;> first | rfl | cases h

theorem trail_of_plain (h : conditional op = false) : trail op = 0 := by
  cases op <;> first | rfl | cases h

theorem moves_none (h : moves op = false) : lag op = 0 ∧ trail op = 0 := by
  cases op <;> first | exact ⟨rfl, rfl⟩ | cases h

theorem next_moves_none (h : exec opts s op choice = some (t, ops)) (hMoves : moves op = false) {o : Op}
    (ho : o ∈ ops) : lag o = 0 ∧ trail o = 0 := by
  cases hCond : conditional o with
  | false => exact ⟨lag_of_plain hCond, trail_of_plain hCond⟩
  | true =>
    cases conditional_leads h ho hCond with
    | serve hOp hServing => cases o <;> first | exact ⟨rfl, rfl⟩ | cases hServing
    | reserved | totalFull | unreserved | released | releasedBytes | counted => cases hMoves
    | _ => exact ⟨rfl, rfl⟩

theorem update_bytes (hf : ∀ l, (f l).inflightRequestBytes = l.inflightRequestBytes) :
    ((s.update k f).connections c).inflightRequestBytes = (s.connections c).inflightRequestBytes := by
  rw [State.update_apply]
  split
  · exact hf _
  · rfl

theorem account_bytes {n : UInt64} (hStrict : opts.strictBudget = true) :
    ((accountConnectionRequest opts s k n).connections c).inflightRequestBytes =
        (s.connections c).inflightRequestBytes ∧
      (accountConnectionRequest opts s k n).totalInflightRequestBytes = s.totalInflightRequestBytes := by
  unfold accountConnectionRequest
  rw [if_pos hStrict]
  exact ⟨update_bytes fun _ => rfl, rfl⟩

theorem bytes_kept (h : exec opts s op choice = some (t, ops)) (hStrict : opts.strictBudget = true)
    (hSane : Sane opts s op) (hMoves : moves op = false) :
    (t.connections c).inflightRequestBytes = (s.connections c).inflightRequestBytes ∧
      t.totalInflightRequestBytes = s.totalInflightRequestBytes := by
  have hLoose : leased op = true → False := fun hLeased =>
    absurd ((hSane.of_leased hLeased).symm.trans hStrict) (by simp)
  by_cases hField : .account ∈ writes op ∨ .total ∈ writes op
  · cases op with
    | completeRegularRequest k n release | subSerialized k n => cases h; exact ⟨update_bytes fun _ => rfl, rfl⟩
    | addActive k n session | addRequests k n session | addBytes k n session
    | addTotal k n session => exact (hLoose rfl).elim
    | enqueueWorkerJob k r n isStream =>
      cases exec_outcome h with
      | jobRefused | jobFailed | queueStream => exact ⟨rfl, rfl⟩
      | queueRequest =>
        obtain ⟨hBytes, hTotal⟩ := @account_bytes opts _ c k n hStrict
        exact ⟨hBytes.trans (update_bytes fun _ => rfl), hTotal⟩
    | enqueueSerializedJob k n route site =>
      obtain ⟨rfl, -⟩ | ⟨latestWins, hNext⟩ := enqueueSerializedJob_cases h
      · exact ⟨rfl, rfl⟩
      · obtain rfl : t = _ := congrArg Prod.fst hNext
        cases site with
        | continuation => exact (hLoose rfl).elim
        | dispatch r =>
          obtain ⟨hBytes, hTotal⟩ := @account_bytes opts _ c k n hStrict
          exact ⟨hBytes.trans (update_bytes fun _ => rfl), hTotal⟩
    | releaseConnectionRequest k n | releaseConnectionRequestBytes k n | subRequests k n | subTotal k n
    | reserveConnection k r n | reserveTotal k r n | unreserveConnection k r n => cases hMoves
    | _ => simp [writes] at hField
  · obtain ⟨hAccount, hTotal⟩ := not_or.mp hField
    exact ⟨((exec_keeps h).account c hAccount).2.2.2, (exec_keeps h).total hTotal⟩

theorem reserved_within {old n limit : UInt64} (hWithin : old ≤ limit) (hFits : n ≤ limit - old) :
    old.toNat + n.toNat ≤ limit.toNat ∧ (old + n).toNat = old.toNat + n.toNat := by
  have hLimit := limit.toNat_lt
  rw [UInt64.le_iff_toNat_le] at hWithin hFits
  rw [UInt64.toNat_sub_of_le _ _ (UInt64.le_iff_toNat_le.mpr hWithin)] at hFits
  refine ⟨by omega, ?_⟩
  rw [UInt64.toNat_add]
  exact Nat.mod_eq_of_lt (by omega)

theorem released_toNat {old n : UInt64} (h : ¬ old < n) : (old - n).toNat + n.toNat = old.toNat := by
  rw [UInt64.lt_iff_toNat_lt] at h
  rw [UInt64.toNat_sub_of_le _ _ (UInt64.le_iff_toNat_le.mpr (by omega))]
  omega

/-- The bytes that an operation moves: what the total and one connection lose or gain, and what is under
way before and after. -/
structure Transfer (s t : State) (op : Op) (ops : List Op) (k : Nat) : Prop where
  others : ∀ c, c ≠ k → (t.connections c).inflightRequestBytes = (s.connections c).inflightRequestBytes
  moved : t.totalInflightRequestBytes.toNat + Threads.weigh lag (ops : Multiset Op) +
      ((s.connections k).inflightRequestBytes.toNat + trail op) =
    s.totalInflightRequestBytes.toNat + lag op +
      ((t.connections k).inflightRequestBytes.toNat + Threads.weigh trail (ops : Multiset Op))

theorem Transfer.update
    (hMoved : Threads.weigh lag (ops : Multiset Op) + ((s.connections k).inflightRequestBytes.toNat + trail op) =
      lag op + ((f (s.connections k)).inflightRequestBytes.toNat + Threads.weigh trail (ops : Multiset Op))) :
    Transfer s (s.update k f) op ops k := by
  refine ⟨fun c hc => by rw [State.update_other _ _ hc], ?_⟩
  rw [State.update_self, State.update_total]
  omega

theorem exec_transfer (h : exec opts s op choice = some (t, ops)) (hStrict : opts.strictBudget = true)
    (hSane : Sane opts s op) (hExact : ¬ underflows s op)
    (hWithin : ∀ c, (s.connections c).inflightRequestBytes ≤ opts.maxInflightRequestBytesPerConnection) :
    ∃ k, Transfer s t op ops k := by
  cases hMoves : moves op with
  | false =>
    have hKept := fun c => bytes_kept (c := c) h hStrict hSane hMoves
    refine ⟨0, fun c _ => (hKept c).1, ?_⟩
    rw [(hKept 0).1, (hKept 0).2, (moves_none hMoves).1, (moves_none hMoves).2,
      Threads.weigh_eq_zero lag fun o ho => (next_moves_none h hMoves ho).1,
      Threads.weigh_eq_zero trail fun o ho => (next_moves_none h hMoves ho).2]
  | true =>
    cases op with
    | releaseConnectionRequest k n =>
      cases h
      have hBytes := released_toNat hExact
      refine ⟨k, .update ?_⟩
      simp only [lag, trail, Threads.weigh_coe_cons, Threads.weigh_nil]
      omega
    | releaseConnectionRequestBytes k n =>
      simp only [exec] at h
      split at h
      · cases h
        exact ⟨k, fun _ _ => rfl, by simp [lag, trail]⟩
      · cases h
        have hBytes := released_toNat hExact
        refine ⟨k, .update ?_⟩
        simp only [lag, trail, Threads.weigh_coe_cons, Threads.weigh_nil]
        omega
    | subRequests k n =>
      cases h
      exact ⟨k, .update (by simp [lag, trail])⟩
    | subTotal k n =>
      cases h
      have hTotal := released_toNat hExact
      refine ⟨k, fun _ _ => rfl, ?_⟩
      simp only [lag, trail, Threads.weigh_coe_cons, Threads.weigh_nil]
      omega
    | reserveConnection k r n =>
      simp only [exec, reserveConnection] at h
      split at h
      · rename_i hFits
        cases h
        rw [show min (s.connections k).inflightRequestBytes _ = _ from if_pos (hWithin k)] at hFits
        obtain ⟨-, hBytes⟩ := reserved_within (hWithin k) hFits
        refine ⟨k, .update ?_⟩
        simp only [hBytes, lag, trail, Threads.weigh_coe_cons, Threads.weigh_nil]
        omega
      · cases h
        exact ⟨k, fun _ _ => rfl, by simp [lag, trail]⟩
    | reserveTotal k r n =>
      simp only [exec, reserveTotal] at h
      split at h
      · rename_i hFits
        cases h
        obtain ⟨-, hTotal⟩ := reserved_within hFits.1 hFits.2
        refine ⟨k, fun _ _ => rfl, ?_⟩
        simp only [hTotal, lag, trail, Threads.weigh_coe_cons, Threads.weigh_nil]
        omega
      · cases h
        exact ⟨k, fun _ _ => rfl, by simp [lag, trail]⟩
    | unreserveConnection k r n =>
      cases h
      have hBytes := released_toNat hExact
      refine ⟨k, .update ?_⟩
      simp only [lag, trail, Threads.weigh_coe_cons, Threads.weigh_nil]
      omega
    | _ => cases hMoves

/-- The bytes of a debt that are owed to the first `m` connections. -/
def spread (m : ℕ) : Debts →+ ℕ where
  toFun debts := ∑ c ∈ Finset.range m, (debts c).2.2.2
  map_zero' := by simp
  map_add' := by simp [Finset.sum_add_distrib]

/-- The largest of the three request counts of an entry. -/
def top (entry : Entry) : ℕ := max entry.1 (max entry.2.1 entry.2.2.1)

variable {m k : ℕ} {n : UInt64}

theorem spread_single (entry : Entry) (h : m ≤ k → entry.2.2.2 = 0) : spread m (Pi.single k entry) = entry.2.2.2 := by
  change ∑ c ∈ Finset.range m, ((Pi.single k entry : Debts) c).2.2.2 = _
  rw [Finset.sum_eq_single k]
  · rw [Pi.single_eq_same]
  · intro c _ hc
    rw [Pi.single_eq_of_ne hc]
    rfl
  · intro hk
    rw [Pi.single_eq_same, h (by simpa using hk)]

/-- The requests of a debt are covered by its bytes, up to what is under way. -/
def Covered (debts : Debts) (before after : ℕ) : Prop :=
  ∃ k entry, debts = Pi.single k entry ∧ before ≤ entry.2.2.2 ∧ top entry + before ≤ entry.2.2.2 + after

theorem covered_zero : Covered 0 0 0 := ⟨0, 0, by simp, le_rfl, le_rfl⟩

theorem covered_bytes {before : ℕ} (h : before ≤ n.toNat) : Covered (bytes k n) before 0 :=
  ⟨k, _, rfl, h, by simpa [top] using h⟩

theorem one_le_toNat (h : n ≠ 0) : 1 ≤ n.toNat := by
  rw [Nat.one_le_iff_ne_zero, ne_eq, ← UInt64.toNat_zero, UInt64.toNat_inj]
  exact h

theorem covered_active (h : n ≠ 0) : Covered (active k + requests k + bytes k n) 0 0 :=
  ⟨k, (1, 0, 1, n.toNat), by simp [active, requests, bytes, ← Pi.single_add], Nat.zero_le _,
    by simpa [top] using one_le_toNat h⟩

theorem covered_serialized (h : n ≠ 0) : Covered (serialized k + requests k + bytes k n) 0 0 :=
  ⟨k, (0, 1, 1, n.toNat), by simp [serialized, requests, bytes, ← Pi.single_add], Nat.zero_le _,
    by simpa [top] using one_le_toNat h⟩

theorem debt_covered (hStrict : opts.strictBudget = true) (hSane : Sane opts s op) (hSound : Sound op) :
    Covered (debt opts op) (lag op) (trail op) := by
  have hLoose : leased op = true → False := fun hLeased =>
    absurd ((hSane.of_leased hLeased).symm.trans hStrict) (by simp)
  have hHeld : ∀ k n, Covered (held opts k n) 0 0 := fun k n => by
    rw [held, if_pos hStrict]
    exact covered_bytes (Nat.zero_le _)
  cases op with
  | releaseConnectionRequest k n =>
    exact ⟨k, (0, 0, 1, n.toNat), by simp [debt, requests, bytes, ← Pi.single_add], Nat.zero_le _,
      by simpa [top, lag, trail] using one_le_toNat hSound⟩
  | releaseConnectionRequestBytes k n => exact covered_bytes (Nat.zero_le _)
  | reserveTotal k r n | unreserveConnection k r n => exact covered_bytes le_rfl
  | payloadReserved k r n => exact covered_bytes (Nat.zero_le _)
  | subRequests k n => exact ⟨k, (0, 0, 1, 0), rfl, le_rfl, by simpa [top, lag, trail] using one_le_toNat hSound⟩
  | subTotal k n => exact ⟨0, 0, by simp [debt], le_rfl, Nat.zero_le _⟩
  | streamLease k r n | enqueueWorkerJob k r n isStream => exact hHeld k n
  | enqueueSerializedJob k n route site =>
    cases site with
    | dispatch r => exact hHeld k n
    | continuation => exact (hLoose rfl).elim
  | completeRegularRequest k n release =>
    cases release with
    | true => exact covered_active hSound
    | false => exact hSound.elim
  | runStreamExchange k n release =>
    cases release with
    | true => exact covered_bytes (Nat.zero_le _)
    | false => exact covered_zero
  | subSerialized k n => exact covered_serialized hSound
  | addRequests k n session | addBytes k n session | addTotal k n session
  | serveFixedRequest k n => exact (hLoose rfl).elim
  | writeFixedResponse k site =>
    cases site with
    | continuation n => exact (hLoose rfl).elim
    | _ => exact covered_zero
  | refreshConnectionEvents k site =>
    cases site with
    | write site =>
      cases site with
      | continuation n => exact (hLoose rfl).elim
      | _ => exact covered_zero
    | _ => exact covered_zero
  | threw k site =>
    cases site with
    | continuation n => exact (hLoose rfl).elim
    | _ => exact covered_zero
  | _ => exact covered_zero

theorem jobDebt_covered (hQueues : SoundQueues s) {job : PendingJob} (hJob : job ∈ s.pendingJobs) :
    Covered (jobDebt job) 0 0 := by
  unfold jobDebt
  split
  · split
    · exact covered_bytes (Nat.zero_le _)
    · exact covered_zero
  · rename_i hRegular
    exact covered_active (hQueues.jobs job hJob (Bool.not_eq_true _ ▸ hRegular))

theorem serializedDebt_covered (hQueues : SoundQueues s) (hJob : job ∈ s.pendingSerialized) :
    Covered (serializedDebt job) 0 0 :=
  covered_serialized (hQueues.serialized job hJob)

def Bound (m c : ℕ) (count : Entry →+ ℕ) (debts : Debts) (before after : ℕ) : Prop :=
  before ≤ spread m debts ∧ count (debts c) + before ≤ spread m debts + after

section Bound

variable {count : Entry →+ ℕ} {x y : Debts} {before before' after after' : ℕ}

theorem Bound.add (hx : Bound m c count x before after) (hy : Bound m c count y before' after') :
    Bound m c count (x + y) (before + before') (after + after') := by
  unfold Bound at hx hy ⊢
  rw [Pi.add_apply, map_add, map_add]
  omega

theorem bound_zero : Bound m c count 0 0 0 := by
  simp [Bound]

theorem Covered.bound (hCount : ∀ entry, count entry ≤ top entry) (h : Covered x before after)
    (hm : ∀ c, m ≤ c → (x c).2.2.2 = 0) : Bound m c count x before after := by
  obtain ⟨k, entry, rfl, hBefore, hTop⟩ := h
  unfold Bound
  rw [spread_single entry fun hk => by simpa using hm k hk]
  refine ⟨hBefore, le_trans (Nat.add_le_add_right ?_ before) hTop⟩
  by_cases hc : c = k
  · rw [hc, Pi.single_eq_same]
    exact hCount entry
  · rw [Pi.single_eq_of_ne hc, map_zero]
    exact Nat.zero_le _

theorem zero_of_add_zero {e f : Entry} (h : (e + f).2.2.2 = 0) : e.2.2.2 = 0 ∧ f.2.2.2 = 0 :=
  Nat.add_eq_zero_iff.mp h

theorem weigh_bound (hCount : ∀ entry, count entry ≤ top entry) (ops : Multiset Op)
    (hOps : ∀ op ∈ ops, Covered (debt opts op) (lag op) (trail op))
    (hm : ∀ c, m ≤ c → (Threads.weigh (debt opts) ops c).2.2.2 = 0) :
    Bound m c count (Threads.weigh (debt opts) ops) (Threads.weigh lag ops) (Threads.weigh trail ops) := by
  induction ops using Multiset.induction with
  | empty => exact bound_zero
  | cons op rest ih =>
    simp only [Threads.weigh_cons, Pi.add_apply] at hm ⊢
    exact ((hOps op (Multiset.mem_cons_self _ _)).bound hCount fun c hc => (zero_of_add_zero (hm c hc)).1).add
      (ih (fun o ho => hOps o (Multiset.mem_cons_of_mem ho)) fun c hc => (zero_of_add_zero (hm c hc)).2)

theorem sum_bound {Job : Type} {f : Job → Debts} (hCount : ∀ entry, count entry ≤ top entry) (jobs : List Job)
    (hJobs : ∀ job ∈ jobs, Covered (f job) 0 0) (hm : ∀ c, m ≤ c → ((jobs.map f).sum c).2.2.2 = 0) :
    Bound m c count (jobs.map f).sum 0 0 := by
  induction jobs with
  | nil => exact bound_zero
  | cons job rest ih =>
    simp only [List.map_cons, List.sum_cons, Pi.add_apply] at hm ⊢
    obtain ⟨hFirst, hRest⟩ := List.forall_mem_cons.mp hJobs
    exact (hFirst.bound hCount fun c hc => (zero_of_add_zero (hm c hc)).1).add
      (ih hRest fun c hc => (zero_of_add_zero (hm c hc)).2)

theorem reserved_bound (hCount : ∀ entry, count entry ≤ top entry) : Bound m c count (reserved s) 0 0 := by
  have hZero : count (reserved s c) = 0 := Nat.le_zero.mp (hCount _)
  unfold Bound
  omega

end Bound

/-- The total is the sum over the first `m` connections, up to what is under way. -/
def Balanced (system : Threads State Op) (m : ℕ) : Prop :=
  system.shared.totalInflightRequestBytes.toNat + Threads.weigh lag system.pending =
    ∑ c ∈ Finset.range m, (system.shared.connections c).inflightRequestBytes.toNat +
      Threads.weigh trail system.pending

structure Inv (opts : Options) (system : Threads State Op) : Prop where
  accounting : Accounting.Inv opts system
  declared : ∀ c, Declared (system.shared.connections c)
  sound : ∀ op ∈ system.pending, Sound op
  queues : SoundQueues system.shared
  share : ∀ c, inFlight opts system c ≤ opts.maxInflightRequestBytesPerConnection.toNat
  fits : system.shared.totalInflightRequestBytes ≤ opts.maxTotalInflightBytes
  balanced : ∃ N, ∀ m, N ≤ m → (system.shared.connections m).inflightRequestBytes = 0 ∧ Balanced system m

section Invariant

variable {system later : Threads State Op} {others : Multiset Op}
variable {count : Entry →+ ℕ}

theorem Inv.exact (hInv : Inv opts system) (c : Nat) :
    (system.shared.connections c).inflightRequestBytes.toNat = inFlight opts system c := by
  have hCounter : (system.shared.connections c).inflightRequestBytes = UInt64.ofNat (inFlight opts system c) :=
    congrArg (·.2.2.2) (congrFun hInv.accounting.counters c)
  have hShare := hInv.share c
  have hLimit := opts.maxInflightRequestBytesPerConnection.toNat_lt
  rw [hCounter, UInt64.toNat_ofNat_of_lt' (by change _ < 2 ^ 64; omega)]

theorem Inv.within (hInv : Inv opts system) (c : Nat) :
    (system.shared.connections c).inflightRequestBytes ≤ opts.maxInflightRequestBytesPerConnection := by
  rw [UInt64.le_iff_toNat_le, hInv.exact]
  exact hInv.share c

theorem Inv.balanced_owed (hInv : Inv opts system) :
    ∃ m, (∀ c, m ≤ c → inFlight opts system c = 0) ∧
      system.shared.totalInflightRequestBytes.toNat + Threads.weigh lag system.pending =
        ∑ c ∈ Finset.range m, inFlight opts system c + Threads.weigh trail system.pending := by
  obtain ⟨m, hm⟩ := hInv.balanced
  refine ⟨m, fun c hc => by rw [← hInv.exact, (hm c hc).1, UInt64.toNat_zero], ?_⟩
  rw [(hm m le_rfl).2, Finset.sum_congr rfl fun c _ => hInv.exact c]

section Bounds

variable (hStrict : opts.strictBudget = true) (hInv : Inv opts system) (hOwners : Ownership.Inv opts system)
  (hCount : ∀ entry, count entry ≤ top entry)
include hStrict hInv hOwners hCount

theorem owed_bound (hm : ∀ c, m ≤ c → inFlight opts system c = 0) :
    Bound m c count (owed opts system) (Threads.weigh lag system.pending) (Threads.weigh trail system.pending) := by
  unfold inFlight owed queued at hm
  simp only [Pi.add_apply] at hm
  have hPending := fun c hc => (zero_of_add_zero (hm c hc)).1
  have hQueued := fun c hc => (zero_of_add_zero (zero_of_add_zero (hm c hc)).2).1
  exact (weigh_bound hCount _ (fun op hOp => debt_covered hStrict (hOwners.sane op hOp) (hInv.sound op hOp))
    hPending).add
    (((sum_bound hCount _ (fun job => jobDebt_covered hInv.queues) fun c hc => (zero_of_add_zero (hQueued c hc)).1).add
      (sum_bound hCount _ (fun job => serializedDebt_covered hInv.queues) fun c hc =>
        (zero_of_add_zero (hQueued c hc)).2)).add (reserved_bound hCount))

/-- What is released and not yet taken from the total is in it, and so is a byte for every request. -/
theorem Inv.total_covers (c : Nat) :
    Threads.weigh trail system.pending ≤ system.shared.totalInflightRequestBytes.toNat ∧
      count (owed opts system c) ≤ system.shared.totalInflightRequestBytes.toNat := by
  obtain ⟨m, hm, hBalanced⟩ := hInv.balanced_owed
  obtain ⟨hBefore, hBound⟩ := owed_bound (c := c) hStrict hInv hOwners hCount hm
  change _ ≤ ∑ c ∈ Finset.range m, inFlight opts system c at hBefore
  change _ ≤ ∑ c ∈ Finset.range m, inFlight opts system c + _ at hBound
  omega

end Bounds

theorem owed_split (hOp : op ∈ system.pending) : ∃ rest, owed opts system = debt opts op + rest := by
  obtain ⟨others, hOthers⟩ := Multiset.exists_cons_of_mem hOp
  refine ⟨Threads.weigh (debt opts) others + queued system.shared, ?_⟩
  rw [owed, hOthers, Threads.weigh_cons, add_assoc]

theorem counter_pos {x : ℕ} {total : UInt64} (hPos : 1 ≤ x) (hTotal : x ≤ total.toNat) : UInt64.ofNat x ≠ 0 := by
  have hLimit := total.toNat_lt
  intro hZero
  have hNat := congrArg UInt64.toNat hZero
  rw [UInt64.toNat_ofNat_of_lt' (by change _ < 2 ^ 64; omega), UInt64.toNat_zero] at hNat
  omega

theorem Inv.not_underflows (hStrict : opts.strictBudget = true) (hInv : Inv opts system)
    (hOwners : Ownership.Inv opts system) (hOp : op ∈ system.pending) : ¬ underflows system.shared op := by
  obtain ⟨rest, hOwed⟩ := @owed_split opts op system hOp
  have hBytes : ∀ k n, (debt opts op k).2.2.2 = n.toNat →
      ¬ (system.shared.connections k).inflightRequestBytes < n := by
    intro k n hDebt
    rw [UInt64.lt_iff_toNat_lt, hInv.exact, inFlight, hOwed, Pi.add_apply, Prod.snd_add, Prod.snd_add, Prod.snd_add,
      hDebt]
    omega
  have hCount : ∀ k (count : Entry →+ ℕ), (∀ entry, count entry ≤ top entry) → 1 ≤ count (debt opts op k) →
      UInt64.ofNat (count (owed opts system k)) ≠ 0 := by
    intro k count hTop hPos
    refine counter_pos ?_ (hInv.total_covers hStrict hOwners hTop k).2
    rw [hOwed, Pi.add_apply, map_add]
    omega
  have hCounters := fun k => congrFun hInv.accounting.counters k
  cases op with
  | releaseConnectionRequest k n => exact hBytes k n (by simp [debt, requests, bytes])
  | releaseConnectionRequestBytes k n | unreserveConnection k r n => exact hBytes k n (by simp [debt, bytes])
  | subRequests k n =>
    have hRequests : (system.shared.connections k).inflightRequests = _ := congrArg (·.2.2.1) (hCounters k)
    intro hUnder
    exact hCount k ((AddMonoidHom.fst ℕ ℕ).comp ((AddMonoidHom.snd ℕ (ℕ × ℕ)).comp (AddMonoidHom.snd ℕ (ℕ × ℕ × ℕ))))
      (fun entry => (le_max_right _ _).trans (le_max_right _ _)) (by simp [debt, requests])
      (hRequests.symm.trans hUnder)
  | subTotal k n =>
    intro hUnder
    have hZero : ∀ entry, (0 : Entry →+ ℕ) entry ≤ top entry := fun _ => Nat.zero_le _
    have hOne := (Threads.le_weigh trail hOp).trans (hInv.total_covers hStrict hOwners hZero k).1
    exact absurd (UInt64.lt_iff_toNat_lt.mp hUnder) (not_lt.mpr hOne)
  | completeRegularRequest k n release =>
    have hActive : (system.shared.connections k).activeRegular = _ := congrArg (·.1) (hCounters k)
    intro hUnder
    exact hCount k (AddMonoidHom.fst ℕ (ℕ × ℕ × ℕ)) (fun entry => le_max_left _ _)
      (by cases release <;> simp [debt, active, requests, bytes]) (hActive.symm.trans hUnder)
  | subSerialized k n =>
    have hSerialized : (system.shared.connections k).pendingSerialized = _ := congrArg (·.2.1) (hCounters k)
    intro hUnder
    exact hCount k ((AddMonoidHom.fst ℕ (ℕ × ℕ)).comp (AddMonoidHom.snd ℕ (ℕ × ℕ × ℕ)))
      (fun entry => (le_max_left _ _).trans (le_max_right _ _)) (by simp [debt, serialized, requests, bytes])
      (hSerialized.symm.trans hUnder)
  | _ => exact id

theorem sum_range_next {f g : ℕ → ℕ} (hk : k < m) (h : ∀ c, c ≠ k → g c = f c) :
    ∑ c ∈ Finset.range m, g c + f k = ∑ c ∈ Finset.range m, f c + g k := by
  have hMem : k ∈ Finset.range m := Finset.mem_range.mpr hk
  have hRest : ∑ c ∈ (Finset.range m).erase k, g c = ∑ c ∈ (Finset.range m).erase k, f c :=
    Finset.sum_congr rfl fun c hc => h c (Finset.ne_of_mem_erase hc)
  rw [← Finset.add_sum_erase _ f hMem, ← Finset.add_sum_erase _ g hMem, hRest]
  omega

theorem Transfer.balanced (h : Transfer system.shared later.shared op ops k) (hk : k < m)
    (hBefore : system.pending = op ::ₘ others) (hAfter : later.pending = ↑ops + others)
    (hBalanced : Balanced system m) : Balanced later m := by
  have hSum := sum_range_next hk fun c hc => congrArg UInt64.toNat (h.others c hc)
  have hMoved := h.moved
  unfold Balanced at hBalanced ⊢
  rw [hBefore, Threads.weigh_cons, Threads.weigh_cons] at hBalanced
  rw [hAfter, Threads.weigh_add, Threads.weigh_add]
  omega

theorem Inv.balanced_next (hStrict : opts.strictBudget = true) (hInv : Inv opts system)
    (hOwners : Ownership.Inv opts system) (hTurn : Turn opts system op choice ops others later) :
    ∃ N, ∀ m, N ≤ m → (later.shared.connections m).inflightRequestBytes = 0 ∧ Balanced later m := by
  have hOp := hTurn.mem
  obtain ⟨k, hTransfer⟩ :=
    exec_transfer hTurn.exec hStrict (hOwners.sane op hOp) (hInv.not_underflows hStrict hOwners hOp) hInv.within
  obtain ⟨N, hN⟩ := hInv.balanced
  refine ⟨max N (k + 1), fun m hm => ?_⟩
  obtain ⟨hZero, hBalanced⟩ := hN m (le_trans (le_max_left _ _) hm)
  have hk : k < m := le_trans (le_max_right N (k + 1)) hm
  exact ⟨(hTransfer.others m hk.ne').trans hZero, hTransfer.balanced hk hTurn.before hTurn.after hBalanced⟩

theorem Inv.share_next (hStrict : opts.strictBudget = true) (hInv : Inv opts system) {gained spent : Debts}
    (hFlow : Flow opts system.shared later.shared op ops gained spent)
    (hBefore : system.pending = op ::ₘ others) (hAfter : later.pending = ↑ops + others) (c : Nat) :
    inFlight opts later c ≤ opts.maxInflightRequestBytesPerConnection.toNat := by
  have hOwed : inFlight opts later c + (spent c).2.2.2 = inFlight opts system c + (gained c).2.2.2 :=
    congrArg (·.2.2.2) (congrFun (owed_next hFlow hBefore hAfter) c)
  have hShare := hInv.share c
  by_cases hGained : (gained c).2.2.2 = 0
  · omega
  · obtain ⟨r, n, -, hFits, hBytes⟩ := hFlow.grows hStrict c hGained
    rw [show min (system.shared.connections c).inflightRequestBytes _ = _ from if_pos (hInv.within c)] at hFits
    have hWithin := (reserved_within (hInv.within c) hFits).1
    rw [hInv.exact] at hWithin
    omega

theorem fits_next (hStrict : opts.strictBudget = true) (hSane : Sane opts s op) (hUnder : ¬ underflows s op)
    (h : exec opts s op choice = some (t, ops)) (hFits : s.totalInflightRequestBytes ≤ opts.maxTotalInflightBytes) :
    t.totalInflightRequestBytes ≤ opts.maxTotalInflightBytes := by
  cases hMoves : moves op with
  | false => rw [(bytes_kept (c := 0) h hStrict hSane hMoves).2]; exact hFits
  | true =>
    by_cases hField : .total ∈ writes op
    · cases op with
      | subTotal k n =>
        cases h
        have hNat := released_toNat hUnder
        rw [UInt64.le_iff_toNat_le] at hFits ⊢
        change (s.totalInflightRequestBytes - n).toNat ≤ _
        omega
      | reserveTotal k r n =>
        simp only [exec, reserveTotal] at h
        split at h
        · rename_i hRoom
          cases h
          obtain ⟨hWithin, hNat⟩ := reserved_within hRoom.1 hRoom.2
          rw [UInt64.le_iff_toNat_le]
          exact hNat.trans_le hWithin
        · cases h
          exact hFits
      | _ => first | cases hMoves; done | simp [writes] at hField
    · rw [(exec_keeps h).total hField]
      exact hFits

theorem Inv.next (hStrict : opts.strictBudget = true) (hInv : Inv opts system) (hOwners : Ownership.Inv opts system)
    (hUndisturbed : Undisturbed system op) (hTurn : Turn opts system op choice ops others later) : Inv opts later := by
  have hOp := hTurn.mem
  have hSane := hOwners.sane op hOp
  have hParsing := hInv.accounting.reservation.parsing op hOp
  have hThrew : ∀ c n, op ≠ .threw c (.continuation n) := by
    rintro c n rfl
    cases (hSane.of_leased rfl).symm.trans hStrict
  obtain ⟨gained, spent, hFlow⟩ := exec_flow hTurn.exec ⟨hParsing, hSane, hThrew⟩
  refine
    { accounting := hInv.accounting.next hOwners hUndisturbed hThrew hTurn
      declared := fun c => declared_next hTurn.exec (hInv.declared c)
      sound := fun o ho => ?_
      queues := soundQueues_next hTurn.exec hInv.queues (hInv.sound op hOp)
      share := hInv.share_next hStrict hFlow hTurn.before hTurn.after
      fits := fits_next hStrict hSane (hInv.not_underflows hStrict hOwners hOp) hTurn.exec hInv.fits
      balanced := hInv.balanced_next hStrict hOwners hTurn }
  obtain hNew | hOld := hTurn.mem_later ho
  · exact sound_next hTurn.exec hStrict hSane hParsing hInv.declared hInv.queues (hInv.sound op hOp) o hNew
  · exact hInv.sound o (hTurn.mem_other hOld)

end Invariant

theorem Inv.start (h : Initial system) : Inv opts system := by
  have hPending : ∀ op ∈ system.pending, Sound op ∧ lag op = 0 ∧ trail op = 0 ∧ ∀ c, serves c op = false := by
    intro op hOp
    obtain rfl | rfl | rfl | rfl := initial_pending h hOp <;> exact ⟨trivial, rfl, rfl, fun _ => rfl⟩
  have hBytes : ∀ c, (system.shared.connections c).inflightRequestBytes = 0 := fun c => by rw [h.1]
  refine
    { accounting := .start h
      declared := fun c hPhase => by simp [h.1] at hPhase
      sound := fun op hOp => (hPending op hOp).1
      queues := ⟨by simp [h.1], by simp [h.1]⟩
      share := fun c => ?_
      fits := by rw [h.1]; exact UInt64.zero_le
      balanced := ⟨0, fun m _ => ⟨hBytes m, ?_⟩⟩ }
  · rw [inFlight, owed_idle (by simp [h.1]) (by simp [h.1]) fun op hOp => (hPending op hOp).2.2.2 c, h.1]
    exact Nat.zero_le _
  · unfold Balanced
    rw [Threads.weigh_eq_zero lag fun op hOp => (hPending op hOp).2.1,
      Threads.weigh_eq_zero trail fun op hOp => (hPending op hOp).2.2.1,
      Finset.sum_eq_zero fun c _ => by rw [hBytes c, UInt64.toNat_zero], h.1]
    rfl

def strict : Options :=
  { frugal with
    maxInflightRequestBytesPerConnection := 64, maxOutputBytesPerConnection := 84
    bytes_fit := by decide, output_fits := by decide }

def reserveRequest (n : UInt64) : List (Nat × Choice) :=
  performs 0 ([Choice.input (.request n false)] ++ List.replicate 4 Choice.proceed ++
    [Choice.input (.payload none true false)])

end EasyUds.Server.Budget

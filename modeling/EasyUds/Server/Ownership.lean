import EasyUds.Server.Footprint

/-! # Who owns a connection

At any time the parser of a connection and its descriptor belong to one party at most: to the reactor,
from the event until `consume` is left, to the worker that has the continuation lease, or to a stream
job, queued or running. The owner is read off the operation that a thread performs next. The flags
`reactor_busy`, `worker_owned` and `stream_active` are what keeps the others out.
-/

namespace EasyUds.Server.Ownership

open Lib Server.Core Server.Steps Server.Outcomes Server.Footprint

inductive Owner
  | nobody
  | reactor (connection : Nat)
  | worker (connection : Nat)
  | stream (connection : Nat)
  deriving DecidableEq, Repr

def owner : Op → Owner
  | .flushConnectionOutput c _ _ | .consume c _ | .beginPayload c _ | .reserveConnection c _ _ => .reactor c
  | .reserveTotal c _ _ | .unreserveConnection c _ _ | .payloadReserved c _ _ | .parse c _ => .reactor c
  | .dispatchRequest c _ _ _ | .dispatchStream c _ | .streamLease c _ _ | .finishRequest c _ _ => .reactor c
  | .pauseConnectionReadsIfNeeded c _ | .pauseRecheck c _ | .pauseConnectionReads c _ _ => .reactor c
  | .enqueueWorkerJob c _ _ false | .enqueueSerializedJob c _ _ (.dispatch _) => .reactor c
  | .writeFixedResponse c (.consume _) | .threw c (.consume _) => .reactor c
  | .refreshConnectionEvents c (.write (.consume _)) => .reactor c
  | .refreshConnectionEvents c (.pause _ _) | .refreshConnectionEvents c (.flush _ _) => .reactor c
  | .continueConnection c | .addActive c _ _ | .addRequests c _ _ | .addBytes c _ _ | .addTotal c _ _ => .worker c
  | .rearmConnection c .continuation | .rearmRunning c .continuation | .rearmLocked c _ .continuation => .worker c
  | .enqueueWorkerJob c _ _ true | .runStreamExchange c _ _ => .stream c
  | .rearmConnection c .stream | .rearmRunning c .stream | .rearmLocked c _ .stream => .stream c
  | _ => .nobody

def control (op : Op) : Nat :=
  match op with
  | .runReactor | .consumed _ _ | .reactorDone _ _ | .closeConnection _ true | .enqueueWorkerJob _ _ _ _ => 1
  | op =>
    match owner op with
    | .reactor _ => 1
    | _ => 0

def Owner.claims (c : Nat) : Owner → Nat
  | .nobody => 0
  | .reactor k | .worker k | .stream k => if k = c then 1 else 0

def claim (c : Nat) (op : Op) : Nat := (owner op).claims c

/-- The flag that an owner relies on. -/
def Owner.Flagged (s : State) : Owner → Prop
  | .nobody => True
  | .reactor c => (s.connections c).reactorBusy = true
  | .worker c => (s.connections c).workerOwned = true
  | .stream c => (s.connections c).streamActive = true

def streamJobs (c : Nat) (jobs : List PendingJob) : Nat :=
  jobs.countP fun job => job.isStream && job.connection == c

def serving : Op → Bool
  | .serveFixedRequest .. | .enqueueSerializedJob _ _ _ .continuation => true
  | .writeFixedResponse _ (.continuation _) | .refreshConnectionEvents _ (.write (.continuation _)) => true
  | .threw _ (.continuation _) => true
  | _ => false

/-- The operations that are reached under a condition. -/
def conditional : Op → Bool
  | .acquireLease _ | .rearmConnection _ .failed | .rearmRunning _ .failed | .rearmLocked _ _ .failed => true
  | .reserveConnection .. | .reserveTotal .. | .unreserveConnection .. | .pauseConnectionReads .. => true
  | .subRequests .. | .subTotal .. => true
  | op => serving op

variable {system : Threads State Op} {c : Nat} {others : Multiset Op} {job : PendingJob} {o : Op}

theorem conditional_of_serving {op : Op} (h : serving op = true) : conditional op = true := by
  unfold conditional
  split
  all_goals first | rfl | exact h

def leads : Op → Bool
  | .tryAcquireContinuationLease _ | .addTotal .. => true
  | .rearmConnection _ .failed | .rearmRunning _ .failed => true
  | .beginPayload .. | .reserveConnection .. | .reserveTotal .. | .unreserveConnection .. => true
  | .pauseRecheck .. | .releaseConnectionRequest .. | .releaseConnectionRequestBytes .. | .subRequests .. => true
  | op => serving op

variable {opts : Options} {s t : State} {op : Op} {choice : Choice} {ops : List Op}

structure Passing (op : Op) (ops : List Op) : Prop where
  plain : ∀ o ∈ ops, conditional o = false ∨ leads op = true
  control : Threads.weigh control (ops : Multiset Op) ≤ control op
  claims : ∀ c, Threads.weigh (claim c) (ops : Multiset Op) ≤ claim c op
  owners : ∀ o ∈ ops, owner o = .nobody ∨ owner o = owner op

namespace Passing

theorem nil : Passing op [] := ⟨by simp, by simp, by simp, by simp⟩

theorem one (hControl : Ownership.control o ≤ Ownership.control op) (hOwner : owner o = .nobody ∨ owner o = owner op)
    (hPlain : conditional o = false ∨ leads op = true := by first | exact .inl rfl | exact .inr rfl) :
    Passing op [o] := by
  refine ⟨by simpa using hPlain, by simpa using hControl, fun c => ?_, by simpa using hOwner⟩
  obtain hNobody | hSame := hOwner
  · simp [claim, hNobody, Owner.claims]
  · simp [claim, hSame]

theorem cons (hControl : Ownership.control o = 0) (hOwner : owner o = .nobody) (h : Passing op ops)
    (hPlain : conditional o = false ∨ leads op = true := by first | exact .inl rfl | exact .inr rfl) :
    Passing op (o :: ops) := by
  refine ⟨?_, ?_, fun c => ?_, ?_⟩
  · exact List.forall_mem_cons.mpr ⟨hPlain, h.plain⟩
  · simpa [hControl] using h.control
  · simpa [claim, hOwner, Owner.claims] using h.claims c
  · intro x hx
    obtain rfl | hRest := List.mem_cons.mp hx
    · exact .inl hOwner
    · exact h.owners x hRest

theorem cons_held (hControl : Ownership.control o ≤ Ownership.control op)
    (hOwner : owner o = .nobody ∨ owner o = owner op)
    (hFree : ∀ x ∈ ops, Ownership.control x = 0 ∧ owner x = .nobody ∧ (conditional x = false ∨ leads op = true))
    (hPlain : conditional o = false ∨ leads op = true := by first | exact .inl rfl | exact .inr rfl) :
    Passing op (o :: ops) := by
  have hOne := one hControl hOwner hPlain
  have hRest : Threads.weigh Ownership.control (ops : Multiset Op) = 0 :=
    Threads.weigh_eq_zero _ fun x hx => (hFree x hx).1
  refine ⟨?_, ?_, fun c => ?_, ?_⟩
  · exact List.forall_mem_cons.mpr ⟨hPlain, fun x hx => (hFree x hx).2.2⟩
  · simpa [hRest] using hControl
  · have hClaims : Threads.weigh (claim c) (ops : Multiset Op) = 0 :=
      Threads.weigh_eq_zero _ fun x hx => by rw [claim, (hFree x hx).2.1]; rfl
    simpa [hClaims] using hOne.claims c
  · intro x hx
    obtain rfl | hLater := List.mem_cons.mp hx
    · exact hOwner
    · exact .inl (hFree x hLater).2.1

theorem free_append {front : List Op}
    (hFree : ∀ x ∈ front, Ownership.control x = 0 ∧ owner x = .nobody ∧ conditional x = false)
    (h : Passing op ops) : Passing op (front ++ ops) := by
  induction front with
  | nil => exact h
  | cons x rest ih =>
    have hx := hFree x List.mem_cons_self
    exact cons hx.1 hx.2.1 (ih fun y hy => hFree y (List.mem_cons_of_mem _ hy)) (.inl hx.2.2)

end Passing

theorem giveBack_free {n : UInt64} :
    ∀ x ∈ giveBack opts c n, control x = 0 ∧ owner x = .nobody ∧ conditional x = false := by
  unfold giveBack
  split
  · exact List.forall_mem_singleton.mpr ⟨rfl, rfl, rfl⟩
  · exact nofun

theorem finishSuperseded_free {jobs : List SerializedJob} :
    ∀ x ∈ jobs.flatMap finishSuperseded, control x = 0 ∧ owner x = .nobody ∧ conditional x = false := by
  intro x hx
  obtain ⟨job, -, hJob⟩ := List.mem_flatMap.mp hx
  simp only [finishSuperseded, List.mem_cons, List.not_mem_nil, or_false] at hJob
  obtain rfl | rfl := hJob
  · exact ⟨rfl, rfl, rfl⟩
  · exact ⟨rfl, rfl, rfl⟩

theorem afterPause_passes {r : Nat} {finish : Bool} (hControl : control op = 1) (hOwner : owner op = .reactor c) :
    Passing op (afterPause c r finish) := by
  cases finish with
  | true => exact .one (by rw [hControl]; rfl) (.inr hOwner.symm)
  | false => exact .one (by rw [hControl]; rfl) (.inl rfl)

theorem afterFlush_passes {r : Nat} {readAllowed : Bool} (hControl : control op = 1) (hOwner : owner op = .reactor c) :
    Passing op (afterFlush c r readAllowed) := by
  cases readAllowed with
  | true => exact .one (by rw [hControl]; rfl) (.inr hOwner.symm)
  | false => exact .one (by rw [hControl]; rfl) (.inl rfl)

theorem afterWrite_passes {site : WriteSite} (hControl : control op = control (.writeFixedResponse c site))
    (hOwner : owner op = owner (.writeFixedResponse c site)) : Passing op (afterWrite c site) := by
  cases site with
  | guarded => exact .nil
  | consume r => exact .one (by rw [hControl]; rfl) (.inr hOwner.symm)
  | continuation n => exact .one (by rw [hControl]; rfl) (.inl rfl)

theorem threw_passes {site : WriteSite} (hControl : control op = control (.writeFixedResponse c site))
    (hOwner : owner op = owner (.writeFixedResponse c site))
    (hLeads : leads op = serving (.writeFixedResponse c site)) : Passing op [.threw c site] := by
  refine .one ?_ (.inr ?_) ?_
  · rw [hControl]
    cases site <;> exact le_rfl
  · rw [hOwner]
    cases site <;> rfl
  · rw [hLeads]
    cases site with
    | continuation n => exact .inr rfl
    | _ => exact .inl rfl

theorem afterRefresh_passes {site : RefreshSite} {refreshed : Bool} :
    Passing (.refreshConnectionEvents c site) (afterRefresh s c refreshed site).2 := by
  cases site with
  | resume => exact .nil
  | pause r finish => exact afterPause_passes rfl rfl
  | write site =>
    cases refreshed with
    | true => exact afterWrite_passes (by cases site <;> rfl) (by cases site <;> rfl)
    | false => exact threw_passes (by cases site <;> rfl) (by cases site <;> rfl) (by cases site <;> rfl)
  | flush r readAllowed =>
    unfold afterRefresh
    dsimp only
    split
    · exact afterFlush_passes rfl rfl
    · exact .one le_rfl (.inl rfl)

def acquires : Op → Bool
  | .runReactor | .acquireLease _ | .streamLease _ _ _ | .workerLoop => true
  | _ => false

theorem exec_passes (h : exec opts s op choice = some (t, ops)) (hPlain : acquires op = false) :
    Passing op ops := by
  cases exec_outcome h with
  | resumePausedConnections =>
    rw [← List.append_nil (List.map _ _)]
    refine .free_append ?_ .nil
    intro x hx
    obtain ⟨k, -, rfl⟩ := List.mem_map.mp hx
    exact ⟨rfl, rfl, rfl⟩
  | refreshConnectionEvents modified => exact afterRefresh_passes
  | writeLate | writeFailed => exact threw_passes rfl rfl rfl
  | writeOverflow => exact .cons rfl rfl (.cons rfl rfl (threw_passes rfl rfl rfl))
  | @writeQueued c site =>
    refine .one (by cases site <;> exact le_rfl) (.inr (by cases site <;> rfl)) ?_
    cases site with
    | continuation n => exact .inr rfl
    | _ => exact .inl rfl
  | @closeConnection c reactor =>
    unfold closeConnection
    refine .free_append ?_ ?_
    · split <;> simp [control, owner, conditional, serving]
    · cases reactor with
      | true => exact .one le_rfl (.inl rfl)
      | false => exact .nil
  | jobFailed => exact .free_append giveBack_free (.one le_rfl (.inr rfl))
  | @jobRefused c r n isStream =>
    refine .free_append giveBack_free (.cons rfl rfl ?_)
    cases isStream with
    | true => exact .one le_rfl (.inl rfl)
    | false => exact .one le_rfl (.inr rfl)
  | parse hParsed => cases hParsed <;> first | exact .one le_rfl (.inr rfl) | exact .one le_rfl (.inl rfl)
  | completeRegularRequest => exact .cons rfl rfl (.one le_rfl (.inl rfl))
  | addTotal => exact .cons_held le_rfl (.inr rfl) (by simp [control, owner, leads])
  | @rearmClosing c site | @rearmRefused c _ site => exact .one (by cases site <;> exact le_rfl) (.inl rfl)
  | @rearmConnection c site | @rearmRunning c site =>
    refine .one (by cases site <;> exact le_rfl) (.inr (by cases site <;> rfl)) ?_
    cases site with
    | failed => exact .inr rfl
    | _ => exact .inl rfl
  | serveFixedRequest => exact .cons rfl rfl (.one le_rfl (.inl rfl))
  | exchangeReserved => exact .cons_held le_rfl (.inr rfl) (by simp [control, owner, conditional, serving])
  | @allocationFailed c n route site | @serializedBusy c n route site =>
    cases site with
    | dispatch r => exact .free_append giveBack_free (.one le_rfl (.inr rfl))
    | continuation => first | exact .one le_rfl (.inl rfl) | exact .cons rfl rfl (.one le_rfl (.inl rfl))
  | @serializedStopping c n route site =>
    cases site with
    | dispatch r => exact .free_append giveBack_free (.cons rfl rfl (.one le_rfl (.inr rfl)))
    | continuation => exact .cons rfl rfl (.one le_rfl (.inl rfl))
  | @admitted c n route site latestWins =>
    refine .free_append finishSuperseded_free ?_
    cases site with
    | dispatch r => exact .one le_rfl (.inr rfl)
    | continuation => exact .one le_rfl (.inl rfl)
  | serializedWorkerLoop => exact .cons rfl rfl (.cons rfl rfl (.one le_rfl (.inl rfl)))
  -- The others go on with one operation at most, or create an owner.
  | _ => first | cases hPlain; done | exact .nil | exact .one le_rfl (.inr rfl) | exact .one le_rfl (.inl rfl)

theorem update_reactorBusy {k : Nat} {f : Connection → Connection} (h : (s.connections c).reactorBusy = true)
    (hf : ∀ k, k.reactorBusy = true → (f k).reactorBusy = true) :
    ((s.update k f).connections c).reactorBusy = true := by
  rw [State.update_apply]
  split
  · exact hf _ h
  · exact h

/-- A flag is lowered by the end of a visit and by `rearm_connection` only. -/
theorem exec_flagged {party : Owner} (h : exec opts s op choice = some (t, ops)) (hFlag : party.Flagged s) :
    party.Flagged t ∨ (∃ c r, op = .reactorDone c r ∧ party = .reactor c) ∨
      ∃ c mayReuse site, op = .rearmLocked c mayReuse site ∧ party.claims c = 1 := by
  cases party with
  | nobody => exact .inl trivial
  | reactor c =>
    by_cases hField : .reactorBusy ∈ writes op
    · cases op with
      | runReactor =>
        refine .inl ?_
        obtain ⟨rest, rfl, -⟩ | ⟨k, rest, -, -, rfl⟩ | ⟨k, added, hAccept⟩ := runReactor_cases h
        · exact hFlag
        · exact update_reactorBusy hFlag fun _ _ => rfl
        · obtain ⟨-, -, -, rfl⟩ := acceptConnection_cases hAccept
          exact update_reactorBusy hFlag fun _ hBusy => hBusy
      | reactorDone k r =>
        by_cases hk : c = k
        · exact .inr (.inl ⟨k, r, rfl, hk ▸ rfl⟩)
        · refine .inl ?_
          obtain ⟨rfl, -⟩ := outcome_eq h
          unfold reactorDone
          change ((ite _ _ _ : State).connections c).reactorBusy = true
          split
          · rw [State.update_other s _ hk]
            exact hFlag
          · exact hFlag
      | rearmLocked k mayReuse site =>
        by_cases hk : c = k
        · exact .inr (.inr ⟨k, mayReuse, site, rfl, if_pos hk⟩)
        · exact .inl ((congrArg Connection.reactorBusy (rearmLocked_other h hk)).trans hFlag)
      | _ => simp [writes] at hField
    · exact .inl (((exec_keeps h).reactorBusy c hField).trans hFlag)
  | worker c =>
    by_cases hField : .workerOwned ∈ writes op
    · cases op with
      | acquireLease k =>
        refine .inl ?_
        obtain ⟨-, rfl, -⟩ | ⟨rfl | rfl, -⟩ := acquireLease_cases h
        · change ((s.update k _).connections c).workerOwned = true
          rw [State.update_apply]
          split
          · rfl
          · exact hFlag
        · exact hFlag
        · exact ((@Keeps.setClosing s [.closing] k (by decide)).workerOwned c (by decide)).trans hFlag
      | rearmLocked k mayReuse site =>
        by_cases hk : c = k
        · exact .inr (.inr ⟨k, mayReuse, site, rfl, if_pos hk⟩)
        · exact .inl ((congrArg Connection.workerOwned (rearmLocked_other h hk)).trans hFlag)
      | _ => simp [writes] at hField
    · exact .inl (((exec_keeps h).workerOwned c hField).trans hFlag)
  | stream c =>
    by_cases hField : .streamActive ∈ writes op
    · cases op with
      | streamLease k r n =>
        refine .inl ?_
        cases h
        change ((s.update k _).connections c).streamActive = true
        rw [State.update_apply]
        split
        · rfl
        · exact hFlag
      | rearmLocked k mayReuse site =>
        by_cases hk : c = k
        · exact .inr (.inr ⟨k, mayReuse, site, rfl, if_pos hk⟩)
        · exact .inl ((congrArg Connection.streamActive (rearmLocked_other h hk)).trans hFlag)
      | _ => simp [writes] at hField
    · exact .inl (((exec_keeps h).streamActive c hField).trans hFlag)

def leased (op : Op) : Bool :=
  match owner op with
  | .worker _ => true
  | _ => serving op

/-- Besides the flag of its owner: a lease is granted without an aggregate budget only, and the exception
handler of `continue_connection` finds the connection closing. -/
def Sane (opts : Options) (s : State) : Op → Prop
  | .acquireLease _ => opts.strictBudget = false
  | .rearmConnection c .failed => (s.connections c).closing = true
  | .rearmRunning _ .failed | .rearmLocked _ _ .failed => False
  | op => leased op = true → opts.strictBudget = false

structure Inv (opts : Options) (system : Threads State Op) : Prop where
  control : Threads.weigh control system.pending ≤ 1
  single : ∀ c, Threads.weigh (claim c) system.pending + streamJobs c system.shared.pendingJobs ≤ 1
  flags : ∀ op ∈ system.pending, (owner op).Flagged system.shared
  jobs : ∀ job ∈ system.shared.pendingJobs, job.isStream = true →
    (system.shared.connections job.connection).streamActive = true
  sane : ∀ op ∈ system.pending, Sane opts system.shared op

theorem Sane.of_leased (h : Sane opts s op) (hLeased : leased op = true) : opts.strictBudget = false := by
  unfold Sane at h
  split at h
  · exact h
  · cases hLeased
  · exact h.elim
  · exact h.elim
  · exact h hLeased

theorem leased_of_worker (h : owner op = .worker c) : leased op = true := by
  rw [leased, h]

theorem Sane.of_worker (h : Sane opts s op) (hWorker : owner op = .worker c) :
    opts.strictBudget = false :=
  h.of_leased (leased_of_worker hWorker)

theorem sane_of_leased (hPlain : conditional op = false ∨ serving op = true)
    (hLeased : leased op = true → opts.strictBudget = false) : Sane opts s op := by
  unfold Sane
  split
  · exact absurd hPlain (by simp [conditional, serving])
  · exact absurd hPlain (by simp [conditional, serving])
  · exact absurd hPlain (by simp [conditional, serving])
  · exact absurd hPlain (by simp [conditional, serving])
  · exact hLeased

theorem Sane.later (h : Sane opts s op) (hClosing : ∀ c, (s.connections c).closing = true →
    (t.connections c).closing = true) : Sane opts t op := by
  unfold Sane at h ⊢
  split at h
  · exact h
  · exact hClosing _ h
  · exact h.elim
  · exact h.elim
  · exact h

theorem enqueueWorkerJob_jobs {r : Nat} {n : UInt64} {isStream : Bool}
    (h : exec opts s (.enqueueWorkerJob c r n isStream) choice = some (t, ops)) :
    t.pendingJobs = s.pendingJobs ∨
      t.pendingJobs = s.pendingJobs ++ [⟨c, n, isStream, isStream && opts.strictBudget⟩] ∧
        (isStream = true → ops = [.consumed c r]) := by
  cases exec_outcome h with
  | jobRefused | jobFailed => exact .inl rfl
  | queueStream => exact .inr ⟨rfl, fun _ => rfl⟩
  | queueRequest =>
    exact .inr ⟨(@accountConnectionRequest_keeps opts _ [.account, .total] c n (by decide) (by decide)).jobs
      (by decide), nofun⟩

theorem claims_pos {party : Owner} :
    party.claims c ≠ 0 ↔ party = .reactor c ∨ party = .worker c ∨ party = .stream c := by
  cases party <;> simp [Owner.claims]

theorem control_of_reactor (h : owner op = .reactor c) : control op = 1 := by
  unfold control
  split
  all_goals first | rfl | simp [h]

theorem Inv.claim_others (hInv : Inv opts system) (hBefore : system.pending = op ::ₘ others) (hClaim : claim c op = 1) :
    Threads.weigh (claim c) others = 0 ∧ streamJobs c system.shared.pendingJobs = 0 := by
  have hSingle := hInv.single c
  rw [hBefore, Threads.weigh_cons, hClaim] at hSingle
  omega

theorem claim_le_one (c : Nat) (op : Op) : claim c op ≤ 1 := by
  unfold claim Owner.claims
  split
  · exact Nat.zero_le 1
  all_goals
    split <;> decide

theorem claim_eq_one (h : claim c op ≠ 0) : claim c op = 1 := by
  have hLe := claim_le_one c op
  omega

theorem Inv.job_unclaimed (hInv : Inv opts system) (hOp : op ∈ system.pending)
    (hJob : job ∈ system.shared.pendingJobs) (hStream : job.isStream = true) :
    claim job.connection op = 0 := by
  obtain ⟨others, hBefore⟩ := Multiset.exists_cons_of_mem hOp
  by_contra hClaim
  have hNone := (hInv.claim_others hBefore (claim_eq_one hClaim)).2
  rw [streamJobs, List.countP_eq_zero] at hNone
  exact absurd (by simp [hStream]) (hNone job hJob)

section Claims

variable (hInv : Inv opts system) (hBefore : system.pending = op ::ₘ others)
include hInv hBefore

theorem Inv.claim_unique (ho : o ∈ others) (hClaim : claim c o = 1) : claim c op = 0 := by
  by_contra hOther
  have hNone := (hInv.claim_others hBefore (claim_eq_one hOther)).1
  have hLe := Threads.le_weigh (claim c) ho
  omega

theorem Inv.control_others (hControl : Ownership.control op = 1) : ∀ o ∈ others, Ownership.control o = 0 := by
  have hOne := hInv.control
  rw [hBefore, Threads.weigh_cons, hControl] at hOne
  intro o ho
  have hLe := Threads.le_weigh Ownership.control ho
  omega

theorem Inv.unclaimed (hReactor : ∀ o ∈ others, owner o ≠ .reactor c)
    (hOwned : (system.shared.connections c).workerOwned = false)
    (hStream : (system.shared.connections c).streamActive = false) :
    Threads.weigh (claim c) others = 0 ∧ streamJobs c system.shared.pendingJobs = 0 := by
  constructor
  · refine Threads.weigh_eq_zero _ fun o ho => ?_
    by_contra hClaim
    have hFlag := hInv.flags o (hBefore ▸ Multiset.mem_cons_of_mem ho)
    obtain hOwner | hOwner | hOwner := claims_pos.mp hClaim
    · exact hReactor o ho hOwner
    · rw [hOwner] at hFlag
      cases hFlag.symm.trans hOwned
    · rw [hOwner] at hFlag
      cases hFlag.symm.trans hStream
  · rw [streamJobs, List.countP_eq_zero]
    intro job hJob
    rw [Bool.and_eq_true, beq_iff_eq]
    rintro ⟨hIs, rfl⟩
    cases (hInv.jobs job hJob hIs).symm.trans hStream

end Claims

section Step

variable {later : Threads State Op}

theorem claims_rearmLocked {mayReuse : Bool} {site : RearmSite} (h : Sane opts s (.rearmLocked c mayReuse site)) :
    claim c (.rearmLocked c mayReuse site) = 1 := by
  cases site with
  | continuation | stream => exact if_pos rfl
  | failed => exact h.elim

section Flags

variable (hInv : Inv opts system) (hBefore : system.pending = op ::ₘ others)
  (hExec : exec opts system.shared op choice = some (t, ops))
include hInv hBefore hExec

theorem Inv.flagged_others (ho : o ∈ others) : (owner o).Flagged t := by
  have hFlag := hInv.flags o (hBefore ▸ Multiset.mem_cons_of_mem ho)
  obtain hKept | ⟨c, r, rfl, hParty⟩ | ⟨c, mayReuse, site, rfl, hClaims⟩ := exec_flagged hExec hFlag
  · exact hKept
  · -- the reactor is not inside a visit and at the end of one at once
    have hZero := hInv.control_others hBefore rfl o ho
    rw [control_of_reactor hParty] at hZero
    cases hZero
  · have hUnique := hInv.claim_unique hBefore ho hClaims
    rw [claims_rearmLocked (hInv.sane _ (hBefore ▸ Multiset.mem_cons_self _ _))] at hUnique
    cases hUnique

theorem Inv.flagged_jobs (hJob : job ∈ system.shared.pendingJobs) (hStream : job.isStream = true) :
    (t.connections job.connection).streamActive = true := by
  have hFlag : (Owner.stream job.connection).Flagged system.shared := hInv.jobs job hJob hStream
  have hOp : op ∈ system.pending := hBefore ▸ Multiset.mem_cons_self _ _
  obtain hKept | ⟨c, r, -, hParty⟩ | ⟨c, mayReuse, site, rfl, hClaims⟩ := exec_flagged hExec hFlag
  · exact hKept
  · cases hParty
  · have hc : job.connection = c := by
      by_contra hOther
      simp [Owner.claims, hOther] at hClaims
    have hUnclaimed := hInv.job_unclaimed hOp hJob hStream
    rw [hc, claims_rearmLocked (hInv.sane _ hOp)] at hUnclaimed
    cases hUnclaimed

theorem Inv.flagged_passed (hPlain : acquires op = false) (ho : o ∈ ops) : (owner o).Flagged t := by
  obtain hNobody | hSame := (exec_passes hExec hPlain).owners o ho
  · rw [hNobody]
    trivial
  · have hFlag := hInv.flags op (hBefore ▸ Multiset.mem_cons_self _ _)
    obtain hKept | ⟨c, r, rfl, hParty⟩ | ⟨c, mayReuse, site, rfl, -⟩ := exec_flagged hExec hFlag
    · rw [hSame]
      exact hKept
    · cases hParty
    · obtain ⟨more, -, rfl⟩ | ⟨-, rfl⟩ := rearmLocked_cases hExec
      · cases ho
      · rw [List.mem_singleton.mp ho]
        trivial

end Flags

theorem visits_passes (h : visits s c ops) :
    Threads.weigh control (ops : Multiset Op) ≤ 1 ∧ Threads.weigh (claim c) (ops : Multiset Op) ≤ 1 ∧
      ∀ o ∈ ops, owner o = .nobody ∨ owner o = .reactor c := by
  obtain rfl | ⟨readAllowed, -, rfl | rfl⟩ := h
  · simp [control, claim, owner, Owner.claims]
  · simp [control, claim, owner, Owner.claims]
  · cases readAllowed with
    | true | false => simp [afterFlush, control, claim, owner, Owner.claims]

theorem loops_passes (h : loops ops) :
    Threads.weigh control (ops : Multiset Op) ≤ 1 ∧ ∀ o ∈ ops, owner o = .nobody := by
  obtain rfl | rfl | ⟨c, rfl⟩ := h
  · simp
  · simp [control, owner]
  · simp [control, owner]

theorem startJob_owner (job : PendingJob) :
    Threads.weigh control (startJob job : Multiset Op) = 0 ∧
      (∀ c, Threads.weigh (claim c) (startJob job : Multiset Op) = streamJobs c [job]) ∧
      ∀ o ∈ startJob job, owner o = .nobody ∨ job.isStream = true ∧ owner o = .stream job.connection := by
  cases hStream : job.isStream with
  | true => simp [startJob, hStream, control, claim, owner, Owner.claims, streamJobs, List.countP_cons]
  | false => simp [startJob, hStream, control, claim, owner, Owner.claims, streamJobs]

theorem weigh_of_nobody (h : ∀ o ∈ ops, owner o = .nobody) :
    Threads.weigh (claim c) (ops : Multiset Op) = 0 :=
  Threads.weigh_eq_zero _ fun o ho => by rw [claim, h o ho]; rfl

theorem exec_control (h : exec opts s op choice = some (t, ops)) :
    Threads.weigh control (ops : Multiset Op) ≤ control op := by
  cases hPlain : acquires op with
  | false => exact (exec_passes h hPlain).control
  | true =>
    cases exec_outcome h with
    | reactorLoops rest hLoops => exact (loops_passes hLoops).1
    | reactorVisits c rest hVisit hVisits => exact (visits_passes hVisits).1
    | accept c added hAccept =>
      obtain ⟨-, -, rfl, -⟩ := acceptConnection_cases hAccept
      exact le_rfl
    | _ => first | cases hPlain; done | exact le_rfl

section

variable (opts : Options) (s : State)

/-- How a conditional operation is reached. -/
inductive Leads : Op → Op → Prop
  | serve {op o : Op} :
      serving op = true ∨ (∃ c n session, op = .addTotal c n session) → serving o = true → Leads op o
  | lease (c : Nat) : opts.strictBudget = false → Leads (.tryAcquireContinuationLease c) (.acquireLease c)
  | failed (c : Nat) (n : UInt64) : Leads (.threw c (.continuation n)) (.rearmConnection c .failed)
  | rearm (c : Nat) : (s.connections c).closing = false → Leads (.rearmConnection c .failed) (.rearmRunning c .failed)
  | rearmLocked (c : Nat) (mayReuse : Bool) : Leads (.rearmRunning c .failed) (.rearmLocked c mayReuse .failed)
  | reserve (c r : Nat) : opts.strictBudget = true →
        Leads (.beginPayload c r) (.reserveConnection c r (budget (s.connections c)))
  | reserved (c r : Nat) (n : UInt64) : Leads (.reserveConnection c r n) (.reserveTotal c r n)
  | connectionFull (c r : Nat) (n : UInt64) : ¬ n ≤ opts.maxInflightRequestBytesPerConnection -
          min (s.connections c).inflightRequestBytes opts.maxInflightRequestBytesPerConnection →
        Leads (.reserveConnection c r n) (.pauseConnectionReads c r false)
  | totalFull (c r : Nat) (n : UInt64) : ¬ (s.totalInflightRequestBytes ≤ opts.maxTotalInflightBytes ∧
          n ≤ opts.maxTotalInflightBytes - s.totalInflightRequestBytes) →
        Leads (.reserveTotal c r n) (.unreserveConnection c r n)
  | unreserved (c r : Nat) (n : UInt64) : Leads (.unreserveConnection c r n) (.pauseConnectionReads c r false)
  | busy (c r : Nat) :
      abovePauseWatermark opts s c = true → Leads (.pauseRecheck c r) (.pauseConnectionReads c r true)
  | released (c : Nat) (n : UInt64) : Leads (.releaseConnectionRequest c n) (.subRequests c n)
  | releasedBytes (c : Nat) (n : UInt64) : Leads (.releaseConnectionRequestBytes c n) (.subTotal c n)
  | counted (c : Nat) (n : UInt64) : Leads (.subRequests c n) (.subTotal c n)

end

theorem acquired (h : exec opts s op choice = some (t, ops)) (hAcquires : acquires op = true) (ho : o ∈ ops) :
    conditional o = false ∧ ∀ c, owner o = .worker c → ∃ k, op = .acquireLease k := by
  cases exec_next h o ho with
  | continueConnection => exact ⟨rfl, fun _ _ => ⟨_, rfl⟩⟩
  | _ => first | cases hAcquires; done | exact ⟨rfl, nofun⟩

theorem conditional_leads (h : exec opts s op choice = some (t, ops)) (ho : o ∈ ops) (hCond : conditional o = true) :
    Leads opts s op o := by
  cases exec_next h o ho with
  | acquireLease hBudget => exact .lease _ hBudget
  | subRequests => exact .released _ _
  | releasedBytes => exact .releasedBytes _ _
  | subTotal => exact .counted _ _
  | threwContinuation => exact .failed _ _
  | @rearmRunning c site hOpen =>
    cases site with
    | failed => exact .rearm c hOpen
    | _ => cases hCond
  | @rearmLocked c mayReuse site =>
    cases site with
    | failed => exact .rearmLocked c mayReuse
    | _ => cases hCond
  | reserve hStrict => exact .reserve _ _ hStrict
  | reserveTotal => exact .reserved _ _ _
  | connectionFull hFull => exact .connectionFull _ _ _ hFull
  | totalFull hFull => exact .totalFull _ _ _ hFull
  | unreserved => exact .unreserved _ _ _
  | pauseConnectionReads hAbove => exact .busy _ _ hAbove
  | addedServe => exact .serve (.inr ⟨_, _, _, rfl⟩) rfl
  | serveSerialized | busyContinuation => exact .serve (.inl rfl) rfl
  | @threw c site | @queued c site | @refreshFailed c site =>
    cases site with
    | continuation n => exact .serve (.inl rfl) rfl
    | _ => cases hCond
  | _ => cases hCond

/-- Owners other than the one that acts come from an event, from a lease or from the queue. -/
theorem Inv.flagged_next (hInv : Inv opts system) (hBefore : system.pending = op ::ₘ others)
    (hExec : exec opts system.shared op choice = some (t, ops)) (ho : o ∈ ops) :
    (owner o).Flagged t := by
  cases exec_outcome hExec with
  | reactorLoops rest hLoops =>
    rw [(loops_passes hLoops).2 o ho]
    trivial
  | reactorVisits c rest hVisit hVisits =>
    obtain hOwner | hOwner := (visits_passes hVisits).2.2 o ho
    · rw [hOwner]
      trivial
    · rw [hOwner]
      exact congrArg Connection.reactorBusy (State.update_self _ c _)
  | accept c added hAccept =>
    obtain ⟨-, -, rfl, -⟩ := acceptConnection_cases hAccept
    rw [List.mem_singleton.mp ho]
    trivial
  | @acquireLease c =>
    rw [List.mem_singleton.mp ho]
    exact congrArg Connection.workerOwned (State.update_self _ c _)
  | @streamLease c =>
    rw [List.mem_singleton.mp ho]
    exact congrArg Connection.streamActive (State.update_self _ c _)
  | takeStream job rest hJobs hStream =>
    simp only [List.mem_cons, List.not_mem_nil, or_false] at ho
    obtain rfl | rfl := ho
    · exact hInv.jobs job (hJobs ▸ List.mem_cons_self) hStream
    · trivial
  | takeRequest job rest hJobs hRegular =>
    simp only [List.mem_cons, List.not_mem_nil, or_false] at ho
    obtain rfl | rfl | rfl := ho <;> trivial
  | _ => first | exact hInv.flagged_passed hBefore hExec rfl ho | cases ho

theorem Inv.sane_next (hInv : Inv opts system) (hBefore : system.pending = op ::ₘ others)
    (hExec : exec opts system.shared op choice = some (t, ops)) (ho : o ∈ ops) : Sane opts t o := by
  have hSane := hInv.sane _ (hBefore ▸ Multiset.mem_cons_self _ _)
  cases hCond : conditional o with
  | true =>
    cases conditional_leads hExec ho hCond with
    | serve hOp hServing =>
      refine sane_of_leased (.inr hServing) fun _ => ?_
      obtain hServed | ⟨c, n, session, rfl⟩ := hOp
      · refine hSane.of_leased ?_
        unfold leased
        split
        · rfl
        · exact hServed
      · exact hSane.of_worker rfl
    | lease c hStrict => exact hStrict
    | failed c n =>
      cases hExec
      exact congrArg Connection.closing (State.update_self _ c _)
    | rearm c hOpen => cases hOpen.symm.trans hSane
    | rearmLocked c mayReuse => exact hSane.elim
    | _ => exact fun hLeased => by cases hLeased
  | false =>
    refine sane_of_leased (.inl hCond) fun hLeased => ?_
    have hWorker : ∃ c, owner o = .worker c := by
      unfold leased at hLeased
      split at hLeased
      · rename_i c hOwner
        exact ⟨c, hOwner⟩
      · rw [conditional_of_serving hLeased] at hCond
        cases hCond
    obtain ⟨c, hWorker⟩ := hWorker
    cases hPlain : acquires op with
    | false =>
      obtain hNobody | hSame := (exec_passes hExec hPlain).owners o ho
      · rw [hWorker] at hNobody
        cases hNobody
      · exact hSane.of_worker (hSame ▸ hWorker)
    | true =>
      obtain ⟨k, rfl⟩ := (acquired hExec hPlain ho).2 c hWorker
      exact hSane

theorem exec_jobs (h : exec opts s op choice = some (t, ops)) (hJob : job ∈ t.pendingJobs) :
    job ∈ s.pendingJobs ∨
      ∃ c r n isStream, op = .enqueueWorkerJob c r n isStream ∧
        job = ⟨c, n, isStream, isStream && opts.strictBudget⟩ := by
  by_cases hField : .jobs ∈ writes op
  · cases op with
    | enqueueWorkerJob c r n isStream =>
      obtain hSame | ⟨hQueued, -⟩ := enqueueWorkerJob_jobs h
      · exact .inl (hSame ▸ hJob)
      · rw [hQueued, List.mem_append, List.mem_singleton] at hJob
        exact hJob.imp_right fun hNew => ⟨c, r, n, isStream, rfl, hNew⟩
    | workerLoop =>
      obtain ⟨first, rest, hJobs, rfl, -⟩ | ⟨rfl, -⟩ := workerLoop_cases h
      · exact .inl (hJobs ▸ List.mem_cons_of_mem _ hJob)
      · exact .inl hJob
    | _ => simp [writes] at hField
  · exact .inl ((exec_keeps h).jobs hField ▸ hJob)

theorem streamJobs_append (c : Nat) (jobs more : List PendingJob) :
    streamJobs c (jobs ++ more) = streamJobs c jobs + streamJobs c more :=
  List.countP_append

theorem enqueueWorkerJob_claims {k r : Nat} {n : UInt64} {isStream : Bool}
    (h : exec opts s (.enqueueWorkerJob k r n isStream) choice = some (t, ops)) :
    Threads.weigh (claim c) (ops : Multiset Op) + streamJobs c t.pendingJobs ≤
      claim c (.enqueueWorkerJob k r n isStream) + streamJobs c s.pendingJobs := by
  have hPasses := (exec_passes h rfl).claims c
  obtain hSame | ⟨hQueued, hNext⟩ := enqueueWorkerJob_jobs h
  · rw [hSame]
    omega
  · rw [hQueued, streamJobs_append]
    cases isStream with
    | true =>
      -- the claim moves from the operation into the queue
      rw [hNext rfl]
      simp [claim, owner, Owner.claims, streamJobs, List.countP_cons]
      omega
    | false =>
      simp only [streamJobs, List.countP_singleton, Bool.false_and, Bool.false_eq_true, if_false]
      omega

theorem runReactor_claims (h : runReactor opts s choice = some (t, ops)) :
    Threads.weigh (claim c) (ops : Multiset Op) = 0 ∨
      Threads.weigh (claim c) (ops : Multiset Op) ≤ 1 ∧ visitable s c := by
  obtain ⟨rest, -, hLoops⟩ | ⟨k, rest, hVisit, hVisits, -⟩ | ⟨k, added, hAccept⟩ := runReactor_cases h
  · exact .inl (weigh_of_nobody (loops_passes hLoops).2)
  · obtain ⟨-, hOne, hOwners⟩ := visits_passes hVisits
    by_cases hk : k = c
    · exact .inr (hk ▸ ⟨hOne, hVisit⟩)
    · refine .inl (Threads.weigh_eq_zero _ fun o ho => ?_)
      obtain hOwner | hOwner := hOwners o ho
      · rw [claim, hOwner]
        rfl
      · rw [claim, hOwner]
        exact if_neg hk
  · obtain ⟨-, -, rfl, -⟩ := acceptConnection_cases hAccept
    exact .inl rfl

/-- The claims to a connection do not grow, unless the reactor comes to it or a lease is granted. -/
theorem claims_next (h : exec opts s op choice = some (t, ops)) (c : Nat) :
    Threads.weigh (claim c) (ops : Multiset Op) + streamJobs c t.pendingJobs ≤
        claim c op + streamJobs c s.pendingJobs ∨
      (Threads.weigh (claim c) (ops : Multiset Op) ≤ 1 ∧ t.pendingJobs = s.pendingJobs ∧
        (op = .runReactor ∧ visitable s c ∨ op = .acquireLease c ∧ leasable s c)) := by
  by_cases hField : .jobs ∈ writes op
  · refine .inl ?_
    cases op with
    | enqueueWorkerJob k r n isStream => exact enqueueWorkerJob_claims h
    | workerLoop =>
      obtain ⟨job, rest, hJobs, rfl, rfl⟩ | ⟨rfl, rfl⟩ := workerLoop_cases h
      · have hTaken := streamJobs_append c [job] rest
        rw [(startJob_owner job).2.1 c, hJobs]
        rw [List.singleton_append] at hTaken
        dsimp only
        omega
      · rw [Threads.weigh_nil]
        omega
    | _ => simp [writes] at hField
  · have hJobs := (exec_keeps h).jobs hField
    rw [hJobs]
    cases hPlain : acquires op with
    | false => exact .inl (Nat.add_le_add_right ((exec_passes h hPlain).claims c) _)
    | true =>
      cases op with
      | runReactor =>
        obtain hNone | ⟨hOne, hVisit⟩ := runReactor_claims (c := c) h
        · refine .inl ?_
          omega
        · exact .inr ⟨hOne, rfl, .inl ⟨rfl, hVisit⟩⟩
      | acquireLease k =>
        obtain ⟨hLeasable, -, rfl⟩ | ⟨-, rfl⟩ := acquireLease_cases h
        · rw [Multiset.coe_singleton, Threads.weigh_singleton]
          by_cases hk : k = c
          · subst hk
            exact .inr ⟨claim_le_one _ _, rfl, .inr ⟨rfl, hLeasable⟩⟩
          · have hZero : claim c (.continueConnection k) = 0 := if_neg hk
            refine .inl ?_
            omega
        · rw [Threads.weigh_nil]
          refine .inl ?_
          omega
      | streamLease k r n =>
        cases h
        exact .inl le_rfl
      | workerLoop => simp [writes] at hField
      | _ => cases hPlain

theorem Inv.single_next (hInv : Inv opts system) (hBefore : system.pending = op ::ₘ others)
    (hExec : exec opts system.shared op choice = some (t, ops)) (c : Nat) :
    Threads.weigh (claim c) (↑ops + others) + streamJobs c t.pendingJobs ≤ 1 := by
  have hSingle := hInv.single c
  rw [hBefore, Threads.weigh_cons] at hSingle
  rw [Threads.weigh_add]
  obtain hMoved | ⟨hOne, hJobs, hNew⟩ := claims_next hExec c
  · omega
  · have hFree : Threads.weigh (claim c) others = 0 ∧ streamJobs c system.shared.pendingJobs = 0 := by
      obtain ⟨rfl, -, -, hStream, hOwned⟩ | ⟨rfl, -, hBusy, -, -, -, hStream, hOwned, -⟩ := hNew
      · refine hInv.unclaimed hBefore (fun o ho hOwner => ?_) hOwned hStream
        have hZero := hInv.control_others hBefore rfl o ho
        rw [control_of_reactor hOwner] at hZero
        cases hZero
      · refine hInv.unclaimed hBefore (fun o ho hOwner => ?_) hOwned hStream
        have hFlag := hInv.flags o (hBefore ▸ Multiset.mem_cons_of_mem ho)
        rw [hOwner] at hFlag
        cases hFlag.symm.trans hBusy
    rw [hJobs]
    omega

theorem Inv.next (hInv : Inv opts system) (hTurn : Turn opts system op choice ops others later) : Inv opts later where
  control := by
    have hControl := hInv.control
    have hNext := exec_control hTurn.exec
    rw [hTurn.before, Threads.weigh_cons] at hControl
    rw [hTurn.after, Threads.weigh_add]
    omega
  single := fun c => hTurn.after ▸ hInv.single_next hTurn.before hTurn.exec c
  flags := by
    intro o ho
    exact (hTurn.mem_later ho).elim (hInv.flagged_next hTurn.before hTurn.exec)
      (hInv.flagged_others hTurn.before hTurn.exec)
  jobs := by
    intro job hJob hStream
    obtain hOld | ⟨c, r, n, isStream, rfl, rfl⟩ := exec_jobs hTurn.exec hJob
    · exact hInv.flagged_jobs hTurn.before hTurn.exec hOld hStream
    · obtain rfl : isStream = true := hStream
      have hFlag : (Owner.stream c).Flagged system.shared :=
        hInv.flags (.enqueueWorkerJob c r n true) hTurn.mem
      obtain hKept | ⟨_, _, hOp, -⟩ | ⟨_, _, _, hOp, -⟩ := exec_flagged hTurn.exec hFlag
      · exact hKept
      · cases hOp
      · cases hOp
  sane := by
    intro o ho
    refine (hTurn.mem_later ho).elim (hInv.sane_next hTurn.before hTurn.exec) fun hOther => ?_
    have hSane := hInv.sane o (hTurn.mem_other hOther)
    exact hSane.later fun c hClosing => exec_closing hTurn.exec hClosing

end Step

theorem Inv.start (h : Initial system) : Inv opts system := by
  obtain ⟨hShared, others, hIdle, hPrograms⟩ := h
  have hPending : system.pending = .runReactor ::ₘ ↑others := by
    rw [Threads.pending, hPrograms]
    simp [← List.flatMap_def]
  have hFree : ∀ op ∈ others, Ownership.control op = 0 ∧ owner op = .nobody ∧ Sane opts system.shared op := by
    intro op hOp
    have hStart := hIdle op hOp
    cases op with
    | workerLoop | serializedWorkerLoop
    | stopRunning => exact ⟨rfl, rfl, sane_of_leased (.inl rfl) fun hLeased => by cases hLeased⟩
    | _ => cases hStart
  refine ⟨?_, fun c => ?_, ?_, ?_, ?_⟩
  · rw [hPending, Threads.weigh_cons, Threads.weigh_eq_zero _ fun op hOp => (hFree op hOp).1]
    exact le_rfl
  · rw [hPending, Threads.weigh_cons, weigh_of_nobody fun op hOp => (hFree op hOp).2.1, hShared]
    exact Nat.zero_le 1
  · rw [hPending]
    intro op hOp
    obtain rfl | hOther := Multiset.mem_cons.mp hOp
    · trivial
    · rw [(hFree op hOther).2.1]
      trivial
  · rw [hShared]
    intro job hJob
    cases hJob
  · rw [hPending]
    intro op hOp
    obtain rfl | hOther := Multiset.mem_cons.mp hOp
    · exact sane_of_leased (.inl rfl) fun hLeased => by cases hLeased
    · exact (hFree op hOther).2.2

theorem reached_inv {guard : Threads State Op → Nat × Choice → Prop} (h : (machine opts).Reached guard system) :
    Inv opts system :=
  h.invariant (fun _ hInit => .start hInit) fun _ _ _ _ hInv _ hStep => by
    obtain ⟨op, ops, others, -, hTurn⟩ := Threads.step_cases hStep
    exact hInv.next hTurn

end EasyUds.Server.Ownership

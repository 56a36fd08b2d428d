import EasyUds.Server.Steps

/-! # What an operation can do

The operations whose outcome depends on the environment, inverted: the state that follows and the
operations that the thread performs next, with the conditions under which they do. An invariant is
argued from these lists and never unfolds a step.
-/

namespace EasyUds.Server.Outcomes

open Lib Server.Core Server.Steps

section Cases

variable {opts : Options} {s t : State} {choice : Choice} {ops : List Op} {c r : Nat} {n : UInt64}

theorem outcome_eq {result : Result} (h : some result = some (t, ops)) : t = result.1 ∧ ops = result.2 := by
  obtain rfl := Option.some.inj h
  exact ⟨rfl, rfl⟩

theorem refresh_cases (s : State) (c : Nat) (modified : Bool) :
    (¬ refreshable s c ∧ refresh s c modified = (s, false)) ∨
      (refreshable s c ∧ (s.connections c).registeredEvents = interest (s.connections c) ∧
        refresh s c modified = (s, true)) ∨
      (refreshable s c ∧
        refresh s c modified =
          (s.update c fun k => { k with registeredEvents := interest k, watched := some (interest k) }, true)) ∨
      (refreshable s c ∧ refresh s c modified = (s.setClosing c, false)) := by
  unfold refresh
  by_cases hRefreshable : refreshable s c
  · rw [if_pos hRefreshable]
    by_cases hSame : (s.connections c).registeredEvents = interest (s.connections c)
    · rw [if_pos hSame]
      exact .inr (.inl ⟨hRefreshable, hSame, rfl⟩)
    · rw [if_neg hSame]
      cases modified with
      | true => exact .inr (.inr (.inl ⟨hRefreshable, rfl⟩))
      | false => exact .inr (.inr (.inr ⟨hRefreshable, rfl⟩))
  · rw [if_neg hRefreshable]
    exact .inl ⟨hRefreshable, rfl⟩

theorem refreshConnectionEvents_cases {site : RefreshSite}
    (h : refreshConnectionEvents s c site choice = some (t, ops)) :
    ∃ modified, afterRefresh (refresh s c modified).1 c (refresh s c modified).2 site = (t, ops) := by
  unfold refreshConnectionEvents at h
  split at h
  · exact ⟨true, Option.some.inj h⟩
  · exact ⟨false, Option.some.inj h⟩
  · cases h

theorem writeFixedResponse_cases {site : WriteSite}
    (h : writeFixedResponse opts s c site choice = some (t, ops)) :
    (t = s ∧
        (site = .guarded ∧ ops = [.threw c site] ∨
          (s.connections c).queuedOutputBytes = 0 ∧ ops = afterWrite c site ∨
          ops = [.setClosing c, .closeConnection c false, .threw c site])) ∨
      (t = s.setClosing c ∧ ops = [.threw c site]) ∨
      ∃ n : UInt64, n ≠ 0 ∧ n ≤ opts.maxOutputBytesPerConnection ∧
        (s.connections c).queuedOutputBytes ≤ opts.maxOutputBytesPerConnection - n ∧
        t = (s.update c fun k => { k with queuedOutputBytes := k.queuedOutputBytes + n }) ∧
        ops = [.refreshConnectionEvents c (.write site)] := by
  cases choice with
  | refused =>
    unfold writeFixedResponse at h
    dsimp only at h
    split at h
    · rename_i hSite
      cases h
      exact .inl ⟨rfl, .inl ⟨hSite, rfl⟩⟩
    · cases h
  | sent =>
    unfold writeFixedResponse at h
    dsimp only at h
    split at h
    · rename_i hEmpty
      cases h
      exact .inl ⟨rfl, .inr (.inl ⟨hEmpty, rfl⟩)⟩
    · cases h
  | sendFailed =>
    unfold writeFixedResponse at h
    dsimp only at h
    split at h
    · cases h
      exact .inr (.inl ⟨rfl, rfl⟩)
    · cases h
  | queued n =>
    unfold writeFixedResponse at h
    dsimp only at h
    split at h
    · rename_i hFits
      cases h
      exact .inr (.inr ⟨n, hFits.1, hFits.2.1, hFits.2.2, rfl, rfl⟩)
    · cases h
  | overflow =>
    cases h
    exact .inl ⟨rfl, .inr (.inr rfl)⟩
  | _ => cases h

theorem flushConnectionOutput_cases {readAllowed : Bool}
    (h : flushConnectionOutput s c r readAllowed choice = some (t, ops)) :
    (∃ n : UInt64, n ≤ (s.connections c).queuedOutputBytes ∧
        t = (s.update c fun k => { k with queuedOutputBytes := k.queuedOutputBytes - n }) ∧
        ((s.connections c).queuedOutputBytes = n ∧ ops = [.refreshConnectionEvents c (.flush r readAllowed)] ∨
          (s.connections c).queuedOutputBytes ≠ n ∧ ops = afterFlush c r readAllowed)) ∨
      (t = s.setClosing c ∧ ops = [.closeConnection c true]) := by
  cases choice with
  | flushed n =>
    unfold flushConnectionOutput at h
    dsimp only at h
    split at h
    · rename_i hCount
      cases h
      refine .inl ⟨n, hCount, rfl, ?_⟩
      by_cases hEmpty : (s.connections c).queuedOutputBytes = n
      · exact .inl ⟨hEmpty, if_pos hEmpty⟩
      · exact .inr ⟨hEmpty, if_neg hEmpty⟩
    · cases h
  | refused =>
    unfold flushConnectionOutput at h
    dsimp only at h
    split at h
    · cases h
    · cases h
      exact .inr ⟨rfl, rfl⟩
  | _ => cases h

def visitable (s : State) (c : Nat) : Prop :=
  c ∈ s.table ∧ (s.connections c).closing = false ∧ (s.connections c).streamActive = false ∧
    (s.connections c).workerOwned = false

theorem processResumed_cases (h : processResumed s = some (t, ops)) :
    ∃ c r rest, s.resumedConnections = (c, r) :: rest ∧
      ((t = { s with resumedConnections := rest } ∧ ops = [.runReactor]) ∨
        (visitable s c ∧ (s.connections c).object = r ∧ (s.connections c).readPaused = false ∧
          t = ({ s with resumedConnections := rest }.update c fun k => { k with reactorBusy := true }) ∧
          ops = [.consume c r])) := by
  unfold processResumed at h
  split at h
  · cases h
  · rename_i c r rest hResumed
    refine ⟨c, r, rest, hResumed, ?_⟩
    dsimp only at h
    split at h
    · cases h
      exact .inl ⟨rfl, rfl⟩
    · rename_i hSkip
      cases h
      simp only [not_or, Decidable.not_not, Bool.not_eq_true] at hSkip
      obtain ⟨hTable, hObject, hPaused, -, hClosing, hStream, hOwned⟩ := hSkip
      exact .inr ⟨⟨hTable, hClosing, hStream, hOwned⟩, hObject, hPaused, rfl, rfl⟩

theorem handleEvent_cases {readable writable failed : Bool}
    (h : handleEvent s c readable writable failed = some (t, ops)) :
    (t = s ∧ (ops = [.closeConnection c true] ∨ ops = [.runReactor])) ∨
      (visitable s c ∧ t = (s.update c fun k => { k with reactorBusy := true }) ∧
        ∃ readAllowed, (readAllowed = true → (s.connections c).readPaused = false) ∧
          (ops = [.closeConnection c true] ∨
            ops = [.flushConnectionOutput c (s.connections c).object readAllowed] ∨
            ops = afterFlush c (s.connections c).object readAllowed)) := by
  simp only [handleEvent] at h
  split at h
  · cases h
  · rename_i hTable
    split at h
    · cases h
      exact .inl ⟨rfl, .inl rfl⟩
    · rename_i hClosing
      split at h
      · cases h
        exact .inl ⟨rfl, .inr rfl⟩
      · rename_i hLeased
        simp only [Decidable.not_not] at hTable
        simp only [Bool.not_eq_true] at hClosing
        simp only [not_or, Bool.not_eq_true] at hLeased
        obtain ⟨rfl, rfl⟩ := Prod.mk.inj (Option.some.inj h)
        refine .inr ⟨⟨hTable, hClosing, hLeased⟩, rfl, readable && !(s.connections c).readPaused, ?_, ?_⟩
        · intro hAllowed
          simpa using (Bool.and_eq_true_iff.mp hAllowed).2
        · cases failed with
          | true => exact .inl rfl
          | false =>
            cases writable with
            | true => exact .inr (.inl rfl)
            | false => exact .inr (.inr rfl)

theorem acceptConnection_cases {added : Bool} (h : acceptConnection opts s c added = some (t, ops)) :
    c ∉ s.table ∧ s.connections c = {} ∧ ops = [.runReactor] ∧
      t = ({ s with
              objects := s.objects + 1
              table := if added then s.table ++ [c] else s.table }.update c fun k =>
                { k with object := s.objects, watched := if added then some ⟨true, false⟩ else none }) := by
  unfold acceptConnection at h
  split at h
  · cases h
  · rename_i hFree
    cases h
    simp only [not_or, Decidable.not_not] at hFree
    exact ⟨hFree.2.1, hFree.2.2, rfl, rfl⟩

theorem acceptConnection_room {added : Bool} (h : acceptConnection opts s c added = some (t, ops)) :
    s.table.length < opts.maxConnections := by
  unfold acceptConnection at h
  split at h
  · cases h
  · rename_i hFree
    exact Nat.lt_of_not_le fun hFull => hFree (.inl hFull)

def loops (ops : List Op) : Prop := ops = [] ∨ ops = [.runReactor] ∨ ∃ c, ops = [.closeConnection c true]

def visits (s : State) (c : Nat) (ops : List Op) : Prop :=
  ops = [.closeConnection c true] ∨
    ∃ readAllowed, (readAllowed = true → (s.connections c).readPaused = false) ∧
      (ops = [.flushConnectionOutput c (s.connections c).object readAllowed] ∨
        ops = afterFlush c (s.connections c).object readAllowed)

theorem runReactor_cases (h : runReactor opts s choice = some (t, ops)) :
    (∃ rest, t = { s with resumedConnections := rest } ∧ loops ops) ∨
      (∃ c rest, visitable s c ∧ visits s c ops ∧
        t = ({ s with resumedConnections := rest }.update c fun k => { k with reactorBusy := true })) ∨
      ∃ c added, acceptConnection opts s c added = some (t, ops) := by
  unfold runReactor at h
  split at h
  · obtain ⟨c, r, rest, -, ⟨rfl, rfl⟩ | ⟨hVisit, rfl, hPaused, rfl, rfl⟩⟩ := processResumed_cases h
    · exact .inl ⟨rest, rfl, .inr (.inl rfl)⟩
    · exact .inr (.inl ⟨c, rest, hVisit, .inr ⟨true, fun _ => hPaused, .inr rfl⟩, rfl⟩)
  · split at h
    · rename_i c _
      cases h
      exact .inl ⟨s.resumedConnections, rfl, .inr (.inr ⟨c, rfl⟩)⟩
    · cases h
  · rename_i c readable writable failed
    obtain ⟨rfl, hOps⟩ | ⟨hVisit, rfl, readAllowed, hAllowed, hOps⟩ := handleEvent_cases h
    · refine .inl ⟨t.resumedConnections, rfl, ?_⟩
      exact hOps.elim (fun hClose => .inr (.inr ⟨c, hClose⟩)) (fun hLoop => .inr (.inl hLoop))
    · refine .inr (.inl ⟨c, s.resumedConnections, hVisit, ?_, rfl⟩)
      exact hOps.imp_right fun hRead => ⟨readAllowed, hAllowed, hRead⟩
  · rename_i c added
    exact .inr (.inr ⟨c, added, h⟩)
  · split at h
    · cases h
    · cases h
      exact .inl ⟨s.resumedConnections, rfl, .inl rfl⟩
  · cases h

section

variable (opts : Options) (c r : Nat) (k : Connection)

/-- How a pass of the parse loop changes the parser, and how `consume` goes on. -/
inductive Parsed : Connection → List Op → Prop
  | exhausted : Parsed { k with pendingInput := false } [.consumed c r]
  | endOfStream : Parsed { k with closing := true } [.consumed c r]
  | malformed : Parsed k [.threw c (.consume r)]
  | cancel (more : Bool) : k.phase = .header → Parsed { k with pendingInput := more } [.parse c r]
  | request (n : UInt64) (more : Bool) : k.phase = .header → n ≠ 0 → n ≤ opts.maxMessageSize →
        Parsed { k with phase := .requestBudget, payloadTotal := n, pendingInput := more }
          [.beginPayload c r]
  | stream (n : UInt64) (more : Bool) : k.phase = .header → n ≠ 0 → n ≤ opts.maxMessageSize →
        Parsed { k with phase := .streamBudget, arg1 := n, pendingInput := more } [.beginPayload c r]
  | payload (serialized : Option Nat) (session more : Bool) : k.phase = .requestPayload →
        Parsed { k with pendingInput := more } [.dispatchRequest c r serialized session]
  | route (more : Bool) : k.phase = .streamRoute → Parsed { k with pendingInput := more } [.dispatchStream c r]

end

theorem update_const (s : State) (c : Nat) (f : Connection → Connection) :
    s.update c f = s.update c fun _ => f (s.connections c) := by
  unfold State.update
  congr 1
  funext k
  split
  · rename_i hk
    rw [hk]
  · rfl

theorem update_id (s : State) (c : Nat) : s = s.update c fun _ => s.connections c := by
  rw [← update_const s c fun k => k]
  simp [State.update]

theorem parse_cases {input : Input} (h : parse opts s c r input = some (t, ops)) :
    ∃ l, t = (s.update c fun _ => l) ∧ Parsed opts c r (s.connections c) l ops := by
  cases input with
  | exhausted => cases h; exact ⟨_, update_const s c _, .exhausted⟩
  | endOfStream => cases h; exact ⟨_, update_const s c _, .endOfStream⟩
  | malformed => cases h; exact ⟨_, update_id s c, .malformed⟩
  | cancel more =>
    simp only [parse] at h
    split at h
    · rename_i hPhase
      cases h
      exact ⟨_, update_const s c _, .cancel more hPhase⟩
    · cases h
  | request n more =>
    simp only [parse] at h
    split at h
    · rename_i hValid
      cases h
      exact ⟨_, update_const s c _, .request n more hValid.1 hValid.2.1 hValid.2.2⟩
    · cases h
  | stream n more =>
    simp only [parse] at h
    split at h
    · rename_i hValid
      cases h
      exact ⟨_, update_const s c _, .stream n more hValid.1 hValid.2.1 hValid.2.2⟩
    · cases h
  | payload serialized session more =>
    simp only [parse] at h
    split at h
    · rename_i hPhase
      cases h
      exact ⟨_, update_const s c _, .payload serialized session more hPhase⟩
    · rename_i hPhase
      cases h
      exact ⟨_, update_const s c _, .route more hPhase⟩
    · cases h

theorem parseInput_cases (h : parseInput opts s c r choice = some (t, ops)) :
    ∃ l, t = (s.update c fun _ => l) ∧ Parsed opts c r (s.connections c) l ops := by
  unfold parseInput at h
  split at h
  · exact parse_cases h
  · cases h

theorem workerLoop_cases (h : workerLoop s choice = some (t, ops)) :
    (∃ job rest, s.pendingJobs = job :: rest ∧ t = { s with pendingJobs := rest } ∧ ops = startJob job) ∨
      (t = s ∧ ops = []) := by
  unfold workerLoop at h
  split at h
  · split at h
    · cases h
    · rename_i job rest hJobs
      cases h
      exact .inl ⟨job, rest, hJobs, rfl, rfl⟩
  · split at h
    · cases h
      exact .inr ⟨rfl, rfl⟩
    · cases h
  · cases h

theorem execute_cases (h : execute s c choice = some (t, ops)) :
    t = s ∧ (ops = [] ∨ ops = [.writeFixedResponse c .guarded]) := by
  unfold execute at h
  split at h
  · cases h
    exact ⟨rfl, .inr rfl⟩
  · cases h
    exact ⟨rfl, (Bool.eq_false_or_eq_true s.running).elim (fun hRun => .inr (if_pos hRun))
      (fun hStop => .inl (if_neg (by simp [hStop])))⟩
  · cases h

theorem acquireLease_cases (h : acquireLease s c choice = some (t, ops)) :
    (leasable s c ∧ t = (s.update c fun k => { k with watched := none, workerOwned := true }) ∧
        ops = [.continueConnection c]) ∨
      ((t = s ∨ t = s.setClosing c) ∧ ops = []) := by
  unfold acquireLease at h
  split at h
  · split at h
    · rename_i hLeasable
      cases h
      exact .inl ⟨hLeasable, rfl, rfl⟩
    · cases h
      exact .inr ⟨.inl rfl, rfl⟩
  · split at h
    · cases h
      exact .inr ⟨.inr rfl, rfl⟩
    · cases h
      exact .inr ⟨.inl rfl, rfl⟩
  · cases h

theorem continueConnection_cases (h : continueConnection opts s c choice = some (t, ops)) :
    ((t = s ∨ t = s.setClosing c) ∧ ops = [.rearmConnection c .continuation]) ∨
      (t = s ∧ (ops = [.continueConnection c] ∨ ∃ n session, ops = [.addActive c n session])) := by
  unfold continueConnection at h
  split at h
  · cases h
    exact .inl ⟨.inl rfl, rfl⟩
  · split at h
    · cases h
      exact .inl ⟨.inl rfl, rfl⟩
    · cases h
      exact .inl ⟨.inr rfl, rfl⟩
    · cases h
      exact .inr ⟨rfl, .inl rfl⟩
    · rename_i n session
      split at h
      · cases h
        exact .inr ⟨rfl, .inr ⟨n, session, rfl⟩⟩
      · cases h
    · cases h

theorem rearmLocked_cases {mayReuse : Bool} (h : rearmLocked s c mayReuse choice = some (t, ops)) :
    (∃ more, t = rearm s c mayReuse more true ∧ ops = []) ∨
      (t = rearm s c mayReuse false false ∧ ops = [.closeConnection c false]) := by
  unfold rearmLocked at h
  split at h
  · rename_i more
    cases h
    exact .inl ⟨more, rfl, rfl⟩
  · cases h
    exact .inr ⟨rfl, rfl⟩
  · cases h

theorem rearmLocked_other {mayReuse : Bool} {k : Nat} (h : rearmLocked s c mayReuse choice = some (t, ops))
    (hk : k ≠ c) : t.connections k = s.connections k := by
  obtain ⟨more, rfl, -⟩ | ⟨rfl, -⟩ := rearmLocked_cases h
  · unfold rearm
    exact State.update_other _ _ hk
  · unfold rearm
    exact State.update_other _ _ hk

theorem serveFixedRequest_cases (h : serveFixedRequest s c n choice = some (t, ops)) :
    t = s ∧
      (ops = [.writeFixedResponse c .guarded, .completeRegularRequest c n true] ∨
        ∃ route, ops = [.enqueueSerializedJob c n route .continuation]) := by
  unfold serveFixedRequest at h
  split at h
  · cases h
    exact ⟨rfl, .inl rfl⟩
  · rename_i route
    cases h
    exact ⟨rfl, .inr ⟨route, rfl⟩⟩
  · cases h

theorem runStreamExchange_cases {release : Bool} (h : runStreamExchange s c n release choice = some (t, ops)) :
    (t = { s with activeStreams := s.activeStreams - 1 } ∨
        t = { s with activeStreams := s.activeStreams - 1 }.setClosing c) ∧
      ops = .rearmConnection c .stream :: if release then [.releaseConnectionRequestBytes c n] else [] := by
  unfold runStreamExchange at h
  split at h
  · cases h
    exact ⟨.inl rfl, rfl⟩
  · cases h
    exact ⟨.inr rfl, rfl⟩
  · cases h

theorem enqueueSerializedJob_cases {route : Nat} {site : AdmissionSite}
    (h : enqueueSerializedJob opts s c n route site choice = some (t, ops)) :
    (t = s ∧
        (ops = afterAllocationFailed opts c n site ∨ ops = afterStopping opts c n site ∨
          ops = afterBusy opts c n site)) ∨
      ∃ latestWins, (t, ops) = admitJob opts s c n route site latestWins := by
  unfold enqueueSerializedJob at h
  split at h
  · cases h
    exact .inl ⟨rfl, .inl rfl⟩
  · split at h
    · cases h
      exact .inl ⟨rfl, .inr (.inl rfl)⟩
    · cases h
  · split at h
    · cases h
    · cases h
      exact .inl ⟨rfl, .inr (.inr rfl)⟩
  · split at h
    · cases h
    · rename_i latestWins _
      exact .inr ⟨latestWins, (Option.some.inj h).symm⟩
  · cases h

theorem serializedWorkerLoop_cases (h : serializedWorkerLoop s choice = some (t, ops)) :
    (∃ index job, s.pendingSerialized[index]? = some job ∧
        t = { s with pendingSerialized := s.pendingSerialized.eraseIdx index } ∧
        ops = [.execute job.connection, .subSerialized job.connection job.requestBytes,
          .serializedWorkerLoop]) ∨
      (t = s ∧ ops = []) := by
  unfold serializedWorkerLoop at h
  split at h
  · rename_i index
    obtain ⟨job, hJob, hNext⟩ := Option.map_eq_some_iff.mp h
    cases hNext
    exact .inl ⟨index, job, hJob, rfl, rfl⟩
  · split at h
    · cases h
      exact .inr ⟨rfl, rfl⟩
    · cases h
  · cases h

end Cases

section

variable (opts : Options) (s : State)

inductive Outcome : Op → State → List Op → Prop
  | releaseConnectionRequest {c n} : Outcome (.releaseConnectionRequest c n)
      (s.update c fun k => { k with inflightRequestBytes := k.inflightRequestBytes - n }) [.subRequests c n]
  | releaseNothing {c} : Outcome (.releaseConnectionRequestBytes c 0) s []
  | releaseConnectionRequestBytes {c n} : n ≠ 0 → Outcome (.releaseConnectionRequestBytes c n)
      (s.update c fun k => { k with inflightRequestBytes := k.inflightRequestBytes - n }) [.subTotal c n]
  | subRequests {c n} : Outcome (.subRequests c n)
      (s.update c fun k => { k with inflightRequests := k.inflightRequests - 1 }) [.subTotal c n]
  | subTotal {c n} : Outcome (.subTotal c n)
      { s with totalInflightRequestBytes := s.totalInflightRequestBytes - n } [.resumePausedConnections c]
  | resumePausedConnections {c} : Outcome (.resumePausedConnections c) (resumePausedConnections opts s c).1
      ((resumable opts s c).map fun k => .refreshConnectionEvents k .resume)
  | reserveConnection {c r n} : n ≤ opts.maxInflightRequestBytesPerConnection -
        min (s.connections c).inflightRequestBytes opts.maxInflightRequestBytesPerConnection →
      Outcome (.reserveConnection c r n)
        (s.update c fun k => { k with inflightRequestBytes := k.inflightRequestBytes + n }) [.reserveTotal c r n]
  | connectionFull {c r n} : ¬ n ≤ opts.maxInflightRequestBytesPerConnection -
        min (s.connections c).inflightRequestBytes opts.maxInflightRequestBytesPerConnection →
      Outcome (.reserveConnection c r n) s [.pauseConnectionReads c r false]
  | reserveTotal {c r n} : s.totalInflightRequestBytes ≤ opts.maxTotalInflightBytes ∧
        n ≤ opts.maxTotalInflightBytes - s.totalInflightRequestBytes →
      Outcome (.reserveTotal c r n) { s with totalInflightRequestBytes := s.totalInflightRequestBytes + n }
        [.payloadReserved c r n]
  | totalFull {c r n} : ¬ (s.totalInflightRequestBytes ≤ opts.maxTotalInflightBytes ∧
        n ≤ opts.maxTotalInflightBytes - s.totalInflightRequestBytes) →
      Outcome (.reserveTotal c r n) s [.unreserveConnection c r n]
  | unreserveConnection {c r n} : Outcome (.unreserveConnection c r n)
      (s.update c fun k => { k with inflightRequestBytes := k.inflightRequestBytes - n })
      [.pauseConnectionReads c r false]
  | pauseNeeded {c r} : abovePauseWatermark opts s c = true →
      Outcome (.pauseConnectionReadsIfNeeded c r) s [.pauseRecheck c r]
  | pauseNotNeeded {c r} : abovePauseWatermark opts s c = false →
      Outcome (.pauseConnectionReadsIfNeeded c r) s [.finishRequest c r false]
  | pauseRecheck {c r} : c ∈ s.table ∧ (s.connections c).object = r ∧ abovePauseWatermark opts s c = true →
      Outcome (.pauseRecheck c r) s [.pauseConnectionReads c r true]
  | pauseLapsed {c r} : ¬ (c ∈ s.table ∧ (s.connections c).object = r ∧ abovePauseWatermark opts s c = true) →
      Outcome (.pauseRecheck c r) s [.finishRequest c r false]
  | pauseConnectionReads {c r finish} : pauses s c r → Outcome (.pauseConnectionReads c r finish)
      (s.update c fun k => { k with readPaused := true }) [.refreshConnectionEvents c (.pause r finish)]
  | pausedFinish {c r} : ¬ pauses s c r → Outcome (.pauseConnectionReads c r true) s [.finishRequest c r true]
  | pausedConsumed {c r} : ¬ pauses s c r → Outcome (.pauseConnectionReads c r false) s [.consumed c r]
  | refreshConnectionEvents {c site} (modified) : Outcome (.refreshConnectionEvents c site)
      (afterRefresh (refresh s c modified).1 c (refresh s c modified).2 site).1
      (afterRefresh (refresh s c modified).1 c (refresh s c modified).2 site).2
  | writeLate {c} : Outcome (.writeFixedResponse c .guarded) s [.threw c .guarded]
  | sentGuarded {c} : (s.connections c).queuedOutputBytes = 0 → Outcome (.writeFixedResponse c .guarded) s []
  | sentConsume {c r} : (s.connections c).queuedOutputBytes = 0 →
      Outcome (.writeFixedResponse c (.consume r)) s [.pauseConnectionReadsIfNeeded c r]
  | sentContinuation {c n} : (s.connections c).queuedOutputBytes = 0 →
      Outcome (.writeFixedResponse c (.continuation n)) s [.completeRegularRequest c n true]
  | writeOverflow {c site} : Outcome (.writeFixedResponse c site) s
      [.setClosing c, .closeConnection c false, .threw c site]
  | writeFailed {c site} : Outcome (.writeFixedResponse c site) (s.setClosing c) [.threw c site]
  | writeQueued {c site} (n : UInt64) : n ≠ 0 → n ≤ opts.maxOutputBytesPerConnection →
      (s.connections c).queuedOutputBytes ≤ opts.maxOutputBytesPerConnection - n →
      Outcome (.writeFixedResponse c site)
        (s.update c fun k => { k with queuedOutputBytes := k.queuedOutputBytes + n })
        [.refreshConnectionEvents c (.write site)]
  | threwGuarded {c} : Outcome (.threw c .guarded) (s.setClosing c) []
  | threwConsume {c r} : Outcome (.threw c (.consume r)) (s.setClosing c) [.consumed c r]
  | threwContinuation {c n} : Outcome (.threw c (.continuation n)) (s.setClosing c) [.rearmConnection c .failed]
  | flushedAll {c r readAllowed} (n : UInt64) : n ≤ (s.connections c).queuedOutputBytes →
      (s.connections c).queuedOutputBytes = n → Outcome (.flushConnectionOutput c r readAllowed)
        (s.update c fun k => { k with queuedOutputBytes := k.queuedOutputBytes - n })
        [.refreshConnectionEvents c (.flush r readAllowed)]
  | flushedConsume {c r} (n : UInt64) : n ≤ (s.connections c).queuedOutputBytes →
      (s.connections c).queuedOutputBytes ≠ n → Outcome (.flushConnectionOutput c r true)
        (s.update c fun k => { k with queuedOutputBytes := k.queuedOutputBytes - n }) [.consume c r]
  | flushedDone {c r} (n : UInt64) : n ≤ (s.connections c).queuedOutputBytes →
      (s.connections c).queuedOutputBytes ≠ n → Outcome (.flushConnectionOutput c r false)
        (s.update c fun k => { k with queuedOutputBytes := k.queuedOutputBytes - n }) [.reactorDone c r]
  | flushFailed {c r readAllowed} : Outcome (.flushConnectionOutput c r readAllowed) (s.setClosing c)
      [.closeConnection c true]
  | closeConnection {c reactor} : Outcome (.closeConnection c reactor) (close s c) (closeConnection s c reactor).2
  | setClosing {c} : Outcome (.setClosing c) (s.setClosing c) []
  | dispatchSerialized {c r route session} : Outcome (.dispatchRequest c r (some route) session)
      (s.update c fun k => { k with reservedRequestBytes := 0 })
      [.enqueueSerializedJob c (s.connections c).payloadTotal route (.dispatch r)]
  | dispatchRegular {c r session} : Outcome (.dispatchRequest c r none session)
      (s.update c fun k => { k with reservedRequestBytes := 0, sessionCapable := k.sessionCapable || session })
      [.enqueueWorkerJob c r (s.connections c).payloadTotal false]
  | streamRefused {c r} : Outcome (.dispatchStream c r) (s.setClosing c) [.consumed c r]
  | dispatchStream {c r} : (s.connections c).activeRegular = 0 → (s.connections c).pendingSerialized = 0 →
      s.activeStreams < opts.maxConcurrentStreams → Outcome (.dispatchStream c r)
        ({ s with activeStreams := s.activeStreams + 1 }.update c fun k => { k with reservedRequestBytes := 0 })
        [.streamLease c r (s.connections c).arg1]
  | streamLease {c r n} : Outcome (.streamLease c r n)
      (s.update c fun k => { k with watched := none, streamActive := true }) [.enqueueWorkerJob c r n true]
  | jobRefused {c r n isStream} : Outcome (.enqueueWorkerJob c r n isStream) s
      (giveBack opts c n ++ .setClosing c :: if isStream then [.consumed c r] else [.finishRequest c r false])
  | jobFailed {c r n} : Outcome (.enqueueWorkerJob c r n false) s (giveBack opts c n ++ [.threw c (.consume r)])
  | queueStream {c r n} : s.workersStopping = false → Outcome (.enqueueWorkerJob c r n true)
      { s with pendingJobs := s.pendingJobs ++ [⟨c, n, true, opts.strictBudget⟩] } [.consumed c r]
  | queueRequest {c r n} : s.workersStopping = false → Outcome (.enqueueWorkerJob c r n false)
      (accountConnectionRequest opts (State.update { s with pendingJobs := s.pendingJobs ++ [⟨c, n, false, false⟩] } c
        fun k => { k with activeRegular := k.activeRegular + 1 }) c n)
      [.pauseConnectionReadsIfNeeded c r]
  | reactorLoops {ops} (rest) : loops ops → Outcome .runReactor { s with resumedConnections := rest } ops
  | reactorVisits {ops} (c rest) : visitable s c → visits s c ops → Outcome .runReactor
      ({ s with resumedConnections := rest }.update c fun k => { k with reactorBusy := true }) ops
  | accept {t ops} (c added) : acceptConnection opts s c added = some (t, ops) → Outcome .runReactor t ops
  | consumeBudget {c r} : (s.connections c).phase = .requestBudget ∨ (s.connections c).phase = .streamBudget →
      Outcome (.consume c r) s [.beginPayload c r]
  | consume {c r} : ¬ ((s.connections c).phase = .requestBudget ∨ (s.connections c).phase = .streamBudget) →
      Outcome (.consume c r) s [.parse c r]
  | beginEmpty {c r} : opts.strictBudget = true → budget (s.connections c) = 0 →
      Outcome (.beginPayload c r) s [.payloadReserved c r (budget (s.connections c))]
  | beginReserve {c r} : opts.strictBudget = true → budget (s.connections c) ≠ 0 →
      Outcome (.beginPayload c r) s [.reserveConnection c r (budget (s.connections c))]
  | beginPayload {c r} : opts.strictBudget = false → Outcome (.beginPayload c r)
      (s.update c fun k => { k with phase := admittedPhase k.phase }) [.parse c r]
  | payloadReserved {c r n} : Outcome (.payloadReserved c r n)
      (s.update c fun k => { k with reservedRequestBytes := n, phase := admittedPhase k.phase }) [.parse c r]
  | parse {c r l ops} : Parsed opts c r (s.connections c) l ops → Outcome (.parse c r) (s.update c fun _ => l) ops
  | finishPaused {c r} : Outcome (.finishRequest c r true) (s.update c fun k => { k with phase := .header })
      [.consumed c r]
  | finishRequest {c r} : Outcome (.finishRequest c r false) (s.update c fun k => { k with phase := .header })
      [.parse c r]
  | consumedClosing {c r} : (s.connections c).closing = true → Outcome (.consumed c r) s [.closeConnection c true]
  | consumed {c r} : (s.connections c).closing = false → Outcome (.consumed c r) s [.reactorDone c r]
  | reactorDone {c r} : Outcome (.reactorDone c r) (reactorDone s c r).1 [.runReactor]
  | takeStream (job rest) : s.pendingJobs = job :: rest → job.isStream = true →
      Outcome .workerLoop { s with pendingJobs := rest }
        [.runStreamExchange job.connection job.requestBytes job.releaseStreamRequestBytes, .workerLoop]
  | takeRequest (job rest) : s.pendingJobs = job :: rest → job.isStream = false →
      Outcome .workerLoop { s with pendingJobs := rest }
        [.execute job.connection, .completeRegularRequest job.connection job.requestBytes true, .workerLoop]
  | workerLeaves : Outcome .workerLoop s []
  | executeDropped {c} : Outcome (.execute c) s []
  | execute {c} : Outcome (.execute c) s [.writeFixedResponse c .guarded]
  | completeRegularRequest {c n} : Outcome (.completeRegularRequest c n true)
      (s.update c fun k => { k with activeRegular := k.activeRegular - 1 })
      [.releaseConnectionRequest c n, .completed c (s.connections c).activeRegular]
  | completeAdmitted {c n} : Outcome (.completeRegularRequest c n false)
      (s.update c fun k => { k with activeRegular := k.activeRegular - 1 })
      [.completed c (s.connections c).activeRegular]
  | completedBusy {c previous} : Outcome (.completed c previous) s []
  | completed {c} : (s.connections c).closing = false → Outcome (.completed c 1) s [.tryAcquireContinuationLease c]
  | leaseSkipped {c} : Outcome (.tryAcquireContinuationLease c) s []
  | tryAcquireContinuationLease {c} : opts.strictBudget = false → Outcome (.tryAcquireContinuationLease c) s
      [.acquireLease c]
  | acquireLease {c} : leasable s c → Outcome (.acquireLease c)
      (s.update c fun k => { k with watched := none, workerOwned := true }) [.continueConnection c]
  | leaseRefused {c t} : t = s ∨ t = s.setClosing c → Outcome (.acquireLease c) t []
  | continueLeaves {c t} : t = s ∨ t = s.setClosing c →
      Outcome (.continueConnection c) t [.rearmConnection c .continuation]
  | continueCancel {c} : Outcome (.continueConnection c) s [.continueConnection c]
  | continueRequest {c} (n session) : Outcome (.continueConnection c) s [.addActive c n session]
  | addActive {c n session} : Outcome (.addActive c n session)
      (s.update c fun k => { k with activeRegular := k.activeRegular + 1 }) [.addRequests c n session]
  | addRequests {c n session} : Outcome (.addRequests c n session)
      (s.update c fun k => { k with inflightRequests := k.inflightRequests + 1 }) [.addBytes c n session]
  | addBytes {c n session} : Outcome (.addBytes c n session)
      (s.update c fun k => { k with inflightRequestBytes := k.inflightRequestBytes + n }) [.addTotal c n session]
  | addTotal {c n session} : Outcome (.addTotal c n session)
      ({ s with totalInflightRequestBytes := s.totalInflightRequestBytes + n }.update c fun k =>
        { k with sessionCapable := k.sessionCapable || session })
      [.rearmConnection c .continuation, .serveFixedRequest c n]
  | rearmClosing {c site} : (s.connections c).closing = true →
      Outcome (.rearmConnection c site) s [.closeConnection c false]
  | rearmConnection {c site} : (s.connections c).closing = false →
      Outcome (.rearmConnection c site) s [.rearmRunning c site]
  | rearmRunning {c site} : Outcome (.rearmRunning c site) s
      [.rearmLocked c ((s.connections c).workerOwned && !(s.connections c).streamActive) site]
  | rearmStopped {c site} : Outcome (.rearmRunning c site) s []
  | rearmLocked {c mayReuse site} (more) : Outcome (.rearmLocked c mayReuse site) (rearm s c mayReuse more true) []
  | rearmRefused {c mayReuse site} : Outcome (.rearmLocked c mayReuse site) (rearm s c mayReuse false false)
      [.closeConnection c false]
  | serveFixedRequest {c n} : Outcome (.serveFixedRequest c n) s
      [.writeFixedResponse c .guarded, .completeRegularRequest c n true]
  | serveSerialized {c n} (route) : Outcome (.serveFixedRequest c n) s [.enqueueSerializedJob c n route .continuation]
  | exchangeReserved {c n t} : t = { s with activeStreams := s.activeStreams - 1 } ∨
        t = { s with activeStreams := s.activeStreams - 1 }.setClosing c → Outcome (.runStreamExchange c n true) t
        [.rearmConnection c .stream, .releaseConnectionRequestBytes c n]
  | exchange {c n t} : t = { s with activeStreams := s.activeStreams - 1 } ∨
        t = { s with activeStreams := s.activeStreams - 1 }.setClosing c →
      Outcome (.runStreamExchange c n false) t [.rearmConnection c .stream]
  | allocationFailed {c n route site} : Outcome (.enqueueSerializedJob c n route site) s
      (afterAllocationFailed opts c n site)
  | serializedStopping {c n route site} : Outcome (.enqueueSerializedJob c n route site) s
      (afterStopping opts c n site)
  | serializedBusy {c n route site} : Outcome (.enqueueSerializedJob c n route site) s (afterBusy opts c n site)
  | admitted {c n route site} (latestWins) : Outcome (.enqueueSerializedJob c n route site)
      (admitJob opts s c n route site latestWins).1 (admitJob opts s c n route site latestWins).2
  | serializedWorkerLoop (index job) : s.pendingSerialized[index]? = some job → Outcome .serializedWorkerLoop
      { s with pendingSerialized := s.pendingSerialized.eraseIdx index }
      [.execute job.connection, .subSerialized job.connection job.requestBytes, .serializedWorkerLoop]
  | serializedLeaves : Outcome .serializedWorkerLoop s []
  | subSerialized {c n} : Outcome (.subSerialized c n)
      (s.update c fun k => { k with pendingSerialized := k.pendingSerialized - 1 }) [.releaseConnectionRequest c n]
  | stopRunning : Outcome .stopRunning { s with running := false } [.stopWorkers]
  | stopWorkers : Outcome .stopWorkers { s with workersStopping := true } [.stopSerialized]
  | stopSerialized : Outcome .stopSerialized { s with serializedStopping := true } []

end

theorem exec_outcome {opts : Options} {s t : State} {op : Op} {choice : Choice} {ops : List Op}
    (h : exec opts s op choice = some (t, ops)) : Outcome opts s op t ops := by
  cases op with
  | releaseConnectionRequestBytes c n =>
    simp only [exec] at h
    split at h <;> cases h
    · rename_i hZero
      subst hZero
      exact .releaseNothing
    · exact .releaseConnectionRequestBytes ‹_›
  | reserveConnection c r n =>
    simp only [exec, reserveConnection] at h
    split at h <;> cases h
    · exact .reserveConnection ‹_›
    · exact .connectionFull ‹_›
  | reserveTotal c r n =>
    simp only [exec, reserveTotal] at h
    split at h <;> cases h
    · exact .reserveTotal ‹_›
    · exact .totalFull ‹_›
  | pauseConnectionReadsIfNeeded c r =>
    cases h
    split
    · exact .pauseNeeded ‹_›
    · exact .pauseNotNeeded (Bool.eq_false_iff.mpr ‹_›)
  | pauseRecheck c r =>
    cases h
    split
    · exact .pauseRecheck ‹_›
    · exact .pauseLapsed ‹_›
  | pauseConnectionReads c r finish =>
    simp only [exec, pauseConnectionReads] at h
    split at h <;> cases h
    · exact .pauseConnectionReads ‹_›
    · cases finish with
      | true => exact .pausedFinish ‹_›
      | false => exact .pausedConsumed ‹_›
  | refreshConnectionEvents c site =>
    obtain ⟨modified, hNext⟩ := refreshConnectionEvents_cases h
    obtain ⟨rfl, rfl⟩ := Prod.mk.inj hNext
    exact .refreshConnectionEvents modified
  | writeFixedResponse c site =>
    obtain ⟨rfl, ⟨rfl, rfl⟩ | ⟨hEmpty, rfl⟩ | rfl⟩ | ⟨rfl, rfl⟩ | ⟨n, hSome, hLimit, hFits, rfl, rfl⟩ :=
      writeFixedResponse_cases h
    · exact .writeLate
    · cases site with
      | guarded => exact .sentGuarded hEmpty
      | consume r => exact .sentConsume hEmpty
      | continuation n => exact .sentContinuation hEmpty
    · exact .writeOverflow
    · exact .writeFailed
    · exact .writeQueued n hSome hLimit hFits
  | flushConnectionOutput c r readAllowed =>
    obtain ⟨n, hCount, rfl, ⟨hAll, rfl⟩ | ⟨hPart, rfl⟩⟩ | ⟨rfl, rfl⟩ := flushConnectionOutput_cases h
    · exact .flushedAll n hCount hAll
    · cases readAllowed with
      | true => exact .flushedConsume n hCount hPart
      | false => exact .flushedDone n hCount hPart
    · exact .flushFailed
  | dispatchRequest c r serialized session =>
    cases serialized with
    | none => cases h; exact .dispatchRegular
    | some route => cases h; exact .dispatchSerialized
  | dispatchStream c r =>
    simp only [exec, dispatchStream] at h
    split at h <;> cases h
    · exact .streamRefused
    · rename_i hFree
      simp only [not_or, Decidable.not_not, UInt64.not_le] at hFree
      exact .dispatchStream hFree.1 hFree.2.1 hFree.2.2
  | enqueueWorkerJob c r n isStream =>
    simp only [exec, enqueueWorkerJob] at h
    split at h
    · cases h
      exact .jobRefused
    · rename_i hOpen
      rw [Bool.not_eq_true] at hOpen
      cases isStream with
      | true =>
        split at h <;> cases h
        · exact .jobRefused
        · exact .queueStream hOpen
      | false =>
        split at h <;> cases h
        · exact .jobFailed
        · exact .queueRequest hOpen
  | runReactor =>
    obtain ⟨rest, rfl, hLoops⟩ | ⟨c, rest, hVisit, hVisits, rfl⟩ | ⟨c, added, hAccept⟩ := runReactor_cases h
    · exact .reactorLoops rest hLoops
    · exact .reactorVisits c rest hVisit hVisits
    · exact .accept c added hAccept
  | consume c r =>
    cases h
    split
    · exact .consumeBudget ‹_›
    · exact .consume ‹_›
  | beginPayload c r =>
    simp only [exec, beginPayload] at h
    split at h
    · cases h
      split
      · exact .beginEmpty ‹_› ‹_›
      · exact .beginReserve ‹_› ‹_›
    · cases h
      exact .beginPayload (Bool.eq_false_iff.mpr ‹_›)
  | parse c r =>
    obtain ⟨l, rfl, hParsed⟩ := parseInput_cases h
    exact .parse hParsed
  | finishRequest c r paused =>
    cases paused with
    | true => cases h; exact .finishPaused
    | false => cases h; exact .finishRequest
  | consumed c r =>
    cases h
    split
    · exact .consumedClosing ‹_›
    · exact .consumed (Bool.eq_false_iff.mpr ‹_›)
  | workerLoop =>
    obtain ⟨job, rest, hJobs, rfl, rfl⟩ | ⟨rfl, rfl⟩ := workerLoop_cases h
    · cases hStream : job.isStream with
      | true =>
        rw [startJob, hStream]
        exact .takeStream job rest hJobs hStream
      | false =>
        rw [startJob, hStream]
        exact .takeRequest job rest hJobs hStream
    · exact .workerLeaves
  | execute c =>
    obtain ⟨rfl, rfl | rfl⟩ := execute_cases h
    · exact .executeDropped
    · exact .execute
  | completed c previous =>
    cases h
    split
    · exact .completedBusy
    · rename_i hLast
      simp only [not_or, Decidable.not_not, Bool.not_eq_true] at hLast
      obtain ⟨rfl, hOpen⟩ := hLast
      exact .completed hOpen
  | tryAcquireContinuationLease c =>
    obtain ⟨rfl, rfl⟩ := outcome_eq h
    simp only [tryAcquireContinuationLease]
    split
    · exact .leaseSkipped
    · rename_i hTests
      exact .tryAcquireContinuationLease (Bool.eq_false_iff.mpr fun hStrict => hTests (.inl hStrict))
  | acquireLease c =>
    obtain ⟨hLeasable, rfl, rfl⟩ | ⟨hSame, rfl⟩ := acquireLease_cases h
    · exact .acquireLease hLeasable
    · exact .leaseRefused hSame
  | continueConnection c =>
    obtain ⟨hSame, rfl⟩ | ⟨rfl, rfl | ⟨n, session, rfl⟩⟩ := continueConnection_cases h
    · exact .continueLeaves hSame
    · exact .continueCancel
    · exact .continueRequest n session
  | rearmConnection c site =>
    cases h
    split
    · exact .rearmClosing ‹_›
    · exact .rearmConnection (Bool.eq_false_iff.mpr ‹_›)
  | rearmRunning c site =>
    cases h
    split
    · exact .rearmRunning
    · exact .rearmStopped
  | rearmLocked c mayReuse site =>
    obtain ⟨more, rfl, rfl⟩ | ⟨rfl, rfl⟩ := rearmLocked_cases h
    · exact .rearmLocked more
    · exact .rearmRefused
  | serveFixedRequest c n =>
    obtain ⟨rfl, rfl | ⟨route, rfl⟩⟩ := serveFixedRequest_cases h
    · exact .serveFixedRequest
    · exact .serveSerialized route
  | runStreamExchange c n release =>
    obtain ⟨hSame, rfl⟩ := runStreamExchange_cases h
    cases release with
    | true => exact .exchangeReserved hSame
    | false => exact .exchange hSame
  | enqueueSerializedJob c n route site =>
    obtain ⟨rfl, rfl | rfl | rfl⟩ | ⟨latestWins, hNext⟩ := enqueueSerializedJob_cases h
    · exact .allocationFailed
    · exact .serializedStopping
    · exact .serializedBusy
    · obtain ⟨rfl, rfl⟩ := Prod.mk.inj hNext
      exact .admitted latestWins
  | serializedWorkerLoop =>
    obtain ⟨index, job, hJob, rfl, rfl⟩ | ⟨rfl, rfl⟩ := serializedWorkerLoop_cases h
    · exact .serializedWorkerLoop index job hJob
    · exact .serializedLeaves
  | threw c site => cases site <;> cases h <;> constructor
  | completeRegularRequest c n release => cases release <;> cases h <;> constructor
  | _ => cases h; constructor

section

variable (opts : Options) (s : State)

inductive Next : Op → Op → Prop
  | subRequests {c n} : Next (.releaseConnectionRequest c n) (.subRequests c n)
  | releasedBytes {c n} : Next (.releaseConnectionRequestBytes c n) (.subTotal c n)
  | subTotal {c n} : Next (.subRequests c n) (.subTotal c n)
  | resumePausedConnections {c n} : Next (.subTotal c n) (.resumePausedConnections c)
  | resumed {c k} : Next (.resumePausedConnections c) (.refreshConnectionEvents k .resume)
  | reserveTotal {c r n} : Next (.reserveConnection c r n) (.reserveTotal c r n)
  | connectionFull {c r n} : ¬ n ≤ opts.maxInflightRequestBytesPerConnection -
        min (s.connections c).inflightRequestBytes opts.maxInflightRequestBytesPerConnection →
      Next (.reserveConnection c r n) (.pauseConnectionReads c r false)
  | payloadReserved {c r n} : Next (.reserveTotal c r n) (.payloadReserved c r n)
  | totalFull {c r n} : ¬ (s.totalInflightRequestBytes ≤ opts.maxTotalInflightBytes ∧
        n ≤ opts.maxTotalInflightBytes - s.totalInflightRequestBytes) →
      Next (.reserveTotal c r n) (.unreserveConnection c r n)
  | unreserved {c r n} : Next (.unreserveConnection c r n) (.pauseConnectionReads c r false)
  | pauseRecheck {c r} : Next (.pauseConnectionReadsIfNeeded c r) (.pauseRecheck c r)
  | pauseNotNeeded {c r} : Next (.pauseConnectionReadsIfNeeded c r) (.finishRequest c r false)
  | pauseConnectionReads {c r} : abovePauseWatermark opts s c = true →
      Next (.pauseRecheck c r) (.pauseConnectionReads c r true)
  | pauseLapsed {c r} : Next (.pauseRecheck c r) (.finishRequest c r false)
  | paused {c r finish} : Next (.pauseConnectionReads c r finish) (.refreshConnectionEvents c (.pause r finish))
  | pausedFinish {c r} : Next (.pauseConnectionReads c r true) (.finishRequest c r true)
  | pausedConsumed {c r} : Next (.pauseConnectionReads c r false) (.consumed c r)
  | refreshedFinish {c r} : Next (.refreshConnectionEvents c (.pause r true)) (.finishRequest c r true)
  | refreshedConsumed {c r} : Next (.refreshConnectionEvents c (.pause r false)) (.consumed c r)
  | refreshedConsume {c r} :
      Next (.refreshConnectionEvents c (.write (.consume r))) (.pauseConnectionReadsIfNeeded c r)
  | refreshedContinuation {c n} :
      Next (.refreshConnectionEvents c (.write (.continuation n))) (.completeRegularRequest c n true)
  | refreshFailed {c site} : Next (.refreshConnectionEvents c (.write site)) (.threw c site)
  | refreshedRead {c r} : Next (.refreshConnectionEvents c (.flush r true)) (.consume c r)
  | refreshedDone {c r} : Next (.refreshConnectionEvents c (.flush r false)) (.reactorDone c r)
  | refreshClosed {c r readAllowed} :
      Next (.refreshConnectionEvents c (.flush r readAllowed)) (.closeConnection c true)
  | threw {c site} : Next (.writeFixedResponse c site) (.threw c site)
  | sentConsume {c r} : Next (.writeFixedResponse c (.consume r)) (.pauseConnectionReadsIfNeeded c r)
  | sentContinuation {c n} : Next (.writeFixedResponse c (.continuation n)) (.completeRegularRequest c n true)
  | overflowClosing {c site} : Next (.writeFixedResponse c site) (.setClosing c)
  | overflowClosed {c site} : Next (.writeFixedResponse c site) (.closeConnection c false)
  | queued {c site} : Next (.writeFixedResponse c site) (.refreshConnectionEvents c (.write site))
  | threwConsume {c r} : Next (.threw c (.consume r)) (.consumed c r)
  | threwContinuation {c n} : Next (.threw c (.continuation n)) (.rearmConnection c .failed)
  | flushed {c r readAllowed} :
      Next (.flushConnectionOutput c r readAllowed) (.refreshConnectionEvents c (.flush r readAllowed))
  | flushedConsume {c r} : Next (.flushConnectionOutput c r true) (.consume c r)
  | flushedDone {c r} : Next (.flushConnectionOutput c r false) (.reactorDone c r)
  | flushFailed {c r readAllowed} : Next (.flushConnectionOutput c r readAllowed) (.closeConnection c true)
  | closeReleases {c reactor n} : Next (.closeConnection c reactor) (.releaseConnectionRequestBytes c n)
  | closed {c} : Next (.closeConnection c true) .runReactor
  | dispatchSerialized {c r route session} : Next (.dispatchRequest c r (some route) session)
      (.enqueueSerializedJob c (s.connections c).payloadTotal route (.dispatch r))
  | dispatchRegular {c r session} : Next (.dispatchRequest c r none session)
      (.enqueueWorkerJob c r (s.connections c).payloadTotal false)
  | streamRefused {c r} : Next (.dispatchStream c r) (.consumed c r)
  | dispatchStream {c r} : (s.connections c).activeRegular = 0 → (s.connections c).pendingSerialized = 0 →
      s.activeStreams < opts.maxConcurrentStreams →
      Next (.dispatchStream c r) (.streamLease c r (s.connections c).arg1)
  | streamLease {c r n} : Next (.streamLease c r n) (.enqueueWorkerJob c r n true)
  | jobReleases {c r n isStream} : Next (.enqueueWorkerJob c r n isStream) (.releaseConnectionRequestBytes c n)
  | jobCloses {c r n isStream} : Next (.enqueueWorkerJob c r n isStream) (.setClosing c)
  | jobThrows {c r n} : Next (.enqueueWorkerJob c r n false) (.threw c (.consume r))
  | queueStream {c r n} : Next (.enqueueWorkerJob c r n true) (.consumed c r)
  | jobRefused {c r n} : Next (.enqueueWorkerJob c r n false) (.finishRequest c r false)
  | queueRequest {c r n} : Next (.enqueueWorkerJob c r n false) (.pauseConnectionReadsIfNeeded c r)
  | reactorLoops : Next .runReactor .runReactor
  | reactorCloses {c} : Next .runReactor (.closeConnection c true)
  | reactorFlushes {c readAllowed} : visitable s c → (readAllowed = true → (s.connections c).readPaused = false) →
      Next .runReactor (.flushConnectionOutput c (s.connections c).object readAllowed)
  | reactorReads {c} : visitable s c → (s.connections c).readPaused = false →
      Next .runReactor (.consume c (s.connections c).object)
  | reactorLeaves {c} : visitable s c → Next .runReactor (.reactorDone c (s.connections c).object)
  | beginPayload {c r} : Next (.consume c r) (.beginPayload c r)
  | parse {c r} : Next (.consume c r) (.parse c r)
  | beginEmpty {c r} : Next (.beginPayload c r) (.payloadReserved c r (budget (s.connections c)))
  | reserve {c r} : opts.strictBudget = true →
      Next (.beginPayload c r) (.reserveConnection c r (budget (s.connections c)))
  | begun {c r} : Next (.beginPayload c r) (.parse c r)
  | reserved {c r n} : Next (.payloadReserved c r n) (.parse c r)
  | exhausted {c r} : Next (.parse c r) (.consumed c r)
  | malformed {c r} : Next (.parse c r) (.threw c (.consume r))
  | cancel {c r} : Next (.parse c r) (.parse c r)
  | header {c r} : Next (.parse c r) (.beginPayload c r)
  | payload {c r serialized session} : Next (.parse c r) (.dispatchRequest c r serialized session)
  | route {c r} : Next (.parse c r) (.dispatchStream c r)
  | finishPaused {c r} : Next (.finishRequest c r true) (.consumed c r)
  | finishRequest {c r} : Next (.finishRequest c r false) (.parse c r)
  | consumedClosing {c r} : Next (.consumed c r) (.closeConnection c true)
  | consumed {c r} : Next (.consumed c r) (.reactorDone c r)
  | reactorDone {c r} : Next (.reactorDone c r) .runReactor
  | takeStream {job : PendingJob} : job ∈ s.pendingJobs → job.isStream = true →
      Next .workerLoop (.runStreamExchange job.connection job.requestBytes job.releaseStreamRequestBytes)
  | takeRequest {c} : Next .workerLoop (.execute c)
  | complete {job : PendingJob} : job ∈ s.pendingJobs → job.isStream = false →
      Next .workerLoop (.completeRegularRequest job.connection job.requestBytes true)
  | workerLoop : Next .workerLoop .workerLoop
  | execute {c} : Next (.execute c) (.writeFixedResponse c .guarded)
  | completeReleases {c n} : Next (.completeRegularRequest c n true) (.releaseConnectionRequest c n)
  | completed {c n release previous} : Next (.completeRegularRequest c n release) (.completed c previous)
  | tryAcquireContinuationLease {c previous} : Next (.completed c previous) (.tryAcquireContinuationLease c)
  | acquireLease {c} : opts.strictBudget = false → Next (.tryAcquireContinuationLease c) (.acquireLease c)
  | continueConnection {c} : leasable s c → Next (.acquireLease c) (.continueConnection c)
  | continueLeaves {c} : Next (.continueConnection c) (.rearmConnection c .continuation)
  | continueCancel {c} : Next (.continueConnection c) (.continueConnection c)
  | addActive {c n session} : Next (.continueConnection c) (.addActive c n session)
  | addRequests {c n session} : Next (.addActive c n session) (.addRequests c n session)
  | addBytes {c n session} : Next (.addRequests c n session) (.addBytes c n session)
  | addTotal {c n session} : Next (.addBytes c n session) (.addTotal c n session)
  | addedRearm {c n session} : Next (.addTotal c n session) (.rearmConnection c .continuation)
  | addedServe {c n session} : Next (.addTotal c n session) (.serveFixedRequest c n)
  | rearmClosing {c site} : Next (.rearmConnection c site) (.closeConnection c false)
  | rearmRunning {c site} : (s.connections c).closing = false → Next (.rearmConnection c site) (.rearmRunning c site)
  | rearmLocked {c mayReuse site} : Next (.rearmRunning c site) (.rearmLocked c mayReuse site)
  | rearmRefused {c mayReuse site} : Next (.rearmLocked c mayReuse site) (.closeConnection c false)
  | serveWrites {c n} : Next (.serveFixedRequest c n) (.writeFixedResponse c .guarded)
  | serveCompletes {c n} : Next (.serveFixedRequest c n) (.completeRegularRequest c n true)
  | serveSerialized {c n route} : Next (.serveFixedRequest c n) (.enqueueSerializedJob c n route .continuation)
  | exchangeRearms {c n release} : Next (.runStreamExchange c n release) (.rearmConnection c .stream)
  | exchangeReleases {c n} : Next (.runStreamExchange c n true) (.releaseConnectionRequestBytes c n)
  | admissionReleases {c n route r} :
      Next (.enqueueSerializedJob c n route (.dispatch r)) (.releaseConnectionRequestBytes c n)
  | allocationFailed {c n route r} : Next (.enqueueSerializedJob c n route (.dispatch r)) (.threw c (.consume r))
  | admissionCloses {c n route site} : Next (.enqueueSerializedJob c n route site) (.setClosing c)
  | admissionStopped {c n route r} : Next (.enqueueSerializedJob c n route (.dispatch r)) (.finishRequest c r false)
  | admissionCompletes {c n route release} :
      Next (.enqueueSerializedJob c n route .continuation) (.completeRegularRequest c n release)
  | busy {c n route r} : Next (.enqueueSerializedJob c n route (.dispatch r)) (.writeFixedResponse c (.consume r))
  | busyContinuation {c n route} :
      Next (.enqueueSerializedJob c n route .continuation) (.writeFixedResponse c (.continuation n))
  | superseded {c n route site k} : Next (.enqueueSerializedJob c n route site) (.writeFixedResponse k .guarded)
  | supersededSub {c n route site} {job : SerializedJob} : job ∈ s.pendingSerialized →
      Next (.enqueueSerializedJob c n route site) (.subSerialized job.connection job.requestBytes)
  | admitted {c n route r} : Next (.enqueueSerializedJob c n route (.dispatch r)) (.pauseConnectionReadsIfNeeded c r)
  | serializedExecute {c} : Next .serializedWorkerLoop (.execute c)
  | subSerialized {job : SerializedJob} : job ∈ s.pendingSerialized →
      Next .serializedWorkerLoop (.subSerialized job.connection job.requestBytes)
  | serializedWorkerLoop : Next .serializedWorkerLoop .serializedWorkerLoop
  | serializedReleases {c n} : Next (.subSerialized c n) (.releaseConnectionRequest c n)
  | stopWorkers : Next .stopRunning .stopWorkers
  | stopSerialized : Next .stopWorkers .stopSerialized

end

section Successors

variable {opts : Options} {s t : State} {op : Op} {choice : Choice} {ops : List Op}

theorem giveBack_next {c : Nat} {n : UInt64} (h : Next opts s op (.releaseConnectionRequestBytes c n)) :
    ∀ o ∈ giveBack opts c n, Next opts s op o := by
  unfold giveBack
  split
  · exact List.forall_mem_singleton.mpr h
  · exact List.forall_mem_nil _

theorem afterRefresh_next {u : State} {c : Nat} {refreshed : Bool} {site : RefreshSite} :
    ∀ o ∈ (afterRefresh u c refreshed site).2, Next opts s (.refreshConnectionEvents c site) o := by
  cases site with
  | resume => exact List.forall_mem_nil _
  | pause r finish => cases finish <;> exact List.forall_mem_singleton.mpr (by constructor)
  | write site =>
    dsimp only [afterRefresh]
    split
    · cases site with
      | guarded => exact List.forall_mem_nil _
      | _ => exact List.forall_mem_singleton.mpr (by constructor)
    · exact List.forall_mem_singleton.mpr .refreshFailed
  | flush r readAllowed =>
    dsimp only [afterRefresh]
    split
    · cases readAllowed <;> exact List.forall_mem_singleton.mpr (by constructor)
    · exact List.forall_mem_singleton.mpr .refreshClosed

theorem visits_next {c : Nat} (hVisit : visitable s c) (h : visits s c ops) : ∀ o ∈ ops, Next opts s .runReactor o := by
  obtain rfl | ⟨readAllowed, hAllowed, rfl | rfl⟩ := h
  · exact List.forall_mem_singleton.mpr .reactorCloses
  · exact List.forall_mem_singleton.mpr (.reactorFlushes hVisit hAllowed)
  · cases readAllowed with
    | true => exact List.forall_mem_singleton.mpr (.reactorReads hVisit (hAllowed rfl))
    | false => exact List.forall_mem_singleton.mpr (.reactorLeaves hVisit)

theorem admission_next {c : Nat} {n : UInt64} {route : Nat} {site : AdmissionSite}
    (h : ops = afterAllocationFailed opts c n site ∨ ops = afterStopping opts c n site ∨
      ops = afterBusy opts c n site) :
    ∀ o ∈ ops, Next opts s (.enqueueSerializedJob c n route site) o := by
  cases site with
  | dispatch r =>
    have hReleases := @giveBack_next opts s (.enqueueSerializedJob c n route (.dispatch r)) c n .admissionReleases
    obtain rfl | rfl | rfl := h
    · exact List.forall_mem_append.mpr ⟨hReleases, List.forall_mem_singleton.mpr .allocationFailed⟩
    · exact List.forall_mem_append.mpr
        ⟨hReleases, List.forall_mem_cons.mpr ⟨.admissionCloses, List.forall_mem_singleton.mpr .admissionStopped⟩⟩
    · exact List.forall_mem_append.mpr ⟨hReleases, List.forall_mem_singleton.mpr .busy⟩
  | continuation =>
    obtain rfl | rfl | rfl := h
    · exact List.forall_mem_cons.mpr ⟨.admissionCloses, List.forall_mem_singleton.mpr .admissionCompletes⟩
    · exact List.forall_mem_cons.mpr ⟨.admissionCloses, List.forall_mem_singleton.mpr .admissionCompletes⟩
    · exact List.forall_mem_singleton.mpr .busyContinuation

theorem exec_next (h : exec opts s op choice = some (t, ops)) : ∀ o ∈ ops, Next opts s op o := by
  cases exec_outcome h with
  | resumePausedConnections =>
    intro o ho
    obtain ⟨k, -, rfl⟩ := List.mem_map.mp ho
    exact .resumed
  | pauseRecheck hAbove => exact List.forall_mem_singleton.mpr (.pauseConnectionReads hAbove.2.2)
  | refreshConnectionEvents modified => exact afterRefresh_next
  | closeConnection =>
    refine List.forall_mem_append.mpr ⟨?_, ?_⟩
    · split
      · exact List.forall_mem_singleton.mpr .closeReleases
      · exact List.forall_mem_nil _
    · split
      · rename_i hReactor
        subst hReactor
        exact List.forall_mem_singleton.mpr .closed
      · exact List.forall_mem_nil _
  | jobFailed =>
    exact List.forall_mem_append.mpr ⟨giveBack_next .jobReleases, List.forall_mem_singleton.mpr .jobThrows⟩
  | @jobRefused c r n isStream =>
    refine List.forall_mem_append.mpr ⟨giveBack_next .jobReleases, List.forall_mem_cons.mpr ⟨.jobCloses, ?_⟩⟩
    cases isStream <;> exact List.forall_mem_singleton.mpr (by constructor)
  | reactorLoops rest hLoops => obtain rfl | rfl | ⟨c, rfl⟩ := hLoops <;> simp <;> constructor
  | reactorVisits c rest hVisit hVisits => exact visits_next hVisit hVisits
  | accept c added hAccept =>
    obtain ⟨-, -, rfl, -⟩ := acceptConnection_cases hAccept
    exact List.forall_mem_singleton.mpr .reactorLoops
  | parse hParsed => cases hParsed <;> exact List.forall_mem_singleton.mpr (by constructor)
  | allocationFailed => exact admission_next (.inl rfl)
  | serializedStopping => exact admission_next (.inr (.inl rfl))
  | serializedBusy => exact admission_next (.inr (.inr rfl))
  | @admitted c n route site latestWins =>
    refine List.forall_mem_append.mpr ⟨?_, ?_⟩
    · intro o ho
      obtain ⟨job, hIn, hJob⟩ := List.mem_flatMap.mp ho
      simp only [finishSuperseded, List.mem_cons, List.not_mem_nil, or_false] at hJob
      obtain rfl | rfl := hJob
      · exact .superseded
      · exact .supersededSub (List.mem_filter.mp hIn).1
    · cases site <;> exact List.forall_mem_singleton.mpr (by constructor)
  | takeStream job rest hJobs hStream =>
    refine List.forall_mem_cons.mpr ⟨.takeStream ?_ hStream, List.forall_mem_singleton.mpr .workerLoop⟩
    exact hJobs ▸ List.mem_cons_self
  | takeRequest job rest hJobs hRegular =>
    refine List.forall_mem_cons.mpr ⟨.takeRequest, List.forall_mem_cons.mpr ⟨.complete ?_ hRegular, ?_⟩⟩
    · exact hJobs ▸ List.mem_cons_self
    · exact List.forall_mem_singleton.mpr .workerLoop
  | serializedWorkerLoop index job hJob =>
    refine List.forall_mem_cons.mpr ⟨.serializedExecute, List.forall_mem_cons.mpr ⟨.subSerialized ?_, ?_⟩⟩
    · exact List.mem_of_getElem? hJob
    · exact List.forall_mem_singleton.mpr .serializedWorkerLoop
  | completeRegularRequest | addTotal | serveFixedRequest | exchangeReserved =>
    exact List.forall_mem_cons.mpr ⟨by constructor, List.forall_mem_singleton.mpr (by constructor)⟩
  | writeOverflow =>
    refine List.forall_mem_cons.mpr ⟨.overflowClosing, List.forall_mem_cons.mpr ⟨.overflowClosed, ?_⟩⟩
    exact List.forall_mem_singleton.mpr .threw
  | _ => first | exact List.forall_mem_nil _ | exact List.forall_mem_singleton.mpr (by constructor <;> assumption)

end Successors

theorem initial_pending {system : Threads State Op} (h : Initial system) {op : Op} (hOp : op ∈ system.pending) :
    op = .runReactor ∨ op = .workerLoop ∨ op = .serializedWorkerLoop ∨ op = .stopRunning := by
  obtain ⟨-, others, hIdle, hPrograms⟩ := h
  obtain ⟨program, hProgram, hIn⟩ := Threads.mem_pending.mp hOp
  rw [hPrograms, List.mem_cons, List.mem_map] at hProgram
  obtain rfl | ⟨o, ho, rfl⟩ := hProgram
  · exact .inl (List.mem_singleton.mp hIn)
  · obtain rfl := List.mem_singleton.mp hIn
    have hStart := hIdle op ho
    cases op with
    | workerLoop => exact .inr (.inl rfl)
    | serializedWorkerLoop => exact .inr (.inr (.inl rfl))
    | stopRunning => exact .inr (.inr (.inr rfl))
    | _ => cases hStart

end EasyUds.Server.Outcomes

import EasyUds.Server.Outcomes

/-! # What an operation leaves alone

Every operation writes only some fields of a connection and only some of the queues. `exec_keeps` says
which ones once and for all, so that an invariant is argued only at the operations that write what it
speaks about.
-/

namespace EasyUds.Server.Footprint

open Lib Server.Core Server.Steps Server.Outcomes

inductive Field
  | registration
  | parser
  | reservation
  | reactorBusy
  | readPaused
  | streamActive
  | workerOwned
  | closing
  | account
  | output
  | table
  | resumed
  | jobs
  | serializedJobs
  | total
  deriving DecidableEq, Repr

/-- The fields an operation may write. The identity of the `ReactorConnection`, `pendingInput` and
`sessionCapable` are not tracked. -/
def writes : Op → List Field
  | .releaseConnectionRequest .. | .releaseConnectionRequestBytes .. | .subRequests .. => [.account]
  | .reserveConnection .. | .unreserveConnection .. | .completeRegularRequest .. => [.account]
  | .addActive .. | .addRequests .. | .addBytes .. | .subSerialized .. => [.account]
  | .subTotal .. | .reserveTotal .. | .addTotal .. => [.total]
  | .resumePausedConnections .. => [.readPaused, .resumed]
  | .pauseConnectionReads .. => [.readPaused]
  | .refreshConnectionEvents .. => [.registration, .closing]
  | .writeFixedResponse .. | .flushConnectionOutput .. => [.output, .closing]
  | .threw .. | .setClosing .. | .continueConnection .. | .runStreamExchange .. => [.closing]
  | .closeConnection .. => [.reservation, .closing, .registration, .output, .table]
  | .dispatchRequest .. => [.reservation]
  | .dispatchStream .. => [.reservation, .closing]
  | .streamLease .. => [.registration, .streamActive]
  | .enqueueWorkerJob .. => [.jobs, .account, .total]
  | .runReactor => [.registration, .reactorBusy, .resumed, .table]
  | .beginPayload .. | .finishRequest .. => [.parser]
  | .parse .. => [.parser, .closing]
  | .payloadReserved .. => [.parser, .reservation]
  | .reactorDone .. => [.reactorBusy]
  | .workerLoop => [.jobs]
  | .acquireLease .. => [.registration, .workerOwned, .closing]
  | .rearmLocked .. =>
    [.registration, .parser, .reservation, .reactorBusy, .readPaused, .streamActive, .workerOwned, .closing,
      .table]
  | .enqueueSerializedJob .. => [.serializedJobs, .account, .total]
  | .serializedWorkerLoop => [.serializedJobs]
  | _ => []

def erase (fields : List Field) (k : Connection) : Connection :=
  { registeredEvents := if .registration ∈ fields then ⟨true, false⟩ else k.registeredEvents
    watched := if .registration ∈ fields then none else k.watched
    phase := if .parser ∈ fields then .header else k.phase
    payloadTotal := if .parser ∈ fields then 0 else k.payloadTotal
    arg1 := if .parser ∈ fields then 0 else k.arg1
    reservedRequestBytes := if .reservation ∈ fields then 0 else k.reservedRequestBytes
    reactorBusy := if .reactorBusy ∈ fields then false else k.reactorBusy
    readPaused := if .readPaused ∈ fields then false else k.readPaused
    streamActive := if .streamActive ∈ fields then false else k.streamActive
    workerOwned := if .workerOwned ∈ fields then false else k.workerOwned
    closing := if .closing ∈ fields then false else k.closing
    activeRegular := if .account ∈ fields then 0 else k.activeRegular
    pendingSerialized := if .account ∈ fields then 0 else k.pendingSerialized
    inflightRequests := if .account ∈ fields then 0 else k.inflightRequests
    inflightRequestBytes := if .account ∈ fields then 0 else k.inflightRequestBytes
    queuedOutputBytes := if .output ∈ fields then 0 else k.queuedOutputBytes }

def eraseQueues (fields : List Field) (s : State) : State :=
  { table := if .table ∈ fields then [] else s.table
    resumedConnections := if .resumed ∈ fields then [] else s.resumedConnections
    pendingJobs := if .jobs ∈ fields then [] else s.pendingJobs
    pendingSerialized := if .serializedJobs ∈ fields then [] else s.pendingSerialized
    totalInflightRequestBytes := if .total ∈ fields then 0 else s.totalInflightRequestBytes }

structure Keeps (fields : List Field) (s t : State) : Prop where
  connections : ∀ k, erase fields (t.connections k) = erase fields (s.connections k)
  queues : eraseQueues fields t = eraseQueues fields s

variable {opts : Options} {s t : State} {op : Op} {choice : Choice} {ops : List Op} {fields : List Field}
variable {f : Connection → Connection} {c : Nat}

theorem Keeps.refl (s : State) : Keeps fields s s := ⟨fun _ => rfl, rfl⟩

theorem Keeps.trans {u : State} (hFirst : Keeps fields s t) (hSecond : Keeps fields t u) : Keeps fields s u :=
  ⟨fun k => (hSecond.connections k).trans (hFirst.connections k), hSecond.queues.trans hFirst.queues⟩

theorem erase_update {k : Nat} (hf : ∀ k, erase fields (f k) = erase fields k) :
    erase fields ((s.update c f).connections k) = erase fields (s.connections k) := by
  rw [State.update_apply]
  split
  · exact hf _
  · rfl

theorem Keeps.update (hf : ∀ k, erase fields (f k) = erase fields k) (hConnections : t.connections = s.connections)
    (hQueues : eraseQueues fields t = eraseQueues fields s) : Keeps fields s (t.update c f) := by
  refine ⟨fun k => ?_, hQueues⟩
  rw [erase_update hf, hConnections]

theorem Keeps.setClosing (hField : .closing ∈ fields) : Keeps fields s (s.setClosing c) :=
  .update (fun _ => by simp [erase, hField]) rfl rfl

theorem refresh_keeps {modified : Bool} :
    Keeps [.registration, .closing] s (refresh s c modified).1 := by
  obtain ⟨-, h⟩ | ⟨-, -, h⟩ | ⟨-, h⟩ | ⟨-, h⟩ := refresh_cases s c modified <;> rw [h]
  · exact .refl s
  · exact .refl s
  · dsimp only
    exact .update (fun _ => rfl) rfl rfl
  · exact .setClosing (by decide)

theorem afterRefresh_keeps {refreshed : Bool} {site : RefreshSite} :
    Keeps [.registration, .closing] s (afterRefresh s c refreshed site).1 := by
  cases site with
  | resume => exact .refl s
  | pause r finish =>
    cases refreshed with
    | true => exact .refl s
    | false => exact .setClosing (by decide)
  | write site | flush r readAllowed => exact .refl s

theorem accountConnectionRequest_keeps {n : UInt64} (hAccount : .account ∈ fields) (hTotal : .total ∈ fields) :
    Keeps fields s (accountConnectionRequest opts s c n) := by
  unfold accountConnectionRequest
  split
  · exact .update (fun _ => by simp [erase, hAccount]) rfl rfl
  · exact .update (fun _ => by simp [erase, hAccount]) rfl (by simp [eraseQueues, hTotal])

theorem parsed_keeps {r : Nat} {k l : Connection} (h : Parsed opts c r k l ops) :
    erase [.parser, .closing] l = erase [.parser, .closing] k := by
  cases h <;> rfl

theorem exec_keeps (h : exec opts s op choice = some (t, ops)) : Keeps (writes op) s t := by
  cases exec_outcome h with
  | resumePausedConnections =>
    refine ⟨fun k => ?_, rfl⟩
    simp only [resumePausedConnections]
    split <;> rfl
  | refreshConnectionEvents modified => exact refresh_keeps.trans afterRefresh_keeps
  | writeFailed | threwGuarded | threwConsume | threwContinuation | flushFailed | setClosing | streamRefused =>
    exact .setClosing (by simp [writes])
  | closeConnection =>
    unfold close
    split
    · exact .update (fun _ => rfl) rfl rfl
    · exact .refl s
  | queueRequest =>
    refine .trans ?_ (accountConnectionRequest_keeps (by simp [writes]) (by simp [writes]))
    exact .update (fun _ => rfl) rfl rfl
  | accept c added hAccept =>
    obtain ⟨-, -, -, rfl⟩ := acceptConnection_cases hAccept
    exact .update (fun _ => rfl) rfl rfl
  | parse hParsed =>
    refine ⟨fun k => ?_, rfl⟩
    rw [State.update_apply]
    split
    · rename_i hk
      subst hk
      exact parsed_keeps hParsed
    · rfl
  | reactorDone =>
    unfold reactorDone
    dsimp only
    split
    · exact .update (fun _ => rfl) rfl rfl
    · exact .refl s
  | leaseRefused hSame | continueLeaves hSame =>
    obtain rfl | rfl := hSame
    · exact .refl t
    · exact .setClosing (by simp [writes])
  | rearmLocked | rearmRefused => unfold rearm; exact .update (fun _ => rfl) rfl rfl
  | exchangeReserved hSame | exchange hSame =>
    obtain rfl | rfl := hSame
    · exact ⟨fun _ => rfl, rfl⟩
    · exact .update (fun _ => rfl) rfl rfl
  | @admitted _ _ _ site latestWins =>
    cases site with
    | dispatch r =>
      refine .trans ?_ (accountConnectionRequest_keeps (by simp [writes]) (by simp [writes]))
      exact .update (fun _ => rfl) rfl rfl
    | continuation =>
      dsimp only [admitJob]
      exact .update (fun _ => rfl) rfl rfl
  -- The others write nothing, a queue or a total, or some fields of one connection.
  | _ => first | exact .refl _ | exact ⟨fun _ => rfl, rfl⟩ | exact .update (fun _ => rfl) rfl rfl

section Projections

variable (h : Keeps fields s t) (c : Nat)
include h

theorem Keeps.registration (hField : .registration ∉ fields) :
    (t.connections c).registeredEvents = (s.connections c).registeredEvents ∧
      (t.connections c).watched = (s.connections c).watched := by
  have hEq := h.connections c
  constructor
  · simpa [erase, hField] using congrArg Connection.registeredEvents hEq
  · simpa [erase, hField] using congrArg Connection.watched hEq

theorem Keeps.readPaused (hField : .readPaused ∉ fields) :
    (t.connections c).readPaused = (s.connections c).readPaused := by
  simpa [erase, hField] using congrArg Connection.readPaused (h.connections c)

theorem Keeps.streamActive (hField : .streamActive ∉ fields) :
    (t.connections c).streamActive = (s.connections c).streamActive := by
  simpa [erase, hField] using congrArg Connection.streamActive (h.connections c)

theorem Keeps.workerOwned (hField : .workerOwned ∉ fields) :
    (t.connections c).workerOwned = (s.connections c).workerOwned := by
  simpa [erase, hField] using congrArg Connection.workerOwned (h.connections c)

theorem Keeps.closing (hField : .closing ∉ fields) :
    (t.connections c).closing = (s.connections c).closing := by
  simpa [erase, hField] using congrArg Connection.closing (h.connections c)

theorem Keeps.output (hField : .output ∉ fields) :
    (t.connections c).queuedOutputBytes = (s.connections c).queuedOutputBytes := by
  simpa [erase, hField] using congrArg Connection.queuedOutputBytes (h.connections c)

theorem Keeps.reactorBusy (hField : .reactorBusy ∉ fields) :
    (t.connections c).reactorBusy = (s.connections c).reactorBusy := by
  simpa [erase, hField] using congrArg Connection.reactorBusy (h.connections c)

theorem Keeps.parser (hField : .parser ∉ fields) :
    (t.connections c).phase = (s.connections c).phase ∧
      (t.connections c).payloadTotal = (s.connections c).payloadTotal ∧
      (t.connections c).arg1 = (s.connections c).arg1 := by
  have hEq := h.connections c
  refine ⟨?_, ?_, ?_⟩
  · simpa [erase, hField] using congrArg Connection.phase hEq
  · simpa [erase, hField] using congrArg Connection.payloadTotal hEq
  · simpa [erase, hField] using congrArg Connection.arg1 hEq

theorem Keeps.reservation (hField : .reservation ∉ fields) :
    (t.connections c).reservedRequestBytes = (s.connections c).reservedRequestBytes := by
  simpa [erase, hField] using congrArg Connection.reservedRequestBytes (h.connections c)

theorem Keeps.account (hField : .account ∉ fields) :
    (t.connections c).activeRegular = (s.connections c).activeRegular ∧
      (t.connections c).pendingSerialized = (s.connections c).pendingSerialized ∧
      (t.connections c).inflightRequests = (s.connections c).inflightRequests ∧
      (t.connections c).inflightRequestBytes = (s.connections c).inflightRequestBytes := by
  have hEq := h.connections c
  refine ⟨?_, ?_, ?_, ?_⟩
  · simpa [erase, hField] using congrArg Connection.activeRegular hEq
  · simpa [erase, hField] using congrArg Connection.pendingSerialized hEq
  · simpa [erase, hField] using congrArg Connection.inflightRequests hEq
  · simpa [erase, hField] using congrArg Connection.inflightRequestBytes hEq

omit c in
theorem Keeps.total (hField : .total ∉ fields) : t.totalInflightRequestBytes = s.totalInflightRequestBytes := by
  simpa [eraseQueues, hField] using congrArg State.totalInflightRequestBytes h.queues

omit c in
theorem Keeps.serializedJobs (hField : .serializedJobs ∉ fields) :
    t.pendingSerialized = s.pendingSerialized := by
  simpa [eraseQueues, hField] using congrArg State.pendingSerialized h.queues

omit c in
theorem Keeps.jobs (hField : .jobs ∉ fields) : t.pendingJobs = s.pendingJobs := by
  simpa [eraseQueues, hField] using congrArg State.pendingJobs h.queues

omit c in
theorem Keeps.table (hField : .table ∉ fields) : t.table = s.table := by
  simpa [eraseQueues, hField] using congrArg State.table h.queues

end Projections

theorem table_next (h : exec opts s op choice = some (t, ops)) (hTable : c ∈ t.table) :
    c ∈ s.table ∨ (s.connections c = {} ∧ op = .runReactor) ∨ ∃ mayReuse site, op = .rearmLocked c mayReuse site := by
  have hRearmed : ∀ k mayReuse site more added, op = .rearmLocked k mayReuse site →
      c ∈ (rearm s k mayReuse more added).table → c ∈ s.table ∨ ∃ mayReuse site, op = .rearmLocked c mayReuse site := by
    intro k mayReuse site more added hOp hMem
    simp only [rearm, State.update_table] at hMem
    split at hMem
    · exact .inl hMem
    · obtain hMem | hLast := List.mem_append.mp hMem
      · exact .inl hMem
      · exact .inr ⟨mayReuse, site, by rw [hOp, List.mem_singleton.mp hLast]⟩
  by_cases hField : .table ∈ writes op
  · cases exec_outcome h with
    | closeConnection =>
      refine .inl ?_
      unfold close at hTable
      split at hTable
      · dsimp only [State.update] at hTable
        split at hTable
        · exact hTable
        · exact (List.mem_filter.mp hTable).1
      · exact hTable
    | reactorLoops | reactorVisits => exact .inl hTable
    | accept k added hAccept =>
      obtain ⟨-, hNew, -, rfl⟩ := acceptConnection_cases hAccept
      by_cases hc : c = k
      · exact .inr (.inl ⟨hc ▸ hNew, rfl⟩)
      · cases added with
        | true =>
          refine .inl ?_
          simp only [State.update_table, if_true, List.mem_append, List.mem_singleton] at hTable
          exact hTable.resolve_right hc
        | false => exact .inl hTable
    | rearmLocked | rearmRefused => exact (hRearmed _ _ _ _ _ rfl hTable).imp_right .inr
    | _ => simp [writes] at hField
  · rw [(exec_keeps h).table hField] at hTable
    exact .inl hTable

theorem table_stays (h : exec opts s op choice = some (t, ops)) (hTable : c ∈ s.table) :
    c ∈ t.table ∨ (∃ reactor, op = .closeConnection c reactor) ∧ (s.connections c).activeRegular = 0 ∧
      (s.connections c).pendingSerialized = 0 := by
  by_cases hField : .table ∈ writes op
  · cases exec_outcome h with
    | @closeConnection k reactor =>
      unfold close
      split
      · rw [State.update_table]
        split
        · exact .inl hTable
        · rename_i hIdle
          by_cases hc : c = k
          · subst hc
            simp only [not_or, Decidable.not_not] at hIdle
            exact .inr ⟨⟨reactor, rfl⟩, hIdle⟩
          · exact .inl (List.mem_filter.mpr ⟨hTable, by simpa using hc⟩)
      · exact .inl hTable
    | reactorLoops | reactorVisits => exact .inl hTable
    | accept k added hAccept =>
      obtain ⟨-, -, -, rfl⟩ := acceptConnection_cases hAccept
      rw [State.update_table]
      cases added with
      | true => exact .inl (List.mem_append_left _ hTable)
      | false => exact .inl hTable
    | rearmLocked | rearmRefused =>
      simp only [rearm, State.update_table]
      split
      · exact .inl hTable
      · exact .inl (List.mem_append_left _ hTable)
    | _ => simp [writes] at hField
  · exact .inl ((exec_keeps h).table hField ▸ hTable)

theorem table_length_next (h : exec opts s op choice = some (t, ops)) :
    t.table.length ≤ s.table.length ∨ t.table.length ≤ opts.maxConnections ∨
      ∃ c mayReuse site, op = .rearmLocked c mayReuse site ∧ c ∉ s.table := by
  by_cases hField : .table ∈ writes op
  · cases exec_outcome h with
    | closeConnection =>
      refine .inl ?_
      unfold close
      split
      · rw [State.update_table]
        split
        · exact le_rfl
        · exact List.length_filter_le _ _
      · exact le_rfl
    | reactorLoops | reactorVisits => exact .inl le_rfl
    | accept k added hAccept =>
      have hRoom := acceptConnection_room hAccept
      obtain ⟨-, -, -, rfl⟩ := acceptConnection_cases hAccept
      rw [State.update_table]
      cases added with
      | true =>
        refine .inr (.inl ?_)
        simp only [if_true, List.length_append, List.length_singleton]
        omega
      | false => exact .inl le_rfl
    | @rearmLocked k mayReuse site | @rearmRefused k mayReuse site =>
      by_cases hTable : k ∈ s.table
      · exact .inl (by simp [rearm, hTable])
      · exact .inr (.inr ⟨k, mayReuse, site, rfl, hTable⟩)
    | _ => simp [writes] at hField
  · rw [(exec_keeps h).table hField]
    exact .inl le_rfl

theorem closing_update {k : Nat} (h : (s.connections k).closing = true)
    (hf : ∀ k, k.closing = true → (f k).closing = true) :
    ((s.update c f).connections k).closing = true := by
  rw [State.update_apply]
  split
  · exact hf _ h
  · exact h

theorem closing_setClosing {k : Nat} (h : (s.connections k).closing = true) :
    ((s.setClosing c).connections k).closing = true := closing_update h fun _ _ => rfl

theorem closing_refresh {k : Nat} {modified : Bool} (h : (s.connections k).closing = true) :
    ((refresh s c modified).1.connections k).closing = true := by
  obtain ⟨-, hNext⟩ | ⟨-, -, hNext⟩ | ⟨-, hNext⟩ | ⟨-, hNext⟩ := refresh_cases s c modified <;> rw [hNext]
  · exact h
  · exact h
  · dsimp only
    exact closing_update h fun _ hk => hk
  · exact closing_setClosing h

theorem exec_closing (h : exec opts s op choice = some (t, ops)) {k : Nat}
    (hClosing : (s.connections k).closing = true) : (t.connections k).closing = true := by
  by_cases hField : .closing ∈ writes op
  · cases exec_outcome h with
    | @refreshConnectionEvents c site modified =>
      have hRefreshed : ((refresh s c modified).1.connections k).closing = true := closing_refresh hClosing
      cases site with
      | pause r finish =>
        unfold afterRefresh
        dsimp only
        split
        · exact hRefreshed
        · exact closing_setClosing hRefreshed
      | _ => exact hRefreshed
    | closeConnection =>
      unfold close
      split
      · exact closing_update hClosing fun _ _ => rfl
      · exact hClosing
    | parse hParsed =>
      rw [State.update_apply]
      split
      · rename_i hk
        subst hk
        cases hParsed <;> first | rfl | exact hClosing
      · exact hClosing
    | leaseRefused hSame | continueLeaves hSame | exchangeReserved hSame | exchange hSame =>
      obtain rfl | rfl := hSame
      · exact hClosing
      · exact closing_setClosing hClosing
    | rearmLocked | rearmRefused =>
      unfold rearm
      exact closing_update hClosing fun k hk => by simp [hk]
    | _ =>
      first
      | simp [writes] at hField; done
      | exact hClosing
      | exact closing_setClosing hClosing
      | exact closing_update hClosing fun _ hk => hk
  · exact ((exec_keeps h).closing k hField).trans hClosing

end EasyUds.Server.Footprint

import EasyUds.Session.Registration

/-! # Session statistics

`Session::stats` locks the shards one after another while requests go on. A shard's counters and its map
change in one section, so each shard balances by itself at any time, and so does the sum that a walk
collects.
-/

namespace EasyUds.Session.Stats

open Lib Protocol.Codec Session.Model Session.Registration

/-- `SessionStats` with the counters of `StatsMode::basic`. -/
structure Snapshot where
  inflightRequests : UInt64
  counters : CounterShard
  deriving DecidableEq, Repr

structure Walk where
  index : Nat
  snapshot : Snapshot
  deriving DecidableEq, Repr

structure Observed where
  session : State
  walks : List Walk
  deriving DecidableEq, Repr

inductive Action
  | session (action : Model.Action)
  | stats
  | visit (walk : Nat)
  deriving DecidableEq, Repr

def emptySnapshot : Snapshot where
  inflightRequests := 0
  counters := ⟨0, 0, 0, 0⟩

def Snapshot.add (snapshot : Snapshot) (shard : Shard) : Snapshot where
  inflightRequests := snapshot.inflightRequests + UInt64.ofNat shard.inflight.length
  counters :=
    { requestsStarted := snapshot.counters.requestsStarted + shard.counters.requestsStarted
      requestsCompleted := snapshot.counters.requestsCompleted + shard.counters.requestsCompleted
      requestsTimedOut := snapshot.counters.requestsTimedOut + shard.counters.requestsTimedOut
      requestsFailed := snapshot.counters.requestsFailed + shard.counters.requestsFailed }

def visitStep (s : State) (walk : Walk) : Option Walk :=
  if shardLocked s walk.index then none
  else s.shards[walk.index]?.map fun shard => ⟨walk.index + 1, walk.snapshot.add shard⟩

def step (opts : Options) (o : Observed) : Action → Option Observed
  | .session action => (Model.step opts o.session action).map fun session => { o with session }
  | .stats => some { o with walks := o.walks ++ [⟨0, emptySnapshot⟩] }
  | .visit walk =>
    (o.walks[walk]?.bind (visitStep o.session)).map fun next => { o with walks := o.walks.set walk next }

structure Initial (o : Observed) : Prop where
  session : Model.Initial o.session
  counters : ∀ shard ∈ o.session.shards, shard.counters = ⟨0, 0, 0, 0⟩
  walks : o.walks = []

def machine (opts : Options) : Machine Observed Action where
  initial := Initial
  step := step opts

def ended (counters : CounterShard) : UInt64 :=
  counters.requestsCompleted + counters.requestsTimedOut + counters.requestsFailed

def Balanced (counters : CounterShard) (inflight : UInt64) : Prop :=
  counters.requestsStarted = ended counters + inflight

def Shard.Balanced (shard : Shard) : Prop := Stats.Balanced shard.counters (UInt64.ofNat shard.inflight.length)

def BalancedShards (s : State) : Prop := ∀ shard ∈ s.shards, Shard.Balanced shard

variable {opts : Options} {s t : State} {index : Nat} {call : Call}

theorem balanced_updateShard {k : Nat} {f : Shard → Shard} (h : BalancedShards s)
    (hShard : ∀ shard, s.shards[k]? = some shard → Shard.Balanced (f shard)) :
    BalancedShards (updateShard s k f) := by
  intro next hNext
  obtain ⟨j, hj⟩ := List.mem_iff_getElem?.mp hNext
  rw [updateShard, List.getElem?_modify] at hj
  obtain ⟨shard, hOld, rfl⟩ := Option.map_eq_some_iff.mp hj
  split
  · rename_i hEq
    exact hShard shard (hEq ▸ hOld)
  · exact h shard (List.mem_of_getElem? hOld)

theorem length_erase {shard : Shard} {requestId : UInt32} {holder : Nat}
    (hKeys : (shard.inflight.map Prod.fst).Nodup) (hEntry : (requestId, holder) ∈ shard.inflight) :
    (erase requestId shard).inflight.length + 1 = shard.inflight.length := by
  have hOne : shard.inflight.countP (·.1 == requestId) = 1 := by
    have hCount := List.count_eq_one_of_mem hKeys (List.mem_map_of_mem hEntry)
    rwa [List.count, List.countP_map] at hCount
  have hSplit := List.length_eq_countP_add_countP (·.1 == requestId) (l := shard.inflight)
  rw [erase, ← List.countP_eq_length_filter]
  have hRest : shard.inflight.countP (fun entry => entry.1 != requestId) =
      shard.inflight.countP (fun entry => decide ¬(entry.1 == requestId) = true) :=
    List.countP_congr fun entry _ => by simp
  omega

theorem eraseStep_balanced (hStats : opts.stats = true) (hInv : Inv s) (h : BalancedShards s)
    (hCall : s.calls[index]? = some call) (hHolds : registration call = .holding call.requestId)
    {f : CounterShard → CounterShard} {pc : CallPc} (hStep : eraseStep opts s index call f pc = some t)
    (hCounts : ∀ counters, ended (f counters) = ended counters + 1 ∧
      (f counters).requestsStarted = counters.requestsStarted) : BalancedShards t := by
  unfold eraseStep at hStep
  split at hStep
  · cases hStep
  · cases hStep
    refine balanced_updateShard h fun shard hShard => ?_
    have hPhase : (table s).phase index = .holding call.requestId := (table_phase hCall).trans hHolds
    have hEntry := hInv.table.held index call.requestId hPhase
    have hKeys := hInv.table.keys (shardFor s call.requestId)
    change (call.requestId, index) ∈ (table s).entries (shardFor s call.requestId) at hEntry
    rw [← entries_eq hShard] at hEntry hKeys
    have hLength := length_erase hKeys hEntry
    have hOld := h shard (List.mem_of_getElem? hShard)
    obtain ⟨hEnded, hStarted⟩ := hCounts shard.counters
    rw [count, if_pos hStats]
    change (f shard.counters).requestsStarted =
      ended (f shard.counters) + UInt64.ofNat (erase call.requestId shard).inflight.length
    rw [Shard.Balanced, Balanced, ← hLength, UInt64.ofNat_add] at hOld
    rw [hStarted, hOld, hEnded]
    ac_rfl

theorem insertStep_balanced (hStats : opts.stats = true) (h : BalancedShards s) (requestId : UInt32) :
    BalancedShards (insertStep opts s index call requestId) := by
  unfold insertStep
  split
  · exact balanced_updateShard h fun shard hShard => h shard (List.mem_of_getElem? hShard)
  · refine balanced_updateShard h fun shard hShard => ?_
    have hOld := h shard (List.mem_of_getElem? hShard)
    rw [count, if_pos hStats]
    change shard.counters.requestsStarted + 1 = ended shard.counters + UInt64.ofNat (shard.inflight.length + 1)
    rw [Shard.Balanced, Balanced] at hOld
    rw [UInt64.ofNat_add, hOld]
    ac_rfl

theorem countFinished_ended (call : Call) (counters : CounterShard) :
    ended (countFinished call counters) = ended counters + 1 ∧
      (countFinished call counters).requestsStarted = counters.requestsStarted := by
  unfold countFinished ended
  split
  · exact ⟨by dsimp only; ac_rfl, rfl⟩
  · split <;> exact ⟨by dsimp only; ac_rfl, rfl⟩

theorem sendStep_shards {frame unsent : List UInt8} {event : Event} {next : Nat → CallPc} {failed : Exception → CallPc}
    (hStep : sendStep s index call frame unsent event next failed = some t) : t.shards = s.shards := by
  unfold sendStep at hStep
  split at hStep
  · split at hStep
    · cases hStep
    · cases hStep
      split <;> rfl
  · cases hStep
    rfl
  · cases hStep
    rfl
  · cases hStep

theorem lockSendMutex_shards {next : State → State} (hStep : (lockSendMutex s index).map next = some t)
    (hNext : ∀ locked, (next locked).shards = locked.shards) : t.shards = s.shards := by
  unfold lockSendMutex at hStep
  split at hStep
  · cases hStep
  · cases hStep
    exact hNext _

theorem callStep_balanced (hStats : opts.stats = true) (hInv : Inv s) (h : BalancedShards s)
    (hCall : s.calls[index]? = some call) {event : Event} (hStep : callStep opts s index call event = some t) :
    BalancedShards t := by
  have hSame : t.shards = s.shards → BalancedShards t := fun hShards => by rwa [BalancedShards, hShards]
  unfold callStep at hStep
  split at hStep
  case h_3 requestId _ =>
    unfold registerStep at hStep
    split at hStep
    · cases hStep
    · split at hStep
      · cases hStep
        exact h
      · cases hStep
        exact balanced_updateShard h fun shard hShard => h shard (List.mem_of_getElem? hShard)
  case h_4 requestId _ =>
    cases hStep
    exact insertStep_balanced hStats h requestId
  case h_5 | h_11 => exact hSame (lockSendMutex_shards hStep fun _ => rfl)
  case h_6 | h_12 => exact hSame (sendStep_shards hStep)
  case h_8 hPc =>
    exact eraseStep_balanced hStats hInv h hCall (by simp [registration, hPc]) hStep fun counters =>
      ⟨(UInt64.add_assoc ..).symm, rfl⟩
  case h_16 hPc =>
    exact eraseStep_balanced hStats hInv h hCall (by simp [registration, hPc]) hStep (countFinished_ended call)
  case h_10 | h_15 =>
    split at hStep <;> (try split at hStep) <;> cases hStep
    all_goals exact h
  case h_19 => cases hStep
  all_goals
    cases hStep
    exact h

theorem step_balanced (hStats : opts.stats = true) (hInv : Inv s) (h : BalancedShards s) {action : Model.Action}
    (hStep : Model.step opts s action = some t) : BalancedShards t := by
  cases action with
  | request route body cancellable =>
    rw [Model.step] at hStep
    split at hStep
    · cases hStep
    · split at hStep
      · cases hStep
        exact h
      · cases hStep
  | call index event =>
    rw [Model.step] at hStep
    split at hStep
    · cases hStep
    · rename_i call hCall
      exact callStep_balanced hStats hInv h hCall hStep
  | reader event =>
    cases readerStep_cases hStep with
    | visit shard reason =>
      rw [BalancedShards, (failShard_shards shard reason).1]
      exact h
    | _ => exact h

structure WalkInv (o : Observed) : Prop where
  session : Inv o.session
  shards : BalancedShards o.session
  walks : ∀ walk ∈ o.walks, Balanced walk.snapshot.counters walk.snapshot.inflightRequests

theorem Snapshot.add_balanced {snapshot : Snapshot} {shard : Shard}
    (hSnapshot : Balanced snapshot.counters snapshot.inflightRequests)
    (hShard : Shard.Balanced shard) :
    Balanced (snapshot.add shard).counters (snapshot.add shard).inflightRequests := by
  unfold Shard.Balanced at hShard
  unfold Balanced ended at *
  simp only [Snapshot.add, hSnapshot, hShard]
  ac_rfl

theorem WalkInv.next (hStats : opts.stats = true) {o p : Observed} {action : Action} (hInv : WalkInv o)
    (h : step opts o action = some p) : WalkInv p := by
  cases action with
  | session action =>
    obtain ⟨session, hStep, rfl⟩ := Option.map_eq_some_iff.mp h
    exact ⟨hInv.session.next hStep, step_balanced hStats hInv.session hInv.shards hStep, hInv.walks⟩
  | stats =>
    cases h
    refine ⟨hInv.session, hInv.shards, fun walk hWalk => ?_⟩
    rcases List.mem_append.mp hWalk with hOld | hNew
    · exact hInv.walks walk hOld
    · rw [List.mem_singleton.mp hNew]
      rfl
  | visit index =>
    obtain ⟨next, hVisit, rfl⟩ := Option.map_eq_some_iff.mp h
    obtain ⟨walk, hWalk, hStep⟩ := Option.bind_eq_some_iff.mp hVisit
    unfold visitStep at hStep
    split at hStep
    · cases hStep
    · obtain ⟨shard, hShard, rfl⟩ := Option.map_eq_some_iff.mp hStep
      refine ⟨hInv.session, hInv.shards, fun other hOther => ?_⟩
      rcases List.mem_or_eq_of_mem_set hOther with hOld | rfl
      · exact hInv.walks other hOld
      · exact Snapshot.add_balanced (hInv.walks walk (List.mem_of_getElem? hWalk))
          (hInv.shards shard (List.mem_of_getElem? hShard))

theorem WalkInv.start {o : Observed} (h : Initial o) : WalkInv o where
  session := .start h.session
  shards := fun shard hShard => by
    rw [Shard.Balanced, Balanced, h.counters shard hShard, (h.session.shards shard hShard).1]
    rfl
  walks := by
    rw [h.walks]
    exact fun _ hWalk => absurd hWalk List.not_mem_nil

/-- Every call of `stats`, whether it has returned or is under way, has collected a balanced snapshot. -/
theorem snapshot_balanced (hStats : opts.stats = true) {o : Observed} (h : (machine opts).Reachable o) :
    ∀ walk ∈ o.walks, walk.snapshot.counters.requestsStarted =
      walk.snapshot.counters.requestsCompleted + walk.snapshot.counters.requestsTimedOut +
        walk.snapshot.counters.requestsFailed + walk.snapshot.inflightRequests :=
  (h.invariant (I := WalkInv) (fun _ => WalkInv.start) fun _ _ _ _ hInv _ hStep => hInv.next hStats hStep).walks

def basic : Options where
  maxMessageSize := 64
  protocolVersion := 3
  stats := true

def twoShards : Observed where
  session :=
    { wire := []
      started := []
      tickets := 0
      shutdown := false
      broken := false
      sendMutex := none
      nextId := 1
      shards := List.replicate 2 ⟨[], none, ⟨0, 0, 0, 0⟩⟩
      calls := []
      reader := .reading }
  walks := []

theorem twoShards_initial : (machine basic).initial twoShards :=
  ⟨⟨rfl, rfl, rfl, rfl, rfl, rfl, rfl, by simp [twoShards], by decide, rfl⟩, by simp [twoShards], rfl⟩

theorem snapshot_balanced_racing : ∃ o, (machine basic).Reachable o ∧
    o.walks = [⟨2, ⟨0, ⟨1, 1, 0, 0⟩⟩⟩] ∧ ∀ walk ∈ o.walks, walk.snapshot.counters.requestsStarted =
      walk.snapshot.counters.requestsCompleted + walk.snapshot.counters.requestsTimedOut +
        walk.snapshot.counters.requestsFailed + walk.snapshot.inflightRequests := by
  obtain ⟨o, hReached, hWalks⟩ := Machine.exists_reachable_of_exec (fun o => o.walks = [⟨2, ⟨0, ⟨1, 1, 0, 0⟩⟩⟩])
    ([Action.session (.request [97] [] false), .session (.request [98] [] false)] ++
      List.replicate 5 (Action.session (.call 0 .proceed)) ++ [Action.session (.call 0 (.sent 21)), .stats, .visit 0] ++
      List.replicate 4 (Action.session (.call 1 .proceed)) ++
      [Action.session (.reader (.frame 1 ⟨200, []⟩)), .session (.reader .proceed), .session (.call 0 .done),
        .session (.call 0 .proceed), .visit 0])
    twoShards_initial (by decide +kernel)
  exact ⟨o, hReached, hWalks, snapshot_balanced rfl hReached⟩

end EasyUds.Session.Stats

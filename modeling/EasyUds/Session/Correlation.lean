import EasyUds.Session.Registration

/-! # Responses and their calls

A response reaches the one call that holds its id, and no call is left waiting when the reader has
failed.
-/

namespace EasyUds.Session.Correlation

open Lib Lib.ShardedTable Protocol.Codec Session.Model Session.Registration

variable {opts : Options} {s t : State} {i j : Nat} {call : Call}

def inFlight (call : Call) : Bool :=
  match registration call with
  | .holding _ => true
  | _ => false

theorem inFlight_iff : inFlight call = true ↔ registration call = .holding call.requestId := by
  unfold inFlight registration
  cases call.pc <;> simp

theorem phase_of_inFlight (hCall : s.calls[i]? = some call) (h : inFlight call = true) :
    (table s).phase i = .holding call.requestId :=
  (table_phase hCall).trans (inFlight_iff.mp h)

theorem mem_shards_iff {entry : UInt32 × Nat} :
    (∃ shard ∈ s.shards, entry ∈ shard.inflight) ↔ ∃ k, entry ∈ (table s).entries k := by
  constructor
  · rintro ⟨shard, hShard, hEntry⟩
    obtain ⟨k, hk⟩ := List.mem_iff_getElem?.mp hShard
    exact ⟨k, entries_eq hk ▸ hEntry⟩
  · rintro ⟨k, hEntry⟩
    cases hShard : s.shards[k]? with
    | none => simp [table, hShard] at hEntry
    | some shard => exact ⟨shard, List.mem_of_getElem? hShard, (entries_eq hShard).symm ▸ hEntry⟩

theorem call_of_entry (hInv : Inv s) {k : Nat} {entry : UInt32 × Nat} (hEntry : entry ∈ (table s).entries k) :
    ∃ call, s.calls[entry.2]? = some call ∧ inFlight call = true ∧ call.requestId = entry.1 := by
  have hHolder := (hInv.table.entries k entry hEntry).2
  cases hCall : s.calls[entry.2]? with
  | none => simp [table, hCall] at hHolder
  | some call =>
    rw [table_phase hCall] at hHolder
    have hFlight : inFlight call = true := by rw [inFlight, hHolder]
    rw [inFlight_iff.mp hFlight] at hHolder
    exact ⟨call, rfl, hFlight, Phase.holding.inj hHolder⟩

theorem entry_of_call (hInv : Inv s) (hCall : s.calls[i]? = some call) (hFlight : inFlight call = true) :
    (call.requestId, i) ∈ inflightAt s call.requestId :=
  hInv.table.held i call.requestId (phase_of_inFlight hCall hFlight)

theorem valid_of_reachable (h : (machine opts).Reachable s) : ∀ call ∈ s.calls, Send.Valid opts call := by
  refine Machine.Reached.invariant (I := fun s => ∀ call ∈ s.calls, Send.Valid opts call)
    (fun s (hInit : Initial s) => ?_) (fun s action t _ hValid _ hStep => ?_) h
  · simp [hInit.calls]
  · exact Send.step_valid hValid hStep

theorem registered_of_inFlight (h : inFlight call = true) : Send.registered call.pc = true := by
  unfold inFlight registration at h
  cases hPc : call.pc <;> simp_all [Send.registered]

theorem completed_stable (hReachable : (machine opts).Reachable s) {slot : Slot} (hSlot : slotAt s i = some slot)
    (hDone : slot.done = true) (h : (machine opts).Leads (fun _ _ => True) s t) : slotAt t i = some slot := by
  induction h with
  | refl => exact hSlot
  | @next middle last action hLeads hGuard hStep ih =>
    have hNext := (step_next hStep (reachable_inv (hReachable.leads hLeads))).slots i
    rw [ih] at hNext
    generalize slotAt last i = after at hNext
    cases hNext with
    | same => rfl
    | response _ _ hOpen | error _ _ hOpen => simp [hDone] at hOpen

/-- A response that passes the reader's tests is stored in the slot of the call that holds its id. -/
def Stored (s t : State) (requestId : UInt32) (response : Response) : Prop :=
  ∃ (i : Nat) (call : Call), s.calls[i]? = some call ∧ inFlight call = true ∧ call.requestId = requestId ∧
    call.slot.done = false ∧
    t = setCall { s with reader := .reading } i
      { call with slot := { call.slot with response := some response, done := true } }

/-- The frame at hand goes to the call that holds its id, or the reader fails. The reader waits for nothing but
the mutex of the shard. -/
structure Correlated (opts : Options) (s : State) : Prop where
  unique : ∀ (i j : Nat) call other, s.calls[i]? = some call → s.calls[j]? = some other → inFlight call = true →
    inFlight other = true → call.requestId = other.requestId → i = j
  nonzero : ∀ call ∈ s.calls, inFlight call = true → call.requestId ≠ 0
  accepts : ∀ requestId response, s.reader = .reading → response.status.toNat ≤ 2 ^ 31 - 1 →
    response.body.length ≤ opts.maxMessageSize →
    step opts s (.reader (.frame requestId response)) = some { s with reader := .deliver requestId response }
  delivery : ∀ requestId response event, s.reader = .deliver requestId response →
    if shardLocked s (shardFor s requestId) then step opts s (.reader event) = none
    else ∃ t, step opts s (.reader event) = some t ∧ (Stored s t requestId response ∨
      (∀ call ∈ s.calls, inFlight call = true → call.requestId = requestId → call.slot.done = true) ∧
        ∃ reason, t = { s with reader := .failedStore reason })
  breaks : ∀ reason event, s.reader = .failedStore reason → ∃ t, step opts s (.reader event) = some t ∧
    t.broken = true ∧ t.calls = s.calls
  once : ∀ i slot t, slotAt s i = some slot → slot.done = true → (machine opts).Leads (fun _ _ => True) s t →
    slotAt t i = some slot
  erased : ∀ (i : Nat) call, s.calls[i]? = some call → inFlight call = false →
    ∀ shard ∈ s.shards, ∀ entry ∈ shard.inflight, entry.2 ≠ i
  returned : ∀ call ∈ s.calls, ∀ outcome, call.pc = .returned outcome → inFlight call = false

theorem delivery_cases (hInv : Inv s) {requestId : UInt32} {response : Response} {event : Event}
    (hReader : s.reader = .deliver requestId response) (h : step opts s (.reader event) = some t) :
    Stored s t requestId response ∨
    (∀ call ∈ s.calls, inFlight call = true → call.requestId = requestId → call.slot.done = true) ∧
      ∃ reason, t = { s with reader := .failedStore reason } := by
  cases readerStep_cases h with
  | delivered id value index call hSame hEntry hCall hOpen =>
    cases hReader.symm.trans hSame
    obtain ⟨other, hOther, hFlight, hId⟩ := call_of_entry hInv hEntry
    cases hCall.symm.trans hOther
    exact .inl ⟨index, call, hCall, hFlight, hId, hOpen, rfl⟩
  | unknown id value reason hSame hNone =>
    cases hReader.symm.trans hSame
    refine .inr ⟨fun call hMem hFlight hId => ?_, reason, rfl⟩
    obtain ⟨i, hCall⟩ := List.mem_iff_getElem?.mp hMem
    subst hId
    exact absurd rfl (hNone _ (entry_of_call hInv hCall hFlight))
  | duplicate id value index reason hSame hEntry hDone =>
    cases hReader.symm.trans hSame
    refine .inr ⟨fun call hMem hFlight hId => ?_, reason, rfl⟩
    obtain ⟨i, hCall⟩ := List.mem_iff_getElem?.mp hMem
    subst hId
    have hHolder := (hInv.table.entry_of_holder hEntry).2
    cases hInv.table.holder_unique (phase_of_inFlight hCall hFlight) hHolder
    exact hDone call hCall
  | received id value hSame | rejected reason hSame | failed reason hSame | visit shard reason hSame
  | finish shard reason hSame => cases hReader.symm.trans hSame

theorem session_correlation (h : (machine opts).Reachable s) : Correlated opts s where
  unique i j call other hCall hOther hFlight hFlight' hId :=
    (reachable_inv h).table.holder_unique (phase_of_inFlight hCall hFlight)
      (hId ▸ phase_of_inFlight hOther hFlight')
  nonzero call hMem hFlight := (valid_of_reachable h call hMem).requestId (registered_of_inFlight hFlight)
  accepts requestId response hReader hStatus hBody := by
    simp only [step, readerStep, hReader]
    rw [if_neg (Nat.not_lt.mpr hStatus), if_neg (Nat.not_lt.mpr hBody)]
  delivery requestId response event hReader := by
    have hStep : step opts s (.reader event) =
        if shardLocked s (shardFor s requestId) then none else some (deliverStep s requestId response) := by
      simp only [step, readerStep, hReader]
    split
    · rename_i hLocked
      rw [hStep, if_pos hLocked]
    · rename_i hFree
      rw [if_neg hFree] at hStep
      exact ⟨_, hStep, delivery_cases (reachable_inv h) hReader hStep⟩
  breaks reason event hReader := by
    simp only [step, readerStep, hReader]
    exact ⟨_, rfl, rfl, rfl⟩
  once i slot t hSlot hDone hLeads := completed_stable h hSlot hDone hLeads
  erased i call hCall hOut shard hShard entry hEntry hIndex := by
    obtain ⟨k, hk⟩ := mem_shards_iff.mp ⟨shard, hShard, hEntry⟩
    obtain ⟨other, hOther, hFlight, -⟩ := call_of_entry (reachable_inv h) hk
    rw [hIndex, hCall] at hOther
    cases hOther
    simp [hOut] at hFlight
  returned call _ outcome hPc := by simp [inFlight, registration, hPc]

def wrapping : State := { Send.connected with nextId := 0xffffffff }

theorem wrapping_initial : (machine Send.smallOptions).initial wrapping :=
  ⟨rfl, rfl, rfl, rfl, rfl, rfl, rfl, by simp [wrapping, Send.connected], by decide, rfl⟩

/-- The first call takes the last id; the second one draws 0 and then 1, and gets its response. -/
theorem session_correlation_wrapped : ∃ s, (machine Send.smallOptions).Reachable s ∧
    s.calls.map (fun call => (call.requestId, inFlight call, call.slot.response)) =
      [(0xffffffff, true, none), (1, true, some ⟨200, []⟩)] ∧ Correlated Send.smallOptions s := by
  obtain ⟨s, hReached, hCalls⟩ := Machine.exists_reachable_of_exec
    (fun s => s.calls.map (fun call => (call.requestId, inFlight call, call.slot.response)) =
      [(0xffffffff, true, none), (1, true, some ⟨200, []⟩)])
    ([Action.request [97] [] false, .request [98] [] false] ++ List.replicate 4 (Action.call 0 .proceed) ++
      List.replicate 5 (Action.call 1 .proceed) ++ [Action.reader (.frame 1 ⟨200, []⟩), .reader .proceed])
    wrapping_initial (by decide +kernel)
  exact ⟨s, hReached, hCalls, session_correlation hReached⟩

/-- When the handler of the reader has finished, every slot in a shard is completed, and nothing is
inserted in a shard that it has visited. -/
theorem failed_session_strands_nobody (h : (machine opts).Reachable s) :
    (s.reader = .finished → ∀ shard ∈ s.shards, ∀ entry ∈ shard.inflight, ∃ call,
      s.calls[entry.2]? = some call ∧ call.slot.done = true ∧
        call.slot.response.isSome = !call.slot.error.isSome) ∧
    (∀ action t, step opts s action = some t → ∀ k < visited s, ∀ entry ∈ (table t).entries k,
      entry ∈ (table s).entries k) ∧
    (s.reader = .finished → ∀ call ∈ s.calls, inFlight call = true → call.slot.done = true) := by
  have hInv := reachable_inv h
  have hEntries : s.reader = .finished → ∀ k, ∀ entry ∈ (table s).entries k, ∃ call,
      s.calls[entry.2]? = some call ∧ call.slot.done = true ∧
        call.slot.response.isSome = !call.slot.error.isSome := by
    intro hFinished k entry hEntry
    obtain ⟨call, hCall, -, -⟩ := call_of_entry hInv hEntry
    have hk : k < visited s := by
      rw [visited, hFinished]
      rw [(hInv.table.entries k entry hEntry).1.symm]
      exact Nat.mod_lt _ hInv.shards
    have hDone : call.slot.done = true := by
      simpa [doneAt, slotAt_of_call hCall] using hInv.swept k hk entry hEntry
    have hSettled := hInv.slots entry.2 call.slot (slotAt_of_call hCall)
    rw [Settled, if_pos hDone] at hSettled
    exact ⟨call, hCall, hDone, hSettled⟩
  refine ⟨fun hFinished shard hShard entry hEntry => ?_, fun action t hStep k hk => ?_,
    fun hFinished call hMem hFlight => ?_⟩
  · obtain ⟨k, hk⟩ := mem_shards_iff.mp ⟨shard, hShard, hEntry⟩
    exact hEntries hFinished k entry hk
  · exact (step_next hStep hInv).table.swept_entries hInv.table hk
  · obtain ⟨i, hCall⟩ := List.mem_iff_getElem?.mp hMem
    obtain ⟨other, hOther, hDone, -⟩ := hEntries hFinished _ _ (entry_of_call hInv hCall hFlight)
    cases hCall.symm.trans hOther
    exact hDone

theorem failed_session_strands_nobody_racing : ∃ s, (machine Send.smallOptions).Reachable s ∧
    s.reader = .finished ∧ s.calls.map (fun call => (inFlight call, call.slot.done)) = [(true, true), (false, false)] ∧
    ∀ call ∈ s.calls, inFlight call = true → call.slot.done = true := by
  obtain ⟨s, hReached, hFinished, hCalls⟩ := Machine.exists_reachable_of_exec
    (fun s => s.reader = .finished ∧
      s.calls.map (fun call => (inFlight call, call.slot.done)) = [(true, true), (false, false)])
    ([Action.request [97] [] false, .request [98] [] false] ++ List.replicate 3 (Action.call 0 .proceed) ++
      List.replicate 2 (Action.call 1 .proceed) ++
        [Action.reader (.failed closedError), .reader .proceed, .reader .proceed,
      .call 0 .proceed, .call 1 .proceed] ++ List.replicate 16 (Action.reader .proceed))
    Send.connected_initial (by decide +kernel)
  exact ⟨s, hReached, hFinished, hCalls, (failed_session_strands_nobody hReached).2.2 hFinished⟩

end EasyUds.Session.Correlation

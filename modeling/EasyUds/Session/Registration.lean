import EasyUds.Lib.ShardedTable
import EasyUds.Session.Send

/-! # The calls of a session and its shards

`inflight_shards` is a table in shards: a call takes the mutex of its id's shard, inserts its slot, and
erases it on every way out. The handler of `session_reader_loop` is the sweeper, and `broken` closes the
table.
-/

namespace EasyUds.Session.Registration

open Lib Lib.ShardedTable Protocol.Codec Session.Model

variable {opts : Options} {s t : State} {index : Nat} {call : Call}

def registration (call : Call) : Phase UInt32 :=
  match call.pc with
  | .checkBroken | .allocate | .register _ | .sendFailedShutdown .. => .outside
  | .timedOutStore | .timedOutShutdown | .returned _ => .outside
  | .insert requestId => .inserting requestId
  | _ => .holding call.requestId

def visited (s : State) : Nat :=
  match s.reader with
  | .visiting shard _ => min shard s.shards.length
  | .finished => s.shards.length
  | _ => 0

def shardOf (shards : Nat) (requestId : UInt32) : Nat := requestId.toNat % shards

def table (s : State) : Table UInt32 where
  entries k := (s.shards[k]?.map Shard.inflight).getD []
  owner k := s.shards[k]?.bind Shard.owner
  phase i := (s.calls[i]?.map registration).getD .outside
  closed := s.broken
  swept := visited s

variable {requestId : UInt32} {shard : Shard} {action : Action} {event : Event} {k : Nat} {new : Call}

theorem table_phase (hCall : s.calls[index]? = some call) : (table s).phase index = registration call := by
  change (s.calls[index]?.map registration).getD .outside = _
  rw [hCall]
  rfl

theorem table_setCall (hCall : s.calls[index]? = some call) (new : Call) :
    table (setCall s index new) =
      { table s with phase := Function.update (table s).phase index (registration new) } := by
  unfold table setCall
  congr 1
  funext other
  by_cases hEq : other = index
  · subst hEq
    rw [Function.update_self, Pool.get_set_self hCall]
    rfl
  · rw [Function.update_of_ne hEq, List.getElem?_set_ne (Ne.symm hEq)]

theorem visited_updateShard (k : Nat) (f : Shard → Shard) : visited (updateShard s k f) = visited s := by
  unfold visited updateShard
  simp only [List.length_modify]

theorem table_updateShard (hShard : s.shards[k]? = some shard) (f : Shard → Shard) :
    table (updateShard s k f) =
      { table s with
        entries := Function.update (table s).entries k (f shard).inflight
        owner := Function.update (table s).owner k (f shard).owner } := by
  have hGet : ∀ j, (updateShard s k f).shards[j]? = if j = k then some (f shard) else s.shards[j]? := by
    intro j
    rw [updateShard, List.getElem?_modify]
    by_cases hEq : j = k
    · subst hEq
      simp [hShard]
    · simp [hEq, Ne.symm hEq]
  unfold table
  simp only [Table.mk.injEq, visited_updateShard, and_true]
  refine ⟨?_, ?_, rfl, rfl⟩
  · funext j
    rw [hGet]
    by_cases hEq : j = k
    · subst hEq
      simp
    · simp [hEq]
  · funext j
    rw [hGet]
    by_cases hEq : j = k
    · subst hEq
      simp
    · simp [hEq]

theorem shard_exists (hShards : 0 < s.shards.length) (requestId : UInt32) :
    ∃ shard, s.shards[shardFor s requestId]? = some shard :=
  ⟨_, List.getElem?_eq_getElem (Nat.mod_lt _ hShards)⟩

theorem owner_of_unlocked (h : ¬ shardLocked s k = true) : (table s).owner k = none := by
  rw [shardLocked, Option.not_isSome_iff_eq_none] at h
  exact h

theorem table_section (hCall : s.calls[index]? = some call) (hShard : s.shards[k]? = some shard) (f : Shard → Shard)
    (new : Call) :
    table (setCall (updateShard s k f) index new) =
      { table s with
        entries := Function.update (table s).entries k (f shard).inflight
        owner := Function.update (table s).owner k (f shard).owner
        phase := Function.update (table s).phase index (registration new) } := by
  rw [table_setCall hCall (s := updateShard s k f), table_updateShard hShard]

theorem entries_eq (hShard : s.shards[k]? = some shard) : shard.inflight = (table s).entries k := by
  simp [table, hShard]

theorem owner_eq (hShard : s.shards[k]? = some shard) : shard.owner = (table s).owner k := by
  simp [table, hShard]

structure CallStep (s t : State) (index : Nat) (call : Call) : Prop where
  calls : ∃ new, t.calls = s.calls.set index new ∧ new.slot = call.slot
  reader : t.reader = s.reader
  shards : t.shards.length = s.shards.length
  broken : s.broken = true → t.broken = true
  table : Step (shardOf s.shards.length) (table s) (table t)

theorem CallStep.quiet (hCall : s.calls[index]? = some call) {base : State} (hCalls : base.calls = s.calls)
    (hShards : base.shards = s.shards) (hReader : base.reader = s.reader)
    (hBroken : base.broken = s.broken ∨ base.broken = true) (hSlot : new.slot = call.slot)
    (hSame : registration new = registration call) : CallStep s (setCall base index new) index call where
  calls := ⟨new, by rw [setCall, hCalls], hSlot⟩
  reader := hReader
  shards := congrArg List.length hShards
  broken hOld := hBroken.elim (fun hEq => hEq.trans hOld) id
  table := by
    have hBase : Registration.table base = { Registration.table s with closed := base.broken } := by
      unfold Registration.table visited
      rw [hShards, hCalls, hReader]
    have hPhase : Function.update (Registration.table s).phase index (registration call) =
        (Registration.table s).phase := by
      rw [← table_phase hCall, Function.update_eq_self]
    have hTable : Registration.table (setCall base index new) =
        { Registration.table s with closed := base.broken } := by
      rw [table_setCall (hCalls ▸ hCall), hSame, hBase]
      simp only [hPhase]
    rw [hTable]
    obtain hEq | hEq := hBroken
    · rw [hEq]
      exact .stutter
    · rw [hEq]
      exact .close

theorem sendStep_registration (hCall : s.calls[index]? = some call) {frame unsent : List UInt8} {next : Nat → CallPc}
    {failed : Exception → CallPc} (hNext : ∀ count, registration { call with pc := next count } = registration call)
    (hFailed : ∀ reason, registration { call with pc := failed reason } = registration call)
    (h : sendStep s index call frame unsent event next failed = some t) : CallStep s t index call := by
  unfold sendStep at h
  split at h
  · split at h
    · cases h
    · cases h
      split
      · exact .quiet hCall rfl rfl rfl (.inl rfl) rfl (hNext _)
      · exact .quiet hCall rfl rfl rfl (.inl rfl) rfl (hNext _)
  · cases h
    refine ⟨⟨call, (Pool.set_self hCall).symm, rfl⟩, rfl, rfl, id, .stutter⟩
  · cases h
    exact .quiet hCall rfl rfl rfl (.inl rfl) rfl (hFailed _)
  · cases h

theorem lock_registration (hCall : s.calls[index]? = some call) {next : CallPc}
    (hNext : registration { call with pc := next } = registration call)
    (h : (lockSendMutex s index).map (fun locked => setCall locked index { call with pc := next }) = some t) :
    CallStep s t index call := by
  unfold lockSendMutex at h
  split at h
  · cases h
  · cases h
    exact .quiet hCall rfl rfl rfl (.inl rfl) rfl hNext

theorem registerStep_registration (hShards : 0 < s.shards.length) (hCall : s.calls[index]? = some call)
    (hPc : call.pc = .register requestId) (h : registerStep s index call requestId = some t) :
    CallStep s t index call := by
  unfold registerStep at h
  split at h
  · cases h
  · rename_i hUnlocked
    split at h
    · cases h
      exact .quiet hCall rfl rfl rfl (.inl rfl) rfl (by simp [registration, hPc])
    · rename_i hOpen
      cases h
      obtain ⟨shard, hShard⟩ := shard_exists hShards requestId
      refine ⟨⟨_, rfl, rfl⟩, rfl, List.length_modify .., id, ?_⟩
      rw [table_section hCall hShard]
      simp only [entries_eq hShard, Function.update_eq_self]
      exact .lock index requestId (by rw [table_phase hCall]; simp [registration, hPc]) (owner_of_unlocked hUnlocked)
        (by simpa [table] using hOpen)

theorem insertStep_registration (hShards : 0 < s.shards.length) (hCall : s.calls[index]? = some call)
    (hPc : call.pc = .insert requestId) :
    CallStep s (insertStep opts s index call requestId) index call := by
  obtain ⟨shard, hShard⟩ := shard_exists hShards requestId
  have hPhase : (table s).phase index = .inserting requestId := by
    rw [table_phase hCall]
    simp [registration, hPc]
  unfold insertStep
  split
  · refine ⟨⟨_, rfl, rfl⟩, rfl, List.length_modify .., id, ?_⟩
    rw [table_section hCall hShard]
    simp only [entries_eq hShard, Function.update_eq_self]
    exact .giveUp index requestId hPhase
  · rename_i hFresh
    refine ⟨⟨_, rfl, rfl⟩, rfl, List.length_modify .., id, ?_⟩
    rw [table_section hCall hShard]
    have hCount : (count opts (fun counters => { counters with requestsStarted := counters.requestsStarted + 1 })
        (insert requestId index shard)).inflight = (requestId, index) :: shard.inflight := by
      unfold count
      split <;> rfl
    simp only [hCount, entries_eq hShard]
    refine .insert index requestId hPhase fun entry hEntry hKey => hFresh ?_
    exact List.any_eq_true.mpr ⟨entry, hEntry, by simpa using hKey⟩

theorem eraseStep_registration (hShards : 0 < s.shards.length) (hCall : s.calls[index]? = some call)
    {f : CounterShard → CounterShard} {pc : CallPc} (hHolds : registration call = .holding call.requestId)
    (hPc : registration { call with pc } = .outside) (h : eraseStep opts s index call f pc = some t) :
    CallStep s t index call := by
  unfold eraseStep at h
  split at h
  · cases h
  · rename_i hUnlocked
    cases h
    obtain ⟨shard, hShard⟩ := shard_exists hShards call.requestId
    refine ⟨⟨_, rfl, rfl⟩, rfl, List.length_modify .., id, ?_⟩
    rw [table_section hCall hShard, hPc]
    have hEntries : (erase call.requestId (count opts f shard)).inflight =
        shard.inflight.filter fun entry => entry.1 ≠ call.requestId := by
      unfold erase count
      split <;> simp [bne, beq_eq_decide]
    have hOwner : (erase call.requestId (count opts f shard)).owner = shard.owner := by
      unfold erase count
      split <;> rfl
    simp only [hEntries, hOwner, entries_eq hShard, owner_eq hShard, Function.update_eq_self]
    exact .erase index call.requestId (by rw [table_phase hCall, hHolds]) (owner_of_unlocked hUnlocked)

theorem registration_finishPc (call : Call) : registration { call with pc := finishPc call } = .outside := by
  unfold finishPc
  split
  · rfl
  · split
    · rfl
    · split <;> rfl

theorem callStep_registration (hShards : 0 < s.shards.length) (hCall : s.calls[index]? = some call)
    (h : callStep opts s index call event = some t) : CallStep s t index call := by
  unfold callStep at h
  split at h
  case h_1 hPc | h_2 hPc =>
    cases h
    refine .quiet hCall rfl rfl rfl (.inl rfl) rfl ?_
    split <;> simp [registration, hPc]
  case h_3 requestId hPc => exact registerStep_registration hShards hCall hPc h
  case h_4 requestId hPc =>
    cases h
    exact insertStep_registration hShards hCall hPc
  case h_5 hPc | h_11 hPc => exact lock_registration hCall (by simp [registration, hPc]) h
  case h_6 hPc | h_12 hPc =>
    refine sendStep_registration hCall (fun count => ?_) (fun _ => ?_) h
    · split <;> simp [registration, hPc]
    · simp [registration, hPc]
  case h_7 hPc | h_13 hPc =>
    cases h
    exact .quiet hCall rfl rfl rfl (.inr rfl) rfl (by simp [registration, hPc])
  case h_8 hPc => exact eraseStep_registration hShards hCall (by simp [registration, hPc]) rfl h
  case h_9 hPc | h_14 hPc | h_18 hPc =>
    cases h
    exact .quiet hCall rfl rfl rfl (.inl rfl) rfl (by simp [registration, hPc])
  case h_10 hPc | h_15 hPc =>
    have hWaiting : registration call = .holding call.requestId := by simp [registration, hPc]
    split at h <;> (try split at h) <;> cases h
    all_goals
      refine .quiet hCall rfl rfl rfl (.inl rfl) rfl ?_
      rw [hWaiting]
      first | rfl | split <;> rfl
  case h_16 hPc =>
    exact eraseStep_registration hShards hCall (by simp [registration, hPc]) (registration_finishPc call) h
  case h_17 hPc =>
    cases h
    exact .quiet hCall rfl rfl rfl (.inr rfl) rfl (by simp [registration, hPc])
  case h_19 => cases h

def failSlot (reason : Exception) (slot : Slot) : Slot :=
  if slot.done then slot else { slot with error := some reason, done := true }

inductive ReaderStep (s : State) : State → Prop
  | received (requestId : UInt32) (response : Response) :
      s.reader = .reading → ReaderStep s { s with reader := .deliver requestId response }
  | rejected (reason : Exception) : s.reader = .reading → ReaderStep s { s with reader := .failedStore reason }
  | delivered (requestId : UInt32) (response : Response) (index : Nat) (call : Call) :
      s.reader = .deliver requestId response → (requestId, index) ∈ inflightAt s requestId →
        s.calls[index]? = some call → call.slot.done = false →
        ReaderStep s (setCall { s with reader := .reading } index
          { call with slot := { call.slot with response := some response, done := true } })
  | unknown (requestId : UInt32) (response : Response) (reason : Exception) :
      s.reader = .deliver requestId response → (∀ entry ∈ inflightAt s requestId, entry.1 ≠ requestId) →
        ReaderStep s { s with reader := .failedStore reason }
  | duplicate (requestId : UInt32) (response : Response) (index : Nat) (reason : Exception) :
      s.reader = .deliver requestId response → (requestId, index) ∈ inflightAt s requestId →
        (∀ call, s.calls[index]? = some call → call.slot.done = true) →
        ReaderStep s { s with reader := .failedStore reason }
  | failed (reason : Exception) :
      s.reader = .failedStore reason → ReaderStep s { s with broken := true, reader := .visiting 0 reason }
  | visit (shard : Nat) (reason : Exception) :
      s.reader = .visiting shard reason → ¬ shardLocked s shard = true → shard < s.shards.length →
        ReaderStep s (failShard { s with reader := .visiting (shard + 1) reason } shard reason)
  | finish (shard : Nat) (reason : Exception) :
      s.reader = .visiting shard reason → ¬ shard < s.shards.length → ReaderStep s { s with reader := .finished }

theorem completeSlot_eq (hCall : s.calls[index]? = some call) (f : Slot → Slot) :
    completeSlot s index f = setCall s index { call with slot := f call.slot } := by
  unfold completeSlot setCall
  congr 1
  refine List.ext_getElem? fun other => ?_
  rw [List.getElem?_modify]
  by_cases hEq : index = other
  · subst hEq
    rw [Pool.get_set_self hCall, hCall]
    simp
  · rw [List.getElem?_set_ne hEq]
    simp [hEq]

theorem deliverStep_cases {response : Response} (hReader : s.reader = .deliver requestId response) :
    ReaderStep s (deliverStep s requestId response) := by
  unfold deliverStep
  split
  · rename_i hFind
    exact .unknown requestId response _ hReader fun entry hEntry hKey =>
      List.find?_eq_none.mp hFind entry hEntry (by simpa using hKey)
  · rename_i entry hFind
    have hMem : (requestId, entry.2) ∈ inflightAt s requestId := by
      obtain rfl : entry.1 = requestId := by simpa using List.find?_some hFind
      exact List.mem_of_find?_eq_some hFind
    split
    · rename_i hDone
      refine .duplicate requestId response entry.2 _ hReader hMem fun call hCall => ?_
      simpa [hCall] using hDone
    · rename_i hOpen
      cases hCall : s.calls[entry.2]? with
      | none => simp [hCall] at hOpen
      | some call =>
        rw [completeSlot_eq hCall (s := { s with reader := .reading })]
        exact .delivered requestId response entry.2 call hReader hMem hCall (by simpa [hCall] using hOpen)

theorem readerStep_cases (h : readerStep opts s event = some t) : ReaderStep s t := by
  unfold readerStep at h
  split at h
  · rename_i hReader
    split at h
    · split at h
      · cases h
        exact .rejected _ hReader
      · split at h
        · cases h
          exact .rejected _ hReader
        · cases h
          exact .received _ _ hReader
    · cases h
      exact .rejected _ hReader
    · cases h
  · rename_i requestId response hReader
    split at h
    · cases h
    · cases h
      exact deliverStep_cases hReader
  · rename_i reason hReader
    cases h
    exact .failed reason hReader
  · rename_i shard reason hReader
    split at h
    · cases h
    · rename_i hUnlocked
      split at h
      · rename_i hLess
        cases h
        exact .visit shard reason hReader hUnlocked hLess
      · rename_i hLess
        cases h
        exact .finish shard reason hReader hLess
  · cases h

theorem failSlot_twice (reason : Exception) (slot : Slot) :
    failSlot reason (failSlot reason slot) = failSlot reason slot := by
  unfold failSlot
  split <;> simp_all

theorem failShard_call (k i : Nat) (reason : Exception) :
    (failShard s k reason).calls[i]? =
      if i ∈ ((table s).entries k).map Prod.snd then
        s.calls[i]?.map fun call => { call with slot := failSlot reason call.slot }
      else s.calls[i]? := by
  change (((table s).entries k).foldl (fun s entry => completeSlot s entry.2 (failSlot reason)) s).calls[i]? = _
  generalize (table s).entries k = entries
  induction entries generalizing s with
  | nil => simp
  | cons entry rest ih =>
    rw [List.foldl_cons, ih, completeSlot, List.getElem?_modify]
    simp only [List.map_cons, List.mem_cons]
    by_cases hEq : entry.2 = i
    · simp only [hEq, if_true, true_or, Option.map_eq_map, Option.map_map]
      split
      · congr 1
        funext call
        exact congrArg (fun slot => ({ call with slot := slot } : Call)) (failSlot_twice reason call.slot)
      · rfl
    · by_cases hMem : i ∈ rest.map Prod.snd
      · rw [if_pos hMem, if_pos (.inr hMem)]
        simp [hEq]
      · rw [if_neg hMem, if_neg (not_or.mpr ⟨Ne.symm hEq, hMem⟩)]
        simp [hEq]

theorem failShard_shards (k : Nat) (reason : Exception) :
    (failShard s k reason).shards = s.shards ∧ (failShard s k reason).reader = s.reader ∧
      (failShard s k reason).broken = s.broken := by
  unfold failShard
  generalize (s.shards[k]?.map Shard.inflight).getD [] = entries
  induction entries generalizing s with
  | nil => exact ⟨rfl, rfl, rfl⟩
  | cons entry rest ih => exact ih

theorem table_failShard (k : Nat) (reason : Exception) : table (failShard s k reason) = table s := by
  obtain ⟨hShards, hReader, hBroken⟩ := @failShard_shards s k reason
  unfold table visited
  rw [hShards, hReader, hBroken]
  congr 1
  funext i
  rw [failShard_call]
  split
  · rw [Option.map_map]
    rfl
  · rfl

def slotAt (s : State) (index : Nat) : Option Slot := s.calls[index]?.map Call.slot

def doneAt (s : State) (index : Nat) : Bool := (slotAt s index).any Slot.done

/-- A slot is completed at most once, with a response or with an error. -/
inductive SlotStep : Option Slot → Option Slot → Prop
  | same (slot : Option Slot) : SlotStep slot slot
  | created : SlotStep none (some emptySlot)
  | response (slot : Slot) (response : Response) :
      slot.done = false → SlotStep (some slot) (some { slot with response := some response, done := true })
  | error (slot : Slot) (reason : Exception) :
      slot.done = false → SlotStep (some slot) (some { slot with error := some reason, done := true })

def Settled (slot : Slot) : Prop :=
  if slot.done then slot.response.isSome = !slot.error.isSome else slot.response = none ∧ slot.error = none

theorem SlotStep.done {before after : Option Slot} (h : SlotStep before after) (hDone : before.any Slot.done = true) :
    after.any Slot.done = true := by
  cases h with
  | same => exact hDone
  | created => cases hDone
  | response | error => rfl

theorem SlotStep.settled {before after : Option Slot} (h : SlotStep before after)
    (hSettled : ∀ slot ∈ before, Settled slot) : ∀ slot ∈ after, Settled slot := by
  cases h with
  | same => exact hSettled
  | created => simp [Settled, emptySlot]
  | response slot response hOpen =>
    have hOld := hSettled slot rfl
    simp only [Settled, hOpen, Bool.false_eq_true, if_false] at hOld
    simp [Settled, hOld.2]
  | error slot reason hOpen =>
    have hOld := hSettled slot rfl
    simp only [Settled, hOpen, Bool.false_eq_true, if_false] at hOld
    simp [Settled, hOld.1]

theorem slotAt_of_call (hCall : s.calls[index]? = some call) : slotAt s index = some call.slot := by
  simp [slotAt, hCall]

theorem slotAt_setCall (hCall : s.calls[index]? = some call) (new : Call) (i : Nat) :
    slotAt (setCall s index new) i = if i = index then some new.slot else slotAt s i := by
  unfold slotAt setCall
  by_cases hEq : i = index
  · subst hEq
    rw [if_pos rfl, Pool.get_set_self hCall]
    rfl
  · rw [if_neg hEq, List.getElem?_set_ne (Ne.symm hEq)]

theorem CallStep.slots (h : CallStep s t index call) (hCall : s.calls[index]? = some call) (i : Nat) :
    SlotStep (slotAt s i) (slotAt t i) := by
  obtain ⟨new, hCalls, hSlot⟩ := h.calls
  have hSame : slotAt t i = slotAt (setCall s index new) i := by rw [slotAt, hCalls]; rfl
  rw [hSame, slotAt_setCall hCall]
  split
  · rename_i hEq
    rw [hEq, hSlot, slotAt_of_call hCall]
    exact .same _
  · exact .same _

theorem ReaderStep.slots (h : ReaderStep s t) (i : Nat) : SlotStep (slotAt s i) (slotAt t i) := by
  cases h with
  | delivered requestId response index call hReader hEntry hCall hOpen =>
    rw [slotAt_setCall (s := { s with reader := .reading }) hCall]
    split
    · rename_i hEq
      rw [hEq, slotAt_of_call hCall]
      exact .response _ _ hOpen
    · exact .same _
  | visit shard reason hReader hUnlocked hLess =>
    unfold slotAt
    rw [failShard_call]
    split
    · cases hCall : s.calls[i]? with
      | none => simpa [hCall] using SlotStep.same none
      | some call =>
        simp only [Option.map_some, failSlot]
        split
        · exact .same _
        · rename_i hOpen
          exact .error _ _ (Bool.not_eq_true _ ▸ hOpen)
    · exact .same _
  | _ => exact .same _

def handling : ReaderPc → Bool
  | .visiting .. | .finished => true
  | _ => false

structure Inv (s : State) : Prop where
  shards : 0 < s.shards.length
  broken : handling s.reader = true → s.broken = true
  table : ShardedTable.Inv (shardOf s.shards.length) (table s)
  slots : ∀ i, ∀ slot ∈ slotAt s i, Settled slot
  swept : ∀ k < visited s, ∀ entry ∈ (Registration.table s).entries k, doneAt s entry.2 = true

structure Next (s t : State) : Prop where
  shards : t.shards.length = s.shards.length
  broken : handling t.reader = true → t.broken = true
  table : Step (shardOf s.shards.length) (table s) (table t)
  slots : ∀ i, SlotStep (slotAt s i) (slotAt t i)

theorem table_reader {reader : ReaderPc} (h : visited { s with reader } = visited s) :
    table { s with reader } = table s := by
  change ({ table s with swept := visited { s with reader } } : Table UInt32) = table s
  rw [h]
  rfl

theorem table_setCall_same (hCall : s.calls[index]? = some call) (hSame : registration new = registration call) :
    table (setCall s index new) = table s := by
  have hPhase : Function.update (table s).phase index (registration call) = (table s).phase := by
    rw [← table_phase hCall, Function.update_eq_self]
  rw [table_setCall hCall, hSame]
  simp only [hPhase]

theorem stutters (h : table t = table s) : Step (shardOf s.shards.length) (table s) (table t) := by
  rw [h]
  exact .stutter

theorem ReaderStep.table (h : ReaderStep s t) (hInv : Inv s) :
    Step (shardOf s.shards.length) (Registration.table s) (Registration.table t) := by
  cases h with
  | received requestId response hReader | rejected reason hReader
  | unknown requestId response reason hReader | duplicate requestId response index reason hReader =>
    exact stutters (table_reader (by simp [visited, hReader]))
  | delivered requestId response index call hReader hEntry hCall hOpen =>
    refine stutters ((table_setCall_same (s := { s with reader := .reading }) hCall ?_).trans
      (table_reader (by simp [visited, hReader])))
    rfl
  | failed reason hReader =>
    have hClosed : Registration.table { s with broken := true, reader := .visiting 0 reason } =
        Registration.table { s with broken := true } :=
      table_reader (s := { s with broken := true }) (by simp [visited, hReader])
    rw [hClosed]
    exact .close
  | visit shard reason hReader hUnlocked hLess =>
    have hBefore : (Registration.table s).swept = shard := by
      simp [Registration.table, visited, hReader, Nat.le_of_lt hLess]
    have hAfter : Registration.table { s with reader := .visiting (shard + 1) reason } =
        { Registration.table s with swept := (Registration.table s).swept + 1 } := by
      rw [hBefore]
      simp [Registration.table, visited, Nat.succ_le_of_lt hLess]
    rw [table_failShard, hAfter]
    exact .sweep (hInv.broken (by rw [hReader]; rfl)) (hBefore ▸ owner_of_unlocked hUnlocked)
  | finish shard reason hReader hLess =>
    exact stutters (table_reader (by simp [visited, hReader, Nat.not_lt.mp hLess]))

theorem ReaderStep.next (h : ReaderStep s t) (hInv : Inv s) : Next s t := by
  refine ⟨?_, ?_, h.table hInv, h.slots⟩
  · cases h with
    | visit shard reason => rw [(failShard_shards shard reason).1]
    | _ => rfl
  · cases h with
    | visit shard reason hReader =>
      intro _
      rw [(failShard_shards shard reason).2.2]
      exact hInv.broken (by rw [hReader]; rfl)
    | finish shard reason hReader => exact fun _ => hInv.broken (by rw [hReader]; rfl)
    | failed => exact fun _ => rfl
    | _ => nofun

theorem CallStep.next (h : CallStep s t index call) (hInv : Inv s) (hCall : s.calls[index]? = some call) : Next s t :=
  ⟨h.shards, fun hHandling => h.broken (hInv.broken (h.reader ▸ hHandling)), h.table, h.slots hCall⟩

theorem request_next (hInv : Inv s) (hNew : registration new = .outside) (hSlot : new.slot = emptySlot) :
    Next s { s with calls := s.calls ++ [new] } := by
  have hGet : ∀ i : Nat, (s.calls ++ [new])[i]? = s.calls[i]? ∨ s.calls[i]? = none ∧
      (s.calls ++ [new])[i]? = some new := by
    intro i
    by_cases hLess : i < s.calls.length
    · exact .inl (List.getElem?_append_left hLess)
    · by_cases hEq : i = s.calls.length
      · subst hEq
        exact .inr (by simp)
      · left
        rw [List.getElem?_eq_none (by simp; omega), List.getElem?_eq_none (by omega)]
  refine ⟨rfl, hInv.broken, ?_, fun i => ?_⟩
  · refine stutters ?_
    unfold Registration.table
    congr 1
    funext i
    obtain hOld | ⟨hNone, hFresh⟩ := hGet i
    · rw [hOld]
    · rw [hNone, hFresh]
      exact hNew
  · unfold slotAt
    obtain hOld | ⟨hNone, hFresh⟩ := hGet i
    · rw [hOld]
      exact .same _
    · rw [hNone, hFresh, Option.map_some, hSlot]
      exact .created

theorem step_next (h : step opts s action = some t) (hInv : Inv s) : Next s t := by
  cases action with
  | request route body cancellable =>
    rw [step] at h
    split at h
    · cases h
    · split at h
      · cases h
        exact request_next hInv rfl rfl
      · cases h
  | call index event =>
    rw [step] at h
    split at h
    · cases h
    · rename_i call hCall
      exact (callStep_registration hInv.shards hCall h).next hInv hCall
  | reader event => exact (readerStep_cases h).next hInv

theorem visited_next (h : step opts s action = some t) (hInv : Inv s) (hk : k < visited t) :
    k < visited s ∨ ∃ reason, t = failShard { s with reader := .visiting (k + 1) reason } k reason := by
  cases action with
  | request route body cancellable =>
    rw [step] at h
    split at h
    · cases h
    · split at h
      · cases h
        exact .inl hk
      · cases h
  | call index event =>
    rw [step] at h
    split at h
    · cases h
    · rename_i call hCall
      have hStep := callStep_registration hInv.shards hCall h
      rw [visited, hStep.reader, hStep.shards] at hk
      exact .inl hk
  | reader event =>
    cases readerStep_cases h with
    | visit shard reason hReader hUnlocked hLess =>
      have hVisited : visited (failShard { s with reader := .visiting (shard + 1) reason } shard reason) =
          shard + 1 := by
        obtain ⟨hShards, hNext, -⟩ := @failShard_shards { s with reader := .visiting (shard + 1) reason } shard reason
        rw [visited, hNext, hShards]
        exact Nat.min_eq_left hLess
      rw [hVisited] at hk
      by_cases hEq : k = shard
      · subst hEq
        exact .inr ⟨reason, rfl⟩
      · refine .inl ?_
        rw [visited, hReader]
        exact Nat.lt_min.mpr ⟨by omega, by omega⟩
    | finish shard reason hReader hLess =>
      refine .inl ?_
      rw [visited, hReader]
      exact Nat.lt_min.mpr ⟨Nat.lt_of_lt_of_le hk (Nat.not_lt.mp hLess), hk⟩
    | failed reason hReader => exact absurd hk (by simp [visited])
    | _ => exact absurd hk (by simp [visited, setCall])

theorem Inv.next (hInv : Inv s) (h : step opts s action = some t) : Inv t := by
  have hNext := step_next h hInv
  refine ⟨hNext.shards ▸ hInv.shards, hNext.broken, hNext.shards ▸ hInv.table.next hNext.table, fun i => ?_,
    fun k hk entry hEntry => ?_⟩
  · exact (hNext.slots i).settled (hInv.slots i)
  · obtain hOld | ⟨reason, rfl⟩ := visited_next h hInv hk
    · exact (hNext.slots entry.2).done (hInv.swept k hOld entry (hNext.table.swept_entries hInv.table hOld hEntry))
    · rw [table_failShard] at hEntry
      have hHolder := (hInv.table.entries k entry hEntry).2
      have hMem : entry.2 ∈ ((Registration.table { s with reader := .visiting (k + 1) reason }).entries k).map
          Prod.snd :=
        List.mem_map_of_mem hEntry
      cases hCall : s.calls[entry.2]? with
      | none => simp [Registration.table, hCall] at hHolder
      | some call =>
        unfold doneAt slotAt
        rw [failShard_call, if_pos hMem, hCall]
        simp only [Option.map_some, Option.any_some, failSlot]
        split <;> simp_all

theorem Inv.start (h : Initial s) : Inv s := by
  have hPhase : ∀ i, (Registration.table s).phase i = .outside := by simp [Registration.table, h.calls]
  have hEntries : ∀ k, (Registration.table s).entries k = [] := by
    intro k
    cases hShard : s.shards[k]? with
    | none => simp [Registration.table, hShard]
    | some shard => simp [Registration.table, hShard, (h.shards shard (List.mem_of_getElem? hShard)).1]
  have hVisited : visited s = 0 := by simp [visited, h.reader]
  refine ⟨h.shardCount, by simp [h.reader, handling], ?_, by simp [slotAt, h.calls], by simp [hVisited]⟩
  exact ⟨by simp [hEntries], by simp [hEntries], by simp [hPhase], by simp [hPhase], by simp [hPhase],
    fun _ => hVisited⟩

theorem reachable_inv (h : (machine opts).Reachable s) : Inv s :=
  h.invariant (fun _ => Inv.start) fun _ _ _ _ hInv _ hStep => hInv.next hStep

end EasyUds.Session.Registration

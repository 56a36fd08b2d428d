import EasyUds.Lib.LockedLink
import EasyUds.Lib.Pool
import EasyUds.Session.Model

/-! # Request framing of a shared session

The callers' writes refine the locked link: a call that sends its request or its cancellation is a
writer, `send_mutex` is the lock, and a failed send is a write given up, which the handler closes
with `shutdown`. The session does not enforce the rule of the link. The handler runs after the
mutex is released, and a caller that waits for the mutex does not read `broken` again.
-/

namespace EasyUds.Session.Send

open Lib Lib.Framing Lib.LockedLink
open Protocol.Codec Transport.Io Session.Model

def IsFrame (opts : Options) (frame : List UInt8) : Prop :=
  (∃ requestId route body, requestId ≠ 0 ∧
      validateRequestLengths route.length body.length opts.maxMessageSize = .ok () ∧
      frame = requestFrame requestId route body opts.protocolVersion) ∨
    ∃ requestId, requestId ≠ 0 ∧ frame = cancelFrame requestId opts.protocolVersion

/-- The socket holds a prefix of a concatenation of complete frames. -/
def WellFramed (opts : Options) (s : State) : Prop :=
  ∃ frames : List (List UInt8), (∀ frame ∈ frames, IsFrame opts frame) ∧
    s.wire.map Prod.snd <+: frames.flatten

/-- The call has given up its write inside the frame and has not yet shut the socket down. -/
def torn (opts : Options) (call : Call) : Bool :=
  match call.pc with
  | .sendFailedStore parts _ | .sendFailedErase parts _ | .sendFailedShutdown parts _ =>
    parts.flatten.length < (callFrame opts call).length
  | .cancelFailedStore rest | .cancelFailedShutdown rest =>
    rest.length < (cancelFrame call.requestId opts.protocolVersion).length
  | _ => false

def acquires : CallPc → Bool
  | .lockSend | .lockCancel => true
  | _ => false

/-- No call takes `send_mutex` while another one stands between a partial write and its shutdown. -/
def locksUntorn (opts : Options) (s : State) : Action → Bool
  | .call index _ =>
    match s.calls[index]? with
    | some call => !(acquires call.pc && s.calls.any (torn opts))
    | none => true
  | _ => true

def phase (opts : Options) (call : Call) : Phase UInt8 :=
  match call.pc with
  | .sending parts => .writing (callFrame opts call) parts.flatten
  | .sendFailedStore parts _ | .sendFailedErase parts _ | .sendFailedShutdown parts _ =>
    .failed (callFrame opts call) parts.flatten
  | .sendingCancel rest => .writing (cancelFrame call.requestId opts.protocolVersion) rest
  | .cancelFailedStore rest | .cancelFailedShutdown rest =>
    .failed (cancelFrame call.requestId opts.protocolVersion) rest
  | _ => .idle

def link (opts : Options) (s : State) : Link UInt8 where
  wire := s.wire
  started := s.started
  tickets := s.tickets
  shutdown := s.shutdown
  owner := s.sendMutex
  phase index := (s.calls[index]?.map (phase opts)).getD .idle

def registered : CallPc → Bool
  | .checkBroken | .allocate | .register _ | .insert _ | .returned _ => false
  | _ => true

def drawnId : CallPc → Option UInt32
  | .register requestId | .insert requestId => some requestId
  | _ => none

structure Valid (opts : Options) (call : Call) : Prop where
  lengths : validateRequestLengths call.route.length call.body.length opts.maxMessageSize = .ok ()
  drawn : ∀ requestId, drawnId call.pc = some requestId → requestId ≠ 0
  requestId : registered call.pc = true → call.requestId ≠ 0

variable {opts : Options} {s t : State} {index : Nat} {call : Call}
variable {frame : List UInt8} {event : Event} {requestId : UInt32} {f : CounterShard → CounterShard}
  {failed : Exception → CallPc} {new : Call} {next : Nat → CallPc}

theorem torn_iff : torn opts call = true ↔ (phase opts call).Torn := by
  cases hPc : call.pc <;> simp [torn, phase, hPc, Phase.Torn]

theorem link_phase (hCall : s.calls[index]? = some call) : (link opts s).phase index = phase opts call := by
  change (s.calls[index]?.map (phase opts)).getD .idle = _
  rw [hCall]
  rfl

theorem index_lt (hCall : s.calls[index]? = some call) : index < s.calls.length :=
  (List.getElem?_eq_some_iff.mp hCall).1

theorem link_setCall (new : Call) (hLess : index < s.calls.length) :
    link opts (setCall s index new) =
      { link opts s with phase := Function.update (link opts s).phase index (phase opts new) } := by
  unfold link setCall
  congr 1
  funext other
  by_cases hEq : other = index
  · subst hEq
    rw [Function.update_self, List.getElem?_set_self hLess]
    rfl
  · rw [Function.update_of_ne hEq, List.getElem?_set_ne (Ne.symm hEq)]

theorem link_setCall_same (hCall : s.calls[index]? = some call) (hPhase : phase opts new = phase opts call) :
    link opts (setCall s index new) = link opts s := by
  rw [link_setCall new (index_lt hCall), hPhase, ← link_phase hCall, Function.update_eq_self]

theorem link_completeSlot (f : Slot → Slot) : link opts (completeSlot s index f) = link opts s := by
  unfold link completeSlot
  congr 1
  funext other
  rw [List.getElem?_modify]
  cases s.calls[other]? with
  | none => rfl
  | some call =>
    by_cases hEq : index = other <;> simp [hEq, phase, callFrame]

theorem link_failShard (shard : Nat) (reason : Exception) :
    link opts (failShard s shard reason) = link opts s := by
  unfold failShard
  generalize (s.shards[shard]?.map Shard.inflight).getD [] = entries
  induction entries generalizing s with
  | nil => rfl
  | cons entry rest ih => rw [List.foldl_cons, ih, link_completeSlot]

theorem link_append (hPhase : phase opts new = .idle) :
    link opts { s with calls := s.calls ++ [new] } = link opts s := by
  unfold link
  congr 1
  funext other
  obtain hLess | hEq | hMore := Nat.lt_trichotomy other s.calls.length
  · rw [List.getElem?_append_left hLess]
  · subst hEq
    rw [List.getElem?_append_right (Nat.le_refl _), Nat.sub_self, List.getElem?_eq_none (Nat.le_refl _)]
    exact hPhase
  · rw [List.getElem?_eq_none (by rw [List.length_append]; exact hMore),
      List.getElem?_eq_none (Nat.le_of_lt hMore)]

theorem deliverStep_link (requestId : UInt32) (response : Response) :
    link opts (deliverStep s requestId response) = link opts s := by
  unfold deliverStep
  split
  · rfl
  · split
    · rfl
    · exact link_completeSlot _

theorem readerStep_link (h : readerStep opts s event = some t) : link opts t = link opts s := by
  unfold readerStep at h
  split at h
  · split at h
    · split at h
      · cases h
        rfl
      · split at h <;> cases h <;> rfl
    · cases h
      rfl
    · cases h
  · split at h
    · cases h
    · cases h
      exact deliverStep_link _ _
  · cases h
    rfl
  · split at h
    · cases h
    · split at h
      · cases h
        exact link_failShard _ _
      · cases h
        rfl
  · cases h

theorem sendStep_refines (hCall : s.calls[index]? = some call) {unsent : List UInt8}
    (hPhase : phase opts call = .writing frame unsent) (hNext : ∀ count, count < unsent.length →
      phase opts { call with pc := next count } = .writing frame (unsent.drop count))
    (hDone : phase opts { call with pc := next unsent.length } = .idle)
    (hFailed : ∀ reason, phase opts { call with pc := failed reason } = .failed frame unsent)
    (h : sendStep s index call frame unsent event next failed = some t) :
    Step (IsFrame opts) (link opts s) (link opts t) := by
  have hWriting : (link opts s).phase index = .writing frame unsent := by rw [link_phase hCall, hPhase]
  unfold sendStep at h
  split at h
  case h_1 count =>
    split at h
    · cases h
    · rename_i hEnabled
      push Not at hEnabled
      obtain ⟨hOpen, hPos, hCount⟩ := hEnabled
      have hShut : (link opts s).shutdown = false := Bool.eq_false_iff.mpr hOpen
      cases h
      split
      · rename_i hEq
        rw [link_setCall, ← hEq, hDone, List.take_length]
        · exact Step.complete hWriting hShut
        · exact index_lt hCall
      · rename_i hEq
        rw [link_setCall, hNext count (by omega)]
        · exact Step.send hWriting hShut (by omega) (by omega)
        · exact index_lt hCall
  case h_2 =>
    cases h
    exact .stutter _
  case h_3 reason =>
    cases h
    rw [link_setCall, hFailed]
    · exact Step.fail hWriting
    · exact index_lt hCall
  case h_4 => cases h

theorem not_torn_link (hWhole : ∀ other ∈ s.calls, torn opts other = false) (other : Nat) :
    ¬ ((link opts s).phase other).Torn := by
  intro hTorn
  cases hOther : s.calls[other]? with
  | none =>
    have hIdle : (link opts s).phase other = .idle := by
      change (s.calls[other]?.map (phase opts)).getD .idle = _
      rw [hOther]
      rfl
    rw [hIdle] at hTorn
    exact Phase.not_torn_idle hTorn
  | some caller =>
    rw [link_phase hOther, ← torn_iff, hWhole caller (List.mem_of_getElem? hOther)] at hTorn
    cases hTorn

theorem lock_refines (hCall : s.calls[index]? = some call) {next : CallPc}
    (hWhole : ∀ other ∈ s.calls, torn opts other = false) (hFrame : IsFrame opts frame) (hNe : frame ≠ [])
    (hPhase : phase opts { call with pc := next } = .writing frame frame)
    (h : (lockSendMutex s index).map (fun locked => setCall locked index { call with pc := next }) = some t) :
    Step (IsFrame opts) (link opts s) (link opts t) := by
  unfold lockSendMutex at h
  split at h
  · cases h
  · rename_i hFree
    cases h
    rw [link_setCall, hPhase]
    · exact Step.acquire (Option.not_isSome_iff_eq_none.mp hFree) (not_torn_link hWhole) hFrame hNe
    · exact index_lt hCall

theorem quiet_refines (hCall : s.calls[index]? = some call) {base : State} (hBase : link opts base = link opts s)
    (hCalls : base.calls = s.calls) (hPhase : phase opts new = phase opts call) :
    Step (IsFrame opts) (link opts s) (link opts (setCall base index new)) := by
  rw [← hCalls] at hCall
  rw [link_setCall_same hCall hPhase, hBase]
  exact .stutter _

theorem close_refines (hCall : s.calls[index]? = some call) {rest : List UInt8}
    (hFailed : phase opts call = .failed frame rest) (hPhase : phase opts new = .idle) :
    Step (IsFrame opts) (link opts s) (link opts (setCall { s with shutdown := true } index new)) := by
  rw [link_setCall, hPhase]
  · exact Step.close ((link_phase hCall).trans hFailed)
  · exact index_lt hCall

theorem isFrame_request (hValid : Valid opts call) (hRegistered : registered call.pc = true) :
    IsFrame opts (callFrame opts call) :=
  .inl ⟨_, _, _, hValid.requestId hRegistered, hValid.lengths, rfl⟩

theorem isFrame_cancel (hValid : Valid opts call) (hRegistered : registered call.pc = true) :
    IsFrame opts (cancelFrame call.requestId opts.protocolVersion) :=
  .inr ⟨_, hValid.requestId hRegistered, rfl⟩

theorem registerStep_refines (hCall : s.calls[index]? = some call) (hPc : call.pc = .register requestId)
    (h : registerStep s index call requestId = some t) :
    Step (IsFrame opts) (link opts s) (link opts t) := by
  unfold registerStep at h
  split at h
  · cases h
  · split at h
    · cases h
      exact quiet_refines hCall rfl rfl (by simp [phase, hPc])
    · cases h
      exact quiet_refines hCall rfl rfl (by simp [phase, hPc])

theorem insertStep_refines (hCall : s.calls[index]? = some call) (hPc : call.pc = .insert requestId) :
    Step (IsFrame opts) (link opts s) (link opts (insertStep opts s index call requestId)) := by
  unfold insertStep
  split
  · exact quiet_refines hCall rfl rfl (by simp [phase, hPc])
  · exact quiet_refines hCall rfl rfl (by simp [phase, hPc])

theorem eraseStep_refines (hCall : s.calls[index]? = some call) {pc : CallPc}
    (hPhase : phase opts { call with pc } = phase opts call) (h : eraseStep opts s index call f pc = some t) :
    Step (IsFrame opts) (link opts s) (link opts t) := by
  unfold eraseStep at h
  split at h
  · cases h
  · cases h
    exact quiet_refines hCall rfl rfl hPhase

theorem finishPc_idle (call : Call) : phase opts { call with pc := finishPc call } = .idle := by
  unfold finishPc
  split
  · rfl
  · split
    · rfl
    · split <;> rfl

theorem callStep_refines (hCall : s.calls[index]? = some call) (hValid : Valid opts call)
    (hWhole : acquires call.pc = true → ∀ other ∈ s.calls, torn opts other = false)
    (h : callStep opts s index call event = some t) :
    Step (IsFrame opts) (link opts s) (link opts t) := by
  unfold callStep at h
  split at h
  case h_1 hPc =>
    cases h
    refine quiet_refines hCall rfl rfl ?_
    split <;> simp [phase, hPc]
  case h_2 hPc =>
    cases h
    refine quiet_refines hCall rfl rfl ?_
    split <;> simp [phase, hPc]
  case h_3 requestId hPc => exact registerStep_refines hCall hPc h
  case h_4 requestId hPc =>
    cases h
    exact insertStep_refines hCall hPc
  case h_5 hPc =>
    exact lock_refines hCall (hWhole (by rw [hPc]; rfl))
      (isFrame_request hValid (by rw [hPc]; rfl)) (requestFrame_ne_nil _ _ _ _) rfl h
  case h_6 parts hPc =>
    refine sendStep_refines hCall (by simp [phase, hPc]) ?_ ?_ (fun _ => rfl) h
    · intro count hCount
      have hRest : skipEmpty (advance parts count) ≠ [] := by
        intro hNil
        rw [skipEmpty_eq_nil, advance_flatten, List.drop_eq_nil_iff] at hNil
        omega
      rw [if_neg hRest]
      change Phase.writing _ _ = _
      rw [skipEmpty_flatten, advance_flatten]
      rfl
    · have hRest : skipEmpty (advance parts parts.flatten.length) = [] := by
        rw [skipEmpty_eq_nil, advance_flatten, List.drop_length]
      rw [if_pos hRest]
      rfl
  case h_7 hPc =>
    cases h
    exact quiet_refines hCall rfl rfl (by simp [phase, hPc, callFrame])
  case h_8 hPc => exact eraseStep_refines hCall (by simp [phase, hPc, callFrame]) h
  case h_9 hPc =>
    cases h
    exact close_refines hCall (by simp only [phase, hPc]; rfl) rfl
  case h_10 hPc =>
    split at h
    · split at h
      · cases h
        exact quiet_refines hCall rfl rfl (by simp [phase, hPc])
      · cases h
    · split at h
      · cases h
        refine quiet_refines hCall rfl rfl ?_
        split <;> simp [phase, hPc]
      · cases h
    · split at h
      · cases h
      · cases h
        exact quiet_refines hCall rfl rfl (by simp [phase, hPc])
    · cases h
  case h_11 hPc =>
    exact lock_refines hCall (hWhole (by rw [hPc]; rfl))
      (isFrame_cancel hValid (by rw [hPc]; rfl)) (cancelFrame_ne_nil _ _) rfl h
  case h_12 rest hPc =>
    refine sendStep_refines hCall (by simp [phase, hPc]) ?_ ?_ (fun _ => rfl) h
    · intro count hCount
      have hRest : rest.drop count ≠ [] := by
        rw [Ne, List.drop_eq_nil_iff]
        omega
      rw [if_neg hRest]
      rfl
    · rw [if_pos List.drop_length]
      rfl
  case h_13 hPc =>
    cases h
    exact quiet_refines hCall rfl rfl (by simp [phase, hPc])
  case h_14 hPc =>
    cases h
    exact close_refines hCall (by simp only [phase, hPc]; rfl) rfl
  case h_15 hPc =>
    split at h
    · split at h
      · cases h
        exact quiet_refines hCall rfl rfl (by simp [phase, hPc])
      · cases h
    · split at h
      · cases h
      · cases h
        exact quiet_refines hCall rfl rfl (by simp [phase, hPc])
    · cases h
  case h_16 hPc =>
    refine eraseStep_refines hCall ?_ h
    rw [finishPc_idle]
    simp [phase, hPc]
  case h_17 hPc =>
    cases h
    exact quiet_refines hCall rfl rfl (by simp [phase, hPc])
  case h_18 hPc =>
    cases h
    rw [link_setCall_same]
    · exact Step.shut _
    · exact hCall
    · simp [phase, hPc]
  case h_19 => cases h

theorem step_refines {action : Action} (hValid : ∀ call ∈ s.calls, Valid opts call)
    (hGuard : locksUntorn opts s action = true) (h : step opts s action = some t) :
    Step (IsFrame opts) (link opts s) (link opts t) := by
  cases action with
  | request route body cancellable =>
    rw [step] at h
    split at h
    · cases h
    · split at h
      · cases h
        rw [link_append]
        · exact .stutter _
        · rfl
      · cases h
  | call index event =>
    rw [step] at h
    split at h
    · cases h
    · rename_i call hCall
      refine callStep_refines hCall (hValid call (List.mem_of_getElem? hCall)) ?_ h
      intro hAcquires other hOther
      simp only [locksUntorn, hCall, hAcquires, Bool.true_and, Bool.not_eq_true', List.any_eq_false] at hGuard
      exact Bool.eq_false_iff.mpr (hGuard other hOther)
  | reader event =>
    rw [readerStep_link h]
    exact .stutter _

theorem Valid.goto (hValid : Valid opts call) (hRoute : new.route = call.route) (hBody : new.body = call.body)
    (hId : new.requestId = call.requestId) (hDrawn : drawnId new.pc = none)
    (hRegistered : registered new.pc = true → registered call.pc = true) : Valid opts new where
  lengths := by rw [hRoute, hBody]; exact hValid.lengths
  drawn requestId hPc := by
    rw [hDrawn] at hPc
    cases hPc
  requestId hNew := by rw [hId]; exact hValid.requestId (hRegistered hNew)

theorem sendStep_valid (hCall : s.calls[index]? = some call) (hValid : Valid opts call) {unsent : List UInt8}
    (hRegistered : registered call.pc = true) (hNext : ∀ count, drawnId (next count) = none)
    (hFailed : ∀ reason, drawnId (failed reason) = none)
    (h : sendStep s index call frame unsent event next failed = some t) :
    ∃ new, t.calls = s.calls.set index new ∧ Valid opts new := by
  unfold sendStep at h
  split at h
  case h_1 count =>
    split at h
    · cases h
    · cases h
      refine ⟨{ call with pc := next count }, ?_, hValid.goto rfl rfl rfl (hNext count) fun _ => hRegistered⟩
      split <;> rfl
  case h_2 =>
    cases h
    exact ⟨call, (Pool.set_self hCall).symm, hValid⟩
  case h_3 reason =>
    cases h
    exact ⟨_, rfl, hValid.goto rfl rfl rfl (hFailed reason) fun _ => hRegistered⟩
  case h_4 => cases h

theorem lock_valid (hValid : Valid opts call) {next : CallPc} (hRegistered : registered call.pc = true)
    (hNext : drawnId next = none)
    (h : (lockSendMutex s index).map (fun locked => setCall locked index { call with pc := next }) = some t) :
    ∃ new, t.calls = s.calls.set index new ∧ Valid opts new := by
  unfold lockSendMutex at h
  split at h
  · cases h
  · cases h
    exact ⟨_, rfl, hValid.goto rfl rfl rfl hNext fun _ => hRegistered⟩

theorem registerStep_valid (hValid : Valid opts call) (hPc : call.pc = .register requestId)
    (h : registerStep s index call requestId = some t) :
    ∃ new, t.calls = s.calls.set index new ∧ Valid opts new := by
  unfold registerStep at h
  split at h
  · cases h
  · split at h
    · cases h
      exact ⟨_, rfl, hValid.goto rfl rfl rfl rfl (fun h => by cases h)⟩
    · cases h
      refine ⟨_, rfl, hValid.lengths, ?_, fun h => by cases h⟩
      intro other hDrawn
      cases hDrawn
      exact hValid.drawn requestId (by rw [hPc]; rfl)

theorem insertStep_valid (hValid : Valid opts call) (hPc : call.pc = .insert requestId) :
    ∃ new, (insertStep opts s index call requestId).calls = s.calls.set index new ∧ Valid opts new := by
  unfold insertStep
  split
  · exact ⟨_, rfl, hValid.goto rfl rfl rfl rfl (fun h => by cases h)⟩
  · exact ⟨_, rfl, hValid.lengths, nofun, fun _ => hValid.drawn requestId (by rw [hPc]; rfl)⟩

theorem eraseStep_valid (hValid : Valid opts call) {pc : CallPc} (hRegistered : registered call.pc = true)
    (hDrawn : drawnId pc = none) (h : eraseStep opts s index call f pc = some t) :
    ∃ new, t.calls = s.calls.set index new ∧ Valid opts new := by
  unfold eraseStep at h
  split at h
  · cases h
  · cases h
    exact ⟨_, rfl, hValid.goto rfl rfl rfl hDrawn fun _ => hRegistered⟩

theorem drawnId_finishPc (call : Call) : drawnId (finishPc call) = none := by
  unfold finishPc
  split
  · rfl
  · split
    · rfl
    · split <;> rfl

theorem callStep_valid (hCall : s.calls[index]? = some call) (hValid : Valid opts call)
    (h : callStep opts s index call event = some t) :
    ∃ new, t.calls = s.calls.set index new ∧ Valid opts new := by
  unfold callStep at h
  split at h
  case h_1 hPc =>
    cases h
    refine ⟨_, rfl, hValid.goto rfl rfl rfl ?_ ?_⟩ <;> dsimp only <;> split <;> simp [registered, drawnId]
  case h_2 hPc =>
    cases h
    refine ⟨_, rfl, hValid.lengths, ?_, ?_⟩
    · intro requestId hDrawn
      dsimp only at hDrawn
      split at hDrawn
      · cases hDrawn
      · cases hDrawn
        assumption
    · dsimp only
      split <;> simp [registered]
  case h_3 requestId hPc => exact registerStep_valid hValid hPc h
  case h_4 requestId hPc =>
    cases h
    exact insertStep_valid hValid hPc
  case h_5 hPc | h_11 hPc =>
    exact lock_valid hValid (by rw [hPc]; rfl) rfl h
  case h_6 hPc | h_12 hPc =>
    refine sendStep_valid hCall hValid (by rw [hPc]; rfl) ?_ (fun _ => rfl) h
    intro count
    split <;> rfl
  case h_7 hPc | h_9 hPc | h_13 hPc | h_14 hPc | h_17 hPc | h_18 hPc =>
    cases h
    exact ⟨_, rfl, hValid.goto rfl rfl rfl rfl (fun _ => by rw [hPc]; rfl)⟩
  case h_8 hPc => exact eraseStep_valid hValid (by rw [hPc]; rfl) rfl h
  case h_10 hPc | h_15 hPc =>
    have hRegistered : registered call.pc = true := by rw [hPc]; rfl
    split at h <;> (try split at h) <;> cases h
    all_goals
      refine ⟨_, rfl, hValid.goto rfl rfl rfl ?_ fun _ => hRegistered⟩
      grind [drawnId]
  case h_16 hPc => exact eraseStep_valid hValid (by rw [hPc]; rfl) (drawnId_finishPc call) h
  case h_19 => cases h

theorem completeSlot_valid (hValid : ∀ call ∈ s.calls, Valid opts call) (f : Slot → Slot) :
    ∀ call ∈ (completeSlot s index f).calls, Valid opts call := by
  intro call hCall
  obtain ⟨other, hOther⟩ := List.mem_iff_getElem?.mp hCall
  rw [completeSlot, List.getElem?_modify] at hOther
  obtain ⟨old, hOld, rfl⟩ := Option.map_eq_some_iff.mp hOther
  have hOldValid := hValid old (List.mem_of_getElem? hOld)
  split
  · exact ⟨hOldValid.lengths, hOldValid.drawn, hOldValid.requestId⟩
  · exact hOldValid

theorem failShard_valid (hValid : ∀ call ∈ s.calls, Valid opts call) (shard : Nat) (reason : Exception) :
    ∀ call ∈ (failShard s shard reason).calls, Valid opts call := by
  unfold failShard
  generalize (s.shards[shard]?.map Shard.inflight).getD [] = entries
  induction entries generalizing s with
  | nil => exact hValid
  | cons entry rest ih => exact ih (completeSlot_valid hValid _)

theorem readerStep_valid (hValid : ∀ call ∈ s.calls, Valid opts call) (h : readerStep opts s event = some t) :
    ∀ call ∈ t.calls, Valid opts call := by
  unfold readerStep at h
  split at h
  · split at h
    · split at h
      · cases h
        exact hValid
      · split at h <;> cases h <;> exact hValid
    · cases h
      exact hValid
    · cases h
  · split at h
    · cases h
    · cases h
      unfold deliverStep
      split
      · exact hValid
      · split
        · exact hValid
        · apply completeSlot_valid
          exact hValid
  · cases h
    exact hValid
  · split at h
    · cases h
    · split at h
      · cases h
        apply failShard_valid
        exact hValid
      · cases h
        exact hValid
  · cases h

theorem step_valid {action : Action} (hValid : ∀ call ∈ s.calls, Valid opts call)
    (h : step opts s action = some t) : ∀ call ∈ t.calls, Valid opts call := by
  cases action with
  | request route body cancellable =>
    rw [step] at h
    split at h
    · cases h
    · split at h
      · rename_i hLengths
        cases h
        intro call hCall
        obtain hOld | hNew := List.mem_append.mp hCall
        · exact hValid call hOld
        · cases List.mem_singleton.mp hNew
          exact ⟨hLengths, fun _ hPc => (by cases hPc), fun hPc => (by cases hPc)⟩
      · cases h
  | call index event =>
    rw [step] at h
    split at h
    · cases h
    · rename_i call hCall
      obtain ⟨new, hCalls, hNew⟩ := callStep_valid hCall (hValid call (List.mem_of_getElem? hCall)) h
      rw [hCalls]
      intro other hOther
      obtain hOld | rfl := Pool.mem_set_cases hOther
      · exact hValid other hOld
      · exact hNew
  | reader event => exact readerStep_valid hValid h

structure Inv (opts : Options) (s : State) : Prop where
  valid : ∀ call ∈ s.calls, Valid opts call
  link : LockedLink.Inv (IsFrame opts) (link opts s)

theorem inv_initial (hInit : Initial s) : Inv opts s := by
  have hIdle : ∀ index, (link opts s).phase index = .idle := by
    intro index
    change (s.calls[index]?.map (phase opts)).getD .idle = _
    rw [hInit.calls]
    rfl
  constructor
  · rw [hInit.calls]
    exact fun _ hMem => absurd hMem List.not_mem_nil
  · have hStarted : (link opts s).started = [] := hInit.started
    have hWire : (link opts s).wire = [] := hInit.wire
    constructor
    · simp [hStarted]
    · simp [hStarted]
    · simp [Framed, hWire]
    · intro index frame rest hPhase
      rw [hIdle] at hPhase
      cases hPhase
    · simp [hWire, hStarted]
    · intro index hTorn
      rw [hIdle] at hTorn
      exact absurd hTorn Phase.not_torn_idle

theorem inv_of_reached (h : (machine opts).Reached (fun s a => locksUntorn opts s a = true) s) :
    Inv opts s := by
  refine Machine.Reached.invariant (fun s (hInit : Initial s) => inv_initial hInit) ?_ h
  intro s action t _ hInv hGuard hStep
  exact ⟨step_valid hInv.valid hStep, (step_refines hInv.valid hGuard hStep).inv hInv.link⟩

theorem wellFramed_of_inv (hInv : Inv opts s) : WellFramed opts s := by
  refine ⟨s.started.map Write.frame, ?_, ?_⟩
  · intro frame hFrame
    obtain ⟨write, hWrite, rfl⟩ := List.mem_map.mp hFrame
    exact hInv.link.frames write hWrite
  · exact hInv.link.framed.bytes

theorem stopped_leads (h : (machine opts).Reached (fun s a => locksUntorn opts s a = true) s)
    (hStopped : Stopped (link opts s))
    (hLater : (machine opts).Leads (fun s a => locksUntorn opts s a = true) s t) :
    Stopped (link opts t) ∧ t.wire = s.wire := by
  induction hLater with
  | refl => exact ⟨hStopped, rfl⟩
  | next hLeads hGuard hStep ih =>
    have hInv := inv_of_reached (h.leads hLeads)
    obtain ⟨hNext, hWire⟩ := (step_refines hInv.valid hGuard hStep).stopped hInv.link ih.1
    exact ⟨hNext, hWire.trans ih.2⟩

/-- In every run in which no call takes `send_mutex` between another call's partial write and its
shutdown, the socket holds a prefix of complete frames, and once a write has stopped inside its
frame no byte follows. -/
theorem requests_framed (opts : Options) (s : State)
    (h : (machine opts).Reached (fun s a => locksUntorn opts s a = true) s) :
    WellFramed opts s ∧ ∀ call ∈ s.calls, torn opts call = true → ∀ t,
      (machine opts).Leads (fun s a => locksUntorn opts s a = true) s t → t.wire = s.wire := by
  refine ⟨wellFramed_of_inv (inv_of_reached h), ?_⟩
  intro call hCall hTorn t hLater
  obtain ⟨index, hIndex⟩ := List.mem_iff_getElem?.mp hCall
  have hStopped : Stopped (link opts s) := by
    refine .inr ⟨index, ?_⟩
    rw [link_phase hIndex]
    exact torn_iff.mp hTorn
  exact (stopped_leads h hStopped hLater).2

def smallOptions : Options where
  maxMessageSize := 64
  protocolVersion := 3
  stats := false

def connected : State where
  wire := []
  started := []
  tickets := 0
  shutdown := false
  broken := false
  sendMutex := none
  nextId := 1
  shards := List.replicate 16 ⟨[], none, ⟨0, 0, 0, 0⟩⟩
  calls := []
  reader := .reading

theorem connected_initial : (machine smallOptions).initial connected :=
  ⟨rfl, rfl, rfl, rfl, rfl, rfl, rfl, by simp [connected], by decide, rfl⟩

def timedOut : Exception := .error .timeout "send timed out"

def tornSend : List Action :=
  [Action.request [97] [] false, .request [98] [] false] ++ List.replicate 4 (Action.call 1 .proceed) ++
    List.replicate 5 (Action.call 0 .proceed) ++ [Action.call 0 (.sent 4), .call 0 (.failed timedOut)]

theorem requests_framed_torn : ∃ s,
    (machine smallOptions).Reached (fun s a => locksUntorn smallOptions s a = true) s ∧
      (∃ call ∈ s.calls, torn smallOptions call = true) ∧ s.wire.length = 4 ∧ WellFramed smallOptions s ∧
      ∀ t, (machine smallOptions).Leads (fun s a => locksUntorn smallOptions s a = true) s t →
        t.wire = s.wire := by
  obtain ⟨s, hReached, ⟨call, hCall, hTorn⟩, hLength⟩ := Machine.exists_reached_of_exec
    (fun s => (∃ call ∈ s.calls, torn smallOptions call = true) ∧ s.wire.length = 4) (locksUntorn smallOptions) tornSend
    connected_initial (by decide)
  obtain ⟨hFramed, hStopped⟩ := requests_framed smallOptions s hReached
  exact ⟨s, hReached, ⟨call, hCall, hTorn⟩, hLength, hFramed, hStopped call hCall hTorn⟩

theorem isFrame_version (h : IsFrame opts frame) : frame[4]? = some opts.protocolVersion := by
  obtain ⟨_, _, _, _, _, rfl⟩ | ⟨_, _, rfl⟩ := h <;> rfl

theorem wellFramed_version (h : WellFramed opts s) {byte : UInt8}
    (hByte : (s.wire.map Prod.snd)[4]? = some byte) : byte = opts.protocolVersion := by
  obtain ⟨frames, hFrames, hBytes⟩ := h
  exact common_byte (fun frame hFrame => isFrame_version (hFrames frame hFrame)) hBytes hByte

/-- The other caller has waited for `send_mutex` and sends its whole request before the first one
has stored `broken` and shut the socket down. -/
def sendAfterTorn : List Action := tornSend ++ [Action.call 1 .proceed, .call 1 (.sent 21)]

theorem request_after_torn_frame : ∃ s, (machine smallOptions).Reachable s ∧ ¬ WellFramed smallOptions s ∧
    s.wire.length = 25 := by
  obtain ⟨s, hReached, hByte, hLength⟩ := Machine.exists_reachable_of_exec
    (fun s => (s.wire.map Prod.snd)[4]? = some 69 ∧ s.wire.length = 25) sendAfterTorn connected_initial (by decide)
  refine ⟨s, hReached, ?_, hLength⟩
  intro hFramed
  exact absurd (wellFramed_version hFramed hByte) (by decide)

end EasyUds.Session.Send

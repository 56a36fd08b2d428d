import EasyUds.Server.Ownership

/-! # The parser's reservation

Under an aggregate budget the parser holds the bytes of the frame at hand in `reserved_request_bytes`,
from the reservation until the request is handed over. Between the visits of the reactor the phase of the
parser tells what is reserved; within a visit the next operation does. Only `close_connection` of another
thread can take the reservation away from the reactor.
-/

namespace EasyUds.Server.Reservation

open Lib Server.Core Server.Steps Server.Outcomes Server.Footprint
open Server.Ownership

variable {opts : Options} {s t : State} {op : Op} {choice : Choice} {ops : List Op} {c : Nat}

def phaseBytes (opts : Options) (k : Connection) : UInt64 :=
  if opts.strictBudget then
    match k.phase with
    | .requestPayload => k.payloadTotal
    | .streamRoute => k.arg1
    | _ => 0
  else 0

def Settled (opts : Options) (k : Connection) : Prop := k.reservedRequestBytes = phaseBytes opts k

def InBudget (k : Connection) : Prop :=
  (k.phase = .requestBudget ∨ k.phase = .streamBudget) ∧ k.reservedRequestBytes = 0

/-- What the parser holds when an operation on behalf of its owner is pending. -/
def Parsing (opts : Options) (s : State) : Op → Prop
  | .beginPayload c _ => InBudget (s.connections c)
  | .reserveConnection c _ n | .reserveTotal c _ n | .unreserveConnection c _ n | .payloadReserved c _ n =>
    opts.strictBudget = true ∧ InBudget (s.connections c) ∧ n = budget (s.connections c)
  | .dispatchRequest c _ _ _ => (s.connections c).phase = .requestPayload ∧ Settled opts (s.connections c)
  | .dispatchStream c _ => (s.connections c).phase = .streamRoute ∧ Settled opts (s.connections c)
  | .consume c _ | .parse c _ | .pauseConnectionReads c _ false => Settled opts (s.connections c)
  | .flushConnectionOutput c _ readAllowed | .refreshConnectionEvents c (.flush _ readAllowed) =>
    Settled opts (s.connections c) ∨ readAllowed = false ∧ (s.connections c).closing = true
  | .refreshConnectionEvents c (.pause _ false) =>
    Settled opts (s.connections c) ∨ (s.connections c).closing = true
  | .threw _ (.consume _) => True
  | op =>
    match owner op with
    | .nobody => True
    | .reactor c | .worker c | .stream c => (s.connections c).reservedRequestBytes = 0

/-- The visit of the reactor ends without another look at the reservation. -/
def leaves : Op → Bool
  | .flushConnectionOutput _ _ readAllowed | .refreshConnectionEvents _ (.flush _ readAllowed) => !readAllowed
  | .refreshConnectionEvents _ (.pause _ false) | .threw _ (.consume _) => true
  | _ => false

/-- `close_connection` of another thread does not take the parser's reservation from a visit of the reactor
that goes on with it. -/
def closesAlone (system : Threads State Op) (action : Nat × Choice) : Bool :=
  match system.next action.1 with
  | some (.closeConnection c false) =>
    parserBytes system.shared c == 0 || system.programs.flatten.all fun op => owner op != .reactor c || leaves op
  | _ => true

variable {k : Connection} {o : Op}

theorem parsing_of_nobody (h : owner op = .nobody) : Parsing opts s op := by
  unfold Parsing
  split
  all_goals first | trivial | cases h | rw [h]; trivial

theorem parsing_of_lease (h : owner op = .worker c ∨ owner op = .stream c) :
    Parsing opts s op ↔ (s.connections c).reservedRequestBytes = 0 := by
  unfold Parsing
  split
  all_goals first | (obtain h | h := h <;> rw [h]) | (obtain h | h := h <;> cases h)

def view (k : Connection) : ParsePhase × UInt64 × UInt64 × UInt64 :=
  (k.phase, k.payloadTotal, k.arg1, k.reservedRequestBytes)

theorem view_inj {l : Connection} (h : view l = view k) :
    l.phase = k.phase ∧ l.payloadTotal = k.payloadTotal ∧ l.arg1 = k.arg1 ∧
      l.reservedRequestBytes = k.reservedRequestBytes := by
  simpa [view] using h

theorem Settled.of_view {l : Connection} (h : Settled opts k) (hView : view l = view k) : Settled opts l := by
  obtain ⟨hPhase, hTotal, hArg, hReserved⟩ := view_inj hView
  unfold Settled phaseBytes at h ⊢
  rwa [hPhase, hTotal, hArg, hReserved]

theorem InBudget.of_view {l : Connection} (h : InBudget k) (hView : view l = view k) : InBudget l := by
  obtain ⟨hPhase, -, -, hReserved⟩ := view_inj hView
  unfold InBudget at h ⊢
  rwa [hPhase, hReserved]

theorem budget_of_view {l : Connection} (hView : view l = view k) : budget l = budget k := by
  obtain ⟨hPhase, hTotal, hArg, -⟩ := view_inj hView
  unfold budget
  rw [hPhase, hTotal, hArg]

theorem parsing_of_leaves (hOwner : owner op = .reactor c) (hLeaves : leaves op = true)
    (hClosing : (s.connections c).closing = true) : Parsing opts s op := by
  cases op with
  | flushConnectionOutput k r readAllowed =>
    cases hOwner
    exact .inr ⟨by simpa [leaves] using hLeaves, hClosing⟩
  | refreshConnectionEvents k site =>
    cases site with
    | pause r finish =>
      cases hOwner
      cases finish with
      | true => cases hLeaves
      | false => exact .inr hClosing
    | flush r readAllowed =>
      cases hOwner
      exact .inr ⟨by simpa [leaves] using hLeaves, hClosing⟩
    | _ => cases hLeaves
  | threw k site =>
    cases site with
    | consume r => trivial
    | _ => cases hLeaves
  | _ => cases hLeaves

theorem Parsing.of_view (h : Parsing opts s op)
    (hClosing : ∀ c, (s.connections c).closing = true → (t.connections c).closing = true)
    (hView : ∀ c, claim c op = 1 → view (t.connections c) = view (s.connections c)) : Parsing opts t op := by
  cases hOwner : owner op with
  | nobody => exact parsing_of_nobody hOwner
  | worker c =>
    have hSame := hView c (by rw [claim, hOwner]; exact if_pos rfl)
    rw [parsing_of_lease (.inl hOwner)] at h ⊢
    rw [(view_inj hSame).2.2.2, h]
  | stream c =>
    have hSame := hView c (by rw [claim, hOwner]; exact if_pos rfl)
    rw [parsing_of_lease (.inr hOwner)] at h ⊢
    rw [(view_inj hSame).2.2.2, h]
  | reactor c =>
    have hSame := hView c (by rw [claim, hOwner]; exact if_pos rfl)
    unfold Parsing at h ⊢
    split at h
    all_goals try cases hOwner
    · exact h.of_view hSame
    · exact ⟨h.1, h.2.1.of_view hSame, by rw [budget_of_view hSame, h.2.2]⟩
    · exact ⟨h.1, h.2.1.of_view hSame, by rw [budget_of_view hSame, h.2.2]⟩
    · exact ⟨h.1, h.2.1.of_view hSame, by rw [budget_of_view hSame, h.2.2]⟩
    · exact ⟨h.1, h.2.1.of_view hSame, by rw [budget_of_view hSame, h.2.2]⟩
    · exact ⟨(view_inj hSame).1.trans h.1, h.2.of_view hSame⟩
    · exact ⟨(view_inj hSame).1.trans h.1, h.2.of_view hSame⟩
    · exact h.of_view hSame
    · exact h.of_view hSame
    · exact h.of_view hSame
    · exact h.imp (·.of_view hSame) fun hLeft => ⟨hLeft.1, hClosing _ hLeft.2⟩
    · exact h.imp (·.of_view hSame) fun hLeft => ⟨hLeft.1, hClosing _ hLeft.2⟩
    · exact h.imp (·.of_view hSame) (hClosing _)
    · trivial
    · rw [hOwner] at h ⊢
      exact (view_inj hSame).2.2.2.trans h

theorem view_kept (h : exec opts s op choice = some (t, ops))
    (hKept : .parser ∉ writes op ∧ .reservation ∉ writes op) : view (t.connections c) = view (s.connections c) := by
  obtain ⟨hPhase, hTotal, hArg⟩ := (exec_keeps h).parser c hKept.1
  rw [view, hPhase, hTotal, hArg, (exec_keeps h).reservation c hKept.2]
  rfl

theorem ne_of_claim_eq_zero {k : Nat} (h : claim c op = 0) (hOwner : claim k op = 1) : c ≠ k := by
  rintro rfl
  rw [h] at hOwner
  cases hOwner

theorem view_next (h : exec opts s op choice = some (t, ops)) (hSane : Sane opts s op) (hClaim : claim c op = 0) :
    view (t.connections c) = view (s.connections c) ∨
      ∃ reactor, op = .closeConnection c reactor ∧ c ∈ s.table := by
  by_cases hFields : .parser ∈ writes op ∨ .reservation ∈ writes op
  · cases op with
    | closeConnection k reactor =>
      cases h
      unfold close
      split
      · rename_i hTable
        by_cases hc : c = k
        · exact .inr ⟨reactor, by rw [hc], hc ▸ hTable⟩
        · exact .inl (congrArg view (State.update_other _ _ hc))
      · exact .inl rfl
    | dispatchRequest k r serialized session =>
      have hc := ne_of_claim_eq_zero hClaim (show claim k _ = 1 from if_pos rfl)
      cases serialized with
      | none | some route => cases h; exact .inl (congrArg view (State.update_other _ _ hc))
    | dispatchStream k r =>
      have hc := ne_of_claim_eq_zero hClaim (show claim k _ = 1 from if_pos rfl)
      simp only [exec, dispatchStream] at h
      split at h
      · cases h; exact .inl (congrArg view (State.update_other _ _ hc))
      · cases h; exact .inl (congrArg view (State.update_other _ _ hc))
    | beginPayload k r =>
      have hc := ne_of_claim_eq_zero hClaim (show claim k _ = 1 from if_pos rfl)
      simp only [exec, beginPayload] at h
      split at h
      · cases h; exact .inl rfl
      · cases h; exact .inl (congrArg view (State.update_other _ _ hc))
    | finishRequest k r paused | payloadReserved k r n =>
      have hc := ne_of_claim_eq_zero hClaim (show claim k _ = 1 from if_pos rfl)
      cases h; exact .inl (congrArg view (State.update_other _ _ hc))
    | parse k r =>
      have hc := ne_of_claim_eq_zero hClaim (show claim k _ = 1 from if_pos rfl)
      obtain ⟨l, rfl, -⟩ := parseInput_cases h
      exact .inl (congrArg view (State.update_other _ _ hc))
    | rearmLocked k mayReuse site =>
      have hc := ne_of_claim_eq_zero hClaim (claims_rearmLocked hSane)
      exact .inl (congrArg view (rearmLocked_other h hc))
    | _ => simp [writes] at hFields
  · rw [not_or] at hFields
    exact .inl (view_kept h hFields)

theorem view_update {k : Nat} {f : Connection → Connection} (hf : ∀ l, view (f l) = view l) :
    view ((s.update k f).connections c) = view (s.connections c) := by
  rw [State.update_apply]
  split
  · exact hf _
  · rfl

theorem InBudget.settled (h : InBudget k) : Settled opts k := by
  unfold Settled phaseBytes
  obtain ⟨hPhase | hPhase, hReserved⟩ := h
  · rw [hReserved, hPhase]
    exact (ite_self 0).symm
  · rw [hReserved, hPhase]
    exact (ite_self 0).symm

theorem Settled.inBudget (h : Settled opts k) (hPhase : k.phase = .requestBudget ∨ k.phase = .streamBudget) :
    InBudget k := by
  refine ⟨hPhase, h.trans ?_⟩
  unfold phaseBytes
  obtain hPhase | hPhase := hPhase
  · rw [hPhase]
    exact ite_self 0
  · rw [hPhase]
    exact ite_self 0

theorem settled_header (hPhase : k.phase = .header) :
    Settled opts k ↔ k.reservedRequestBytes = 0 := by
  unfold Settled phaseBytes
  rw [hPhase]
  simp

structure Continues (opts : Options) (t : State) (c : Nat) (ops : List Op) : Prop where
  parsing : ∀ o ∈ ops, Parsing opts t o
  ends : (∃ o ∈ ops, claim c o = 1) ∨ Settled opts (t.connections c) ∨ (t.connections c).closing = true

namespace Continues

theorem on (hParsing : Parsing opts t o) (hClaim : claim c o = 1) : Continues opts t c [o] :=
  ⟨by simpa using hParsing, .inl ⟨o, List.mem_singleton_self o, hClaim⟩⟩

theorem leaves (hNobody : owner o = .nobody)
    (hLeft : Settled opts (t.connections c) ∨ (t.connections c).closing = true) : Continues opts t c [o] :=
  ⟨by simpa using parsing_of_nobody hNobody, .inr hLeft⟩

theorem cons (hNobody : owner o = .nobody) (h : Continues opts t c ops) : Continues opts t c (o :: ops) :=
  ⟨List.forall_mem_cons.mpr ⟨parsing_of_nobody hNobody, h.parsing⟩,
    h.ends.imp_left fun ⟨x, hx, hClaim⟩ => ⟨x, List.mem_cons_of_mem _ hx, hClaim⟩⟩

theorem append {front : List Op} (hFree : ∀ x ∈ front, owner x = .nobody) (h : Continues opts t c ops) :
    Continues opts t c (front ++ ops) := by
  induction front with
  | nil => exact h
  | cons x rest ih =>
    exact cons (hFree x List.mem_cons_self) (ih fun y hy => hFree y (List.mem_cons_of_mem _ hy))

end Continues

theorem closing_setClosing_self : ((s.setClosing c).connections c).closing = true := by
  rw [State.setClosing, State.update_self]

theorem reserved_of_view {l : Connection} (hView : view l = view k) (h : k.reservedRequestBytes = 0) :
    l.reservedRequestBytes = 0 :=
  (view_inj hView).2.2.2.trans h

theorem parsed_continues {r : Nat} {l : Connection} (h : Parsed opts c r (s.connections c) l ops)
    (hNow : t.connections c = l) (hSettled : Settled opts (s.connections c)) : Continues opts t c ops := by
  cases h with
  | exhausted => exact .leaves rfl (.inl <| hSettled.of_view (by rw [hNow]; rfl))
  | endOfStream => exact .leaves rfl (.inr (by rw [hNow]))
  | malformed => exact .on trivial (if_pos rfl)
  | cancel more hPhase => exact .on (hSettled.of_view (by rw [hNow]; rfl)) (if_pos rfl)
  | request n more hPhase hNonzero hFits =>
    refine .on ?_ (if_pos rfl)
    change InBudget (t.connections c)
    rw [hNow]
    exact ⟨.inl rfl, (settled_header hPhase).mp hSettled⟩
  | stream n more hPhase hNonzero hFits =>
    refine .on ?_ (if_pos rfl)
    change InBudget (t.connections c)
    rw [hNow]
    exact ⟨.inr rfl, (settled_header hPhase).mp hSettled⟩
  | payload serialized session more hPhase | route more hPhase =>
    exact .on ⟨by rw [hNow]; exact hPhase, hSettled.of_view (by rw [hNow]; rfl)⟩ (if_pos rfl)

theorem payloadReserved_settles {r : Nat} {n : UInt64} (h : Parsing opts s (.payloadReserved c r n)) :
    Settled opts ((payloadReserved s c r n).1.connections c) := by
  obtain ⟨hStrict, ⟨hPhase | hPhase, -⟩, rfl⟩ := h
  · unfold payloadReserved Settled phaseBytes
    rw [State.update_self]
    simp [hStrict, hPhase, admittedPhase, budget]
  · unfold payloadReserved Settled phaseBytes
    rw [State.update_self]
    simp [hStrict, hPhase, admittedPhase, budget]

theorem reactor_continues (h : exec opts s op choice = some (t, ops)) (hOwner : owner op = .reactor c)
    (hParsing : Parsing opts s op) : Continues opts t c ops := by
  cases exec_outcome h with
  | flushedAll =>
    cases hOwner
    exact .on (hParsing.imp (·.of_view (view_update fun _ => rfl)) fun hLeft => ⟨hLeft.1, exec_closing h hLeft.2⟩)
      (if_pos rfl)
  | flushedConsume =>
    cases hOwner
    exact .on ((hParsing.resolve_right (by simp)).of_view (view_update fun _ => rfl)) (if_pos rfl)
  | flushedDone =>
    cases hOwner
    exact .leaves rfl (hParsing.imp (·.of_view (view_update fun _ => rfl)) fun hLeft => exec_closing h hLeft.2)
  | flushFailed | streamRefused | threwConsume =>
    cases hOwner
    exact .leaves rfl (.inr closing_setClosing_self)
  | consumeBudget hPhase =>
    cases hOwner
    exact .on (Settled.inBudget hParsing hPhase) (if_pos rfl)
  | beginEmpty hStrict | beginReserve hStrict =>
    cases hOwner
    exact .on ⟨hStrict, hParsing, rfl⟩ (if_pos rfl)
  | beginPayload hLoose =>
    cases hOwner
    refine .on ?_ (if_pos rfl)
    change Settled opts ((s.update c _).connections c)
    rw [State.update_self]
    unfold Settled phaseBytes
    rw [hLoose]
    exact hParsing.2
  | reserveConnection =>
    cases hOwner
    obtain ⟨hStrict, hBudget, hn⟩ := hParsing
    have hView := view_kept (c := c) h (by simp [writes])
    exact .on ⟨hStrict, hBudget.of_view hView, hn.trans (budget_of_view hView).symm⟩ (if_pos rfl)
  | connectionFull =>
    cases hOwner
    exact .on hParsing.2.1.settled (if_pos rfl)
  | unreserveConnection =>
    cases hOwner
    exact .on (hParsing.2.1.settled.of_view (view_update fun _ => rfl)) (if_pos rfl)
  | payloadReserved =>
    cases hOwner
    exact .on (payloadReserved_settles hParsing) (if_pos rfl)
  | parse hParsed =>
    cases hOwner
    exact parsed_continues hParsed (State.update_self s c _) hParsing
  | dispatchSerialized | dispatchRegular | dispatchStream =>
    cases hOwner
    exact .on (congrArg Connection.reservedRequestBytes (State.update_self _ c _)) (if_pos rfl)
  | streamLease =>
    cases hOwner
    exact .on (reserved_of_view (view_update fun _ => rfl) hParsing) (if_pos rfl)
  | finishPaused | finishRequest =>
    cases hOwner
    have hSettled : Settled opts ((s.update c fun k => { k with phase := .header }).connections c) := by
      rw [State.update_self]
      exact (settled_header rfl).mpr hParsing
    first | exact .on hSettled (if_pos rfl) | exact .leaves rfl (.inl hSettled)
  | @pauseConnectionReads k r finish =>
    cases hOwner
    cases finish with
    | true => exact .on (reserved_of_view (view_update fun _ => rfl) hParsing) (if_pos rfl)
    | false => exact .on (.inl (Settled.of_view hParsing (view_update fun _ => rfl))) (if_pos rfl)
  | pausedConsumed =>
    cases hOwner
    exact .leaves rfl (.inl hParsing)
  | @jobRefused k r n isStream =>
    cases isStream with
    | true => cases hOwner
    | false =>
      cases hOwner
      exact .append (fun x hx => (giveBack_free x hx).2.1) (.cons rfl (.on hParsing (if_pos rfl)))
  | jobFailed =>
    cases hOwner
    exact .append (fun x hx => (giveBack_free x hx).2.1) (.on trivial (if_pos rfl))
  | queueRequest =>
    cases hOwner
    exact .on (reserved_of_view (view_kept h (by simp [writes])) hParsing) (if_pos rfl)
  | @allocationFailed k n route site | @serializedStopping k n route site | @serializedBusy k n route site =>
    cases site with
    | continuation => cases hOwner
    | dispatch r =>
      cases hOwner
      refine .append (fun x hx => (giveBack_free x hx).2.1) ?_
      first
      | exact .on trivial (if_pos rfl)
      | exact .on hParsing (if_pos rfl)
      | exact .cons rfl (.on hParsing (if_pos rfl))
  | @admitted k n route site latestWins =>
    cases site with
    | continuation => cases hOwner
    | dispatch r =>
      cases hOwner
      have hZero := reserved_of_view (view_kept (c := c) h (by simp [writes])) hParsing
      exact .append (fun x hx => (finishSuperseded_free x hx).2.1) (.on hZero (if_pos rfl))
  | @writeOverflow k site | @writeFailed k site | @writeQueued k site =>
    cases site with
    | consume r =>
      cases hOwner
      first
      | exact .on trivial (if_pos rfl)
      | exact .on (reserved_of_view (view_update fun _ => rfl) hParsing) (if_pos rfl)
      | exact .cons rfl (.cons rfl (.on trivial (if_pos rfl)))
    | _ => cases hOwner
  | @refreshConnectionEvents k site modified =>
    have hView := view_kept (c := c) h (by simp [writes])
    cases site with
    | resume => cases hOwner
    | pause r finish =>
      cases hOwner
      cases finish with
      | true => exact .on (reserved_of_view hView hParsing) (if_pos rfl)
      | false => exact .leaves rfl (hParsing.imp (·.of_view hView) (exec_closing h))
    | write site =>
      cases site with
      | consume r =>
        cases hOwner
        unfold afterRefresh
        dsimp only
        split
        · exact .on (reserved_of_view hView hParsing) (if_pos rfl)
        · exact .on trivial (if_pos rfl)
      | _ => cases hOwner
    | flush r readAllowed =>
      cases hOwner
      have hLeft := hParsing.imp (·.of_view hView) fun hLeft => And.intro hLeft.1 (exec_closing h hLeft.2)
      unfold afterRefresh
      dsimp only
      split
      · cases readAllowed with
        | true => exact .on (hLeft.resolve_right (by simp)) (if_pos rfl)
        | false => exact .leaves rfl (hLeft.imp id And.right)
      · exact .leaves rfl (hLeft.imp id And.right)
  | @rearmClosing k site | @rearmConnection k site | @rearmRunning k site | @rearmStopped k site
  | @rearmLocked k mayReuse site | @rearmRefused k mayReuse site => cases site <;> cases hOwner
  -- The others keep the state.
  | _ => first | cases hOwner; done | cases hOwner; exact .on hParsing (if_pos rfl)

theorem lease_continues (h : exec opts s op choice = some (t, ops))
    (hOwner : owner op = .worker c ∨ owner op = .stream c) (hParsing : Parsing opts s op) (ho : o ∈ ops) :
    Parsing opts t o := by
  have hPlain : acquires op = false := by
    cases op with
    | runReactor | acquireLease k | streamLease k r n
    | workerLoop => obtain hOwner | hOwner := hOwner <;> cases hOwner
    | _ => rfl
  obtain hNobody | hSame := (exec_passes h hPlain).owners o ho
  · exact parsing_of_nobody hNobody
  · rw [parsing_of_lease hOwner] at hParsing
    rw [parsing_of_lease (hSame ▸ hOwner)]
    by_cases hField : .reservation ∈ writes op
    · cases op with
      | rearmLocked k mayReuse site =>
        obtain ⟨more, -, rfl⟩ | ⟨-, rfl⟩ := rearmLocked_cases h
        · cases ho
        · rw [List.mem_singleton.mp ho] at hSame
          rw [← hSame] at hOwner
          obtain hOwner | hOwner := hOwner <;> cases hOwner
      | closeConnection k reactor | dispatchRequest k r serialized session | dispatchStream k r
      | payloadReserved k r n => obtain hOwner | hOwner := hOwner <;> cases hOwner
      | _ => simp [writes] at hField
    · rw [(exec_keeps h).reservation c hField, hParsing]

structure Inv (opts : Options) (system : Threads State Op) : Prop where
  parsing : ∀ op ∈ system.pending, Parsing opts system.shared op
  free : ∀ c, refreshable system.shared c → (∀ op ∈ system.pending, claim c op = 0) →
    Settled opts (system.shared.connections c)
  jobs : ∀ job ∈ system.shared.pendingJobs, job.isStream = true →
    (system.shared.connections job.connection).reservedRequestBytes = 0

section Step

variable {system later : Threads State Op} {others : Multiset Op}

theorem close_connection (hTable : c ∈ s.table) :
    ((close s c).connections c).reservedRequestBytes = 0 ∧ ((close s c).connections c).closing = true ∧
      ((s.connections c).reservedRequestBytes = 0 → view ((close s c).connections c) = view (s.connections c)) := by
  unfold close
  rw [if_pos hTable, State.update_self]
  refine ⟨rfl, rfl, fun hZero => ?_⟩
  simp only [view, hZero]

theorem reserved_zero_next (h : exec opts s op choice = some (t, ops)) (hSane : Sane opts s op)
    (hClaim : claim c op = 0) (hZero : (s.connections c).reservedRequestBytes = 0) :
    (t.connections c).reservedRequestBytes = 0 := by
  obtain hView | ⟨reactor, rfl, hTable⟩ := view_next h hSane hClaim
  · exact reserved_of_view hView hZero
  · cases h
    exact (close_connection hTable).1

def Undisturbed (system : Threads State Op) (op : Op) : Prop :=
  ∀ c, op = .closeConnection c false → parserBytes system.shared c ≠ 0 →
    ∀ o ∈ system.pending, owner o = .reactor c → leaves o = true

theorem undisturbed_of_alone {action : Nat × Choice} (hGuard : closesAlone system action = true)
    (hNext : system.next action.1 = some op) : Undisturbed system op := by
  rintro k rfl hTaken o ho hOwner
  simp only [closesAlone, hNext, Bool.or_eq_true, beq_iff_eq, List.all_eq_true, bne_iff_ne] at hGuard
  exact (hGuard.resolve_left hTaken o ho).resolve_left (absurd hOwner)

theorem Inv.parsing_others (hInv : Inv opts system) (hOwners : Ownership.Inv opts system)
    (hGuard : Undisturbed system op) (hBefore : system.pending = op ::ₘ others)
    (hExec : exec opts system.shared op choice = some (t, ops)) (ho : o ∈ others) :
    Parsing opts t o := by
  have hMem : o ∈ system.pending := hBefore ▸ Multiset.mem_cons_of_mem ho
  have hSane := hOwners.sane op (hBefore ▸ Multiset.mem_cons_self _ _)
  have hParsing := hInv.parsing o hMem
  cases hOwner : owner o with
  | nobody => exact parsing_of_nobody hOwner
  | worker c =>
    have hClaim := hOwners.claim_unique (c := c) hBefore ho (by rw [claim, hOwner]; exact if_pos rfl)
    rw [parsing_of_lease (.inl hOwner)] at hParsing ⊢
    exact reserved_zero_next hExec hSane hClaim hParsing
  | stream c =>
    have hClaim := hOwners.claim_unique (c := c) hBefore ho (by rw [claim, hOwner]; exact if_pos rfl)
    rw [parsing_of_lease (.inr hOwner)] at hParsing ⊢
    exact reserved_zero_next hExec hSane hClaim hParsing
  | reactor c =>
    have hClaim : claim c o = 1 := by rw [claim, hOwner]; exact if_pos rfl
    have hKeeps (hView : view (t.connections c) = view (system.shared.connections c)) : Parsing opts t o := by
      refine hParsing.of_view (fun _ => exec_closing hExec) fun k hk => ?_
      obtain rfl : k = c := by
        by_contra hOther
        rw [claim, hOwner] at hk
        simp [Owner.claims, Ne.symm hOther] at hk
      exact hView
    obtain hView | ⟨reactor, rfl, hTable⟩ := view_next hExec hSane (hOwners.claim_unique hBefore ho hClaim)
    · exact hKeeps hView
    · by_cases hZero : (system.shared.connections c).reservedRequestBytes = 0
      · cases hExec
        exact hKeeps ((close_connection hTable).2.2 hZero)
      · cases reactor with
        | false =>
          have hLeaves := hGuard c rfl (by rwa [parserBytes, if_pos hTable]) o hMem hOwner
          cases hExec
          exact parsing_of_leaves hOwner hLeaves (close_connection hTable).2.1
        | true =>
          have hControl := hOwners.control_others hBefore rfl o ho
          rw [control_of_reactor hOwner] at hControl
          cases hControl

theorem Inv.settled_of_free (hInv : Inv opts system) (hOwners : Ownership.Inv opts system)
    (hBefore : system.pending = op ::ₘ others) (hClaim : claim c op = 0) (hTable : c ∈ system.shared.table)
    (hOpen : (system.shared.connections c).closing = false)
    (hStream : (system.shared.connections c).streamActive = false)
    (hOwned : (system.shared.connections c).workerOwned = false)
    (hReactor : ∀ o ∈ others, owner o ≠ .reactor c) : Settled opts (system.shared.connections c) := by
  refine hInv.free c ⟨hTable, hOpen, hStream, hOwned⟩ ?_
  intro o ho
  rw [hBefore] at ho
  obtain rfl | hOther := Multiset.mem_cons.mp ho
  · exact hClaim
  · have hNone := (hOwners.unclaimed hBefore hReactor hOwned hStream).1
    have hLe := Threads.le_weigh (claim c) hOther
    omega

theorem flags_before (h : exec opts s op choice = some (t, ops)) (hSane : Sane opts s op) (hClaim : claim c op = 0)
    (hFree : refreshable t c) :
    (s.connections c).closing = false ∧ (s.connections c).streamActive = false ∧
      (s.connections c).workerOwned = false := by
  obtain ⟨-, hOpen, hStream, hOwned⟩ := hFree
  have hDown {party : Owner} (hFlag : party.Flagged s) (hParty : party = .worker c ∨ party = .stream c) :
      party.Flagged t := by
    obtain hKept | ⟨k, r, -, rfl⟩ | ⟨k, mayReuse, site, rfl, hClaims⟩ := exec_flagged h hFlag
    · exact hKept
    · obtain hParty | hParty := hParty <;> cases hParty
    · obtain rfl : k = c := by
        by_contra hOther
        obtain rfl | rfl := hParty <;> simp [Owner.claims, Ne.symm hOther] at hClaims
      rw [claims_rearmLocked hSane] at hClaim
      cases hClaim
  refine ⟨?_, ?_, ?_⟩
  · by_contra hClosed
    rw [exec_closing h (by simpa using hClosed)] at hOpen
    cases hOpen
  · by_contra hUp
    have hFlag := @hDown (.stream c) (by simpa [Owner.Flagged] using hUp) (.inr rfl)
    cases hFlag.symm.trans hStream
  · by_contra hUp
    have hFlag := @hDown (.worker c) (by simpa [Owner.Flagged] using hUp) (.inl rfl)
    cases hFlag.symm.trans hOwned

theorem rearm_settles {mayReuse : Bool} {site : RearmSite}
    (h : exec opts s (.rearmLocked c mayReuse site) choice = some (t, ops)) : Settled opts (t.connections c) := by
  have hReset : ∀ more added, Settled opts ((rearm s c mayReuse more added).connections c) := by
    intro more added
    unfold rearm
    rw [State.update_self]
    exact (settled_header rfl).mpr rfl
  obtain ⟨more, rfl, -⟩ | ⟨rfl, -⟩ := rearmLocked_cases h
  · exact hReset more true
  · exact hReset false false

theorem Inv.parsing_next (hInv : Inv opts system) (hOwners : Ownership.Inv opts system)
    (hBefore : system.pending = op ::ₘ others) (hExec : exec opts system.shared op choice = some (t, ops))
    (ho : o ∈ ops) : Parsing opts t o := by
  have hOp : op ∈ system.pending := hBefore ▸ Multiset.mem_cons_self _ _
  have hParsing := hInv.parsing op hOp
  cases hOwner : owner op with
  | reactor c => exact (reactor_continues hExec hOwner hParsing).parsing o ho
  | worker c => exact lease_continues hExec (.inl hOwner) hParsing ho
  | stream c => exact lease_continues hExec (.inr hOwner) hParsing ho
  | nobody =>
    cases hAcquires : acquires op with
    | false =>
      obtain hNobody | hSame := (exec_passes hExec hAcquires).owners o ho
      · exact parsing_of_nobody hNobody
      · exact parsing_of_nobody (hSame.trans hOwner)
    | true =>
      cases op with
      | runReactor =>
        obtain ⟨rest, -, hLoops⟩ | ⟨c, rest, hVisit, hVisits, rfl⟩ | ⟨c, added, hAccept⟩ := runReactor_cases hExec
        · exact parsing_of_nobody ((loops_passes hLoops).2 o ho)
        · obtain ⟨hTable, hOpen, hStream, hOwned⟩ := hVisit
          have hSettled := hInv.settled_of_free hOwners hBefore rfl hTable hOpen hStream hOwned fun x hx hReactor => by
            have hControl := hOwners.control_others hBefore rfl x hx
            rw [control_of_reactor hReactor] at hControl
            cases hControl
          obtain rfl | ⟨readAllowed, -, rfl | rfl⟩ := hVisits
          · exact parsing_of_nobody (List.mem_singleton.mp ho ▸ rfl)
          · rw [List.mem_singleton.mp ho]
            exact .inl (hSettled.of_view (view_update fun _ => rfl))
          · cases readAllowed with
            | true =>
              rw [List.mem_singleton.mp ho]
              exact hSettled.of_view (view_update fun _ => rfl)
            | false => exact parsing_of_nobody (List.mem_singleton.mp ho ▸ rfl)
        · obtain ⟨-, -, rfl, -⟩ := acceptConnection_cases hAccept
          exact parsing_of_nobody (List.mem_singleton.mp ho ▸ rfl)
      | acquireLease c =>
        obtain ⟨hLeasable, rfl, rfl⟩ | ⟨-, rfl⟩ := acquireLease_cases hExec
        · obtain ⟨hTable, hBusy, hPhase, -, -, hStream, hOwned, hOpen, -⟩ := hLeasable
          have hSettled := hInv.settled_of_free hOwners hBefore rfl hTable hOpen hStream hOwned fun x hx hReactor => by
            have hFlag := hOwners.flags x (hBefore ▸ Multiset.mem_cons_of_mem hx)
            rw [hReactor] at hFlag
            cases hFlag.symm.trans hBusy
          rw [List.mem_singleton.mp ho]
          exact reserved_of_view (view_update fun _ => rfl) ((settled_header hPhase).mp hSettled)
        · cases ho
      | workerLoop =>
        obtain ⟨job, rest, hJobs, rfl, rfl⟩ | ⟨-, rfl⟩ := workerLoop_cases hExec
        · obtain hNobody | ⟨hStream, hRuns⟩ := (startJob_owner job).2.2 o ho
          · exact parsing_of_nobody hNobody
          · rw [parsing_of_lease (.inr hRuns)]
            exact hInv.jobs job (hJobs ▸ List.mem_cons_self) hStream
        · cases ho
      | streamLease c r n => cases hOwner
      | _ => cases hAcquires

theorem Inv.free_next (hInv : Inv opts system) (hOwners : Ownership.Inv opts system)
    (hTurn : Turn opts system op choice ops others later) (hFree : refreshable later.shared c)
    (hUnclaimed : ∀ o ∈ later.pending, claim c o = 0) : Settled opts (later.shared.connections c) := by
  have hOp := hTurn.mem
  have hSane := hOwners.sane op hOp
  have hOthers : ∀ o ∈ others, claim c o = 0 := fun o ho =>
    hUnclaimed o (hTurn.after ▸ Multiset.mem_add.mpr (.inr ho))
  by_cases hClaim : claim c op = 0
  · obtain hView | ⟨reactor, rfl, hIn⟩ := view_next hTurn.exec hSane hClaim
    · refine Settled.of_view ?_ hView
      obtain hTable | ⟨hNew, -⟩ | ⟨mayReuse, site, rfl⟩ := table_next hTurn.exec hFree.1
      · refine hInv.free c ⟨hTable, flags_before hTurn.exec hSane hClaim hFree⟩ fun o ho => ?_
        rw [hTurn.before] at ho
        obtain rfl | hOther := Multiset.mem_cons.mp ho
        · exact hClaim
        · exact hOthers o hOther
      · rw [hNew]
        exact (settled_header rfl).mpr rfl
      · rw [claims_rearmLocked hSane] at hClaim
        cases hClaim
    · have hShared : later.shared = close system.shared c := (outcome_eq hTurn.exec).1
      have hClosing := (close_connection hIn).2.1
      rw [← hShared, hFree.2.1] at hClosing
      cases hClosing
  · obtain hOwner | hOwner := claims_pos.mp hClaim
    · obtain ⟨o, ho, hNext⟩ | hSettled | hClosing := (reactor_continues hTurn.exec hOwner (hInv.parsing op hOp)).ends
      · rw [hUnclaimed o (hTurn.after ▸ Multiset.mem_add.mpr (.inl ho))] at hNext
        cases hNext
      · exact hSettled
      · rw [hFree.2.1] at hClosing
        cases hClosing
    · -- a lease ends in `rearm_connection` or leaves its flag up
      obtain hFlag | ⟨k, r, rfl, -⟩ | ⟨k, mayReuse, site, rfl, hClaims⟩ :=
        exec_flagged hTurn.exec (hOwners.flags op hOp)
      · obtain hOwner | hOwner := hOwner
        · rw [hOwner] at hFlag
          cases hFlag.symm.trans hFree.2.2.2
        · rw [hOwner] at hFlag
          cases hFlag.symm.trans hFree.2.2.1
      · obtain hOwner | hOwner := hOwner <;> cases hOwner
      · obtain rfl : k = c := by
          by_contra hOther
          obtain hOwner | hOwner := hOwner <;> simp [hOwner, Owner.claims, Ne.symm hOther] at hClaims
        exact rearm_settles hTurn.exec

theorem Inv.next (hInv : Inv opts system) (hOwners : Ownership.Inv opts system)
    (hGuard : Undisturbed system op) (hTurn : Turn opts system op choice ops others later) : Inv opts later where
  parsing := by
    intro o ho
    exact (hTurn.mem_later ho).elim (hInv.parsing_next hOwners hTurn.before hTurn.exec)
      (hInv.parsing_others hOwners hGuard hTurn.before hTurn.exec)
  free := fun c hFree hUnclaimed => hInv.free_next hOwners hTurn hFree hUnclaimed
  jobs := by
    intro job hJob hStream
    have hOp := hTurn.mem
    obtain hOld | ⟨c, r, n, isStream, rfl, rfl⟩ := exec_jobs hTurn.exec hJob
    · exact reserved_zero_next hTurn.exec (hOwners.sane op hOp) (hOwners.job_unclaimed hOp hOld hStream)
        (hInv.jobs job hOld hStream)
    · obtain rfl : isStream = true := hStream
      have hZero := (parsing_of_lease (.inr rfl)).mp (hInv.parsing _ hOp)
      exact reserved_of_view (view_kept hTurn.exec (by simp [writes])) hZero

end Step

theorem Inv.start {system : Threads State Op} (h : Initial system) : Inv opts system := by
  refine ⟨?_, ?_, ?_⟩
  · intro op hOp
    refine parsing_of_nobody ?_
    obtain rfl | rfl | rfl | rfl := initial_pending h hOp <;> rfl
  · rw [h.1]
    rintro c ⟨hTable, -⟩
    cases hTable
  · rw [h.1]
    intro job hJob
    cases hJob

end EasyUds.Server.Reservation

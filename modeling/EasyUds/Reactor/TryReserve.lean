import Mathlib.Data.UInt
import Mathlib.Data.List.Perm.Basic
import EasyUds.Lib.Machine
import EasyUds.Lib.Pool

/-! # Concurrent reservations

`try_reserve_connection_request_bytes` and `release_connection_request_bytes`, at the grain of their
atomic accesses. Any number of threads call them on any connections; a `compare_exchange_weak` may fail
without a reason. What a thread computes between two accesses belongs to the first of them.

`wrapped` records whether any expression has left the range of `size_t`, and a thread keeps what its
current call has added to the two counters; both are a history.
-/

namespace EasyUds.Reactor.TryReserve

open Lib

structure Limits where
  connectionLimit : UInt64
  globalLimit : UInt64

inductive Pc
  | idle
  | loadConnection (connection : Nat) (requestBytes : UInt64)
  | exchangeConnection (connection : Nat) (requestBytes connectionBytes : UInt64)
  | loadGlobal (connection : Nat) (requestBytes : UInt64)
  | exchangeGlobal (connection : Nat) (requestBytes globalBytes : UInt64)
  | unreserve (connection : Nat) (requestBytes : UInt64)
  | releaseConnection (connection : Nat) (requestBytes : UInt64)
  | releaseGlobal (connection : Nat) (requestBytes : UInt64)
  deriving DecidableEq, Repr

structure Thread where
  pc : Pc := .idle
  connectionAdded : Int := 0
  globalAdded : Int := 0
  deriving DecidableEq, Repr

structure Return where
  connection : Nat
  requestBytes : UInt64
  result : Bool
  connectionAdded : Int
  globalAdded : Int
  deriving DecidableEq, Repr

structure State where
  inflightRequestBytes : Nat → UInt64
  totalInflightRequestBytes : UInt64
  threads : List Thread
  granted : List (Nat × UInt64)
  returns : List Return
  wrapped : Bool

def addWraps (left right : UInt64) : Bool := 2 ^ 64 ≤ left.toNat + right.toNat

def subWraps (left right : UInt64) : Bool := left < right

inductive Next
  | goto (pc : Pc)
  | returns (result : Bool)

section Loops

variable (lim : Limits) (c : Nat) (n value : UInt64)

/-- The test behind the first loop. The second expression is only evaluated if the first test fails. -/
def connectionCheck : Next × Bool :=
  if value > lim.connectionLimit then (.returns false, false)
  else if n > lim.connectionLimit - value then (.returns false, subWraps lim.connectionLimit value)
  else (.goto (.loadGlobal c n), subWraps lim.connectionLimit value)

def connectionLoop : Next × Bool :=
  let taken := min value lim.connectionLimit
  if n ≤ lim.connectionLimit - taken then
    (.goto (.exchangeConnection c n value), subWraps lim.connectionLimit taken || addWraps value n)
  else
    let (next, wraps) := connectionCheck lim c n value
    (next, subWraps lim.connectionLimit taken || wraps)

def globalLoop : Next × Bool :=
  if value ≤ lim.globalLimit then
    if n ≤ lim.globalLimit - value then
      (.goto (.exchangeGlobal c n value), subWraps lim.globalLimit value || addWraps value n)
    else (.goto (.unreserve c n), subWraps lim.globalLimit value)
  else (.goto (.unreserve c n), false)

end Loops

namespace State

variable (s : State)

def setConnection (c : Nat) (value : UInt64) : State :=
  { s with inflightRequestBytes := fun k => if k = c then value else s.inflightRequestBytes k }

def change (before after : UInt64) : Int := (after.toNat : Int) - before.toNat

def land (i : Nat) (thread : Thread) (c : Nat) (n : UInt64) (next : Next × Bool) : State :=
  match next.1 with
  | .goto pc => { s with threads := s.threads.set i { thread with pc }, wrapped := s.wrapped || next.2 }
  | .returns result =>
    { s with
      threads := s.threads.set i { thread with pc := .idle }
      wrapped := s.wrapped || next.2
      granted := if result then (c, n) :: s.granted else s.granted
      returns := ⟨c, n, result, thread.connectionAdded, thread.globalAdded⟩ :: s.returns }

end State

/-- One access; `spurious` says whether an exchange fails although the value is the expected one. -/
def access (lim : Limits) (s : State) (i : Nat) (thread : Thread) (spurious : Bool) : Option State :=
  match thread.pc with
  | .idle => none
  | .loadConnection c n => some (s.land i thread c n (connectionLoop lim c n (s.inflightRequestBytes c)))
  | .exchangeConnection c n expected =>
    let value := s.inflightRequestBytes c
    if value = expected ∧ spurious = false then
      let added := { thread with connectionAdded := thread.connectionAdded + State.change value (expected + n) }
      some ((s.setConnection c (expected + n)).land i added c n (connectionCheck lim c n expected))
    else some (s.land i thread c n (connectionLoop lim c n value))
  | .loadGlobal c n => some (s.land i thread c n (globalLoop lim c n s.totalInflightRequestBytes))
  | .exchangeGlobal c n expected =>
    let value := s.totalInflightRequestBytes
    if value = expected ∧ spurious = false then
      let added := { thread with globalAdded := thread.globalAdded + State.change value (expected + n) }
      some ({ s with totalInflightRequestBytes := expected + n }.land i added c n (.returns true, false))
    else some (s.land i thread c n (globalLoop lim c n value))
  | .unreserve c n =>
    let value := s.inflightRequestBytes c
    let added := { thread with connectionAdded := thread.connectionAdded + State.change value (value - n) }
    some ((s.setConnection c (value - n)).land i added c n (.returns false, subWraps value n))
  | .releaseConnection c n =>
    let value := s.inflightRequestBytes c
    some ((s.setConnection c (value - n)).land i thread c n (.goto (.releaseGlobal c n), subWraps value n))
  | .releaseGlobal c n =>
    let value := s.totalInflightRequestBytes
    some ({ s with totalInflightRequestBytes := value - n }.land i thread c n (.goto .idle, subWraps value n))

inductive Action
  | tryReserve (thread : Nat) (connection : Nat) (requestBytes : UInt64)
  | release (thread : Nat) (connection : Nat) (requestBytes : UInt64)
  | access (thread : Nat) (spurious : Bool)
  deriving DecidableEq, Repr

def step (lim : Limits) (s : State) : Action → Option State
  | .tryReserve i c n =>
    if s.threads[i]?.map Thread.pc = some .idle then
      some (s.land i {} c n (if n = 0 then (.returns true, false) else (.goto (.loadConnection c n), false)))
    else none
  | .release i c n =>
    if s.threads[i]?.map Thread.pc = some .idle ∧ (c, n) ∈ s.granted then
      some ({ s with granted := s.granted.erase (c, n) }.land i {} c n
        (if n = 0 then (.goto .idle, false) else (.goto (.releaseConnection c n), false)))
    else none
  | .access i spurious =>
    match s.threads[i]? with
    | none => none
    | some thread => access lim s i thread spurious

structure Initial (s : State) : Prop where
  inflightRequestBytes : ∀ c, s.inflightRequestBytes c = 0
  totalInflightRequestBytes : s.totalInflightRequestBytes = 0
  threads : ∀ thread ∈ s.threads, thread.pc = .idle
  granted : s.granted = []
  returns : s.returns = []
  wrapped : s.wrapped = false

def machine (lim : Limits) : Machine State Action where
  initial := Initial
  step := step lim

section LoopFacts

variable {lim : Limits} {c : Nat} {n value : UInt64}

theorem sub_toNat {left right : UInt64} (h : right ≤ left) : (left - right).toNat = left.toNat - right.toNat :=
  UInt64.toNat_sub_of_le left right h

theorem addWraps_false {limit : UInt64} (h : value.toNat + n.toNat ≤ limit.toNat) : addWraps value n = false := by
  have hLimit := limit.toNat_lt
  rw [addWraps, decide_eq_false_iff_not]
  omega

theorem subWraps_false {left right : UInt64} (h : right ≤ left) : subWraps left right = false := by
  rw [subWraps, decide_eq_false_iff_not, UInt64.not_lt]
  exact h

theorem add_toNat {limit : UInt64} (h : value.toNat + n.toNat ≤ limit.toNat) :
    (value + n).toNat = value.toNat + n.toNat := by
  have hLimit := limit.toNat_lt
  rw [UInt64.toNat_add]
  omega

theorem connectionCheck_fits (h : value.toNat + n.toNat ≤ lim.connectionLimit.toNat) :
    connectionCheck lim c n value = (.goto (.loadGlobal c n), false) := by
  have hValue : value ≤ lim.connectionLimit := UInt64.le_iff_toNat_le.mpr (by omega)
  have hRoom : ¬ n > lim.connectionLimit - value := by
    rw [gt_iff_lt, UInt64.lt_iff_toNat_lt, sub_toNat hValue]
    omega
  rw [connectionCheck, if_neg (UInt64.not_lt.mpr hValue), if_neg hRoom, subWraps_false hValue]

theorem connectionLoop_cases (lim : Limits) (c : Nat) (value : UInt64) (hBytes : n ≠ 0) :
    (value.toNat + n.toNat ≤ lim.connectionLimit.toNat ∧
        connectionLoop lim c n value = (.goto (.exchangeConnection c n value), false)) ∨
      connectionLoop lim c n value = (.returns false, false) := by
  have hPositive : n.toNat ≠ 0 := fun hZero => hBytes (UInt64.toNat_inj.mp hZero)
  by_cases hValue : value ≤ lim.connectionLimit
  · have hMin : min value lim.connectionLimit = value := if_pos hValue
    by_cases hRoom : n ≤ lim.connectionLimit - value
    · have hFits : value.toNat + n.toNat ≤ lim.connectionLimit.toNat := by
        have hLe := UInt64.le_iff_toNat_le.mp hValue
        rw [UInt64.le_iff_toNat_le, sub_toNat hValue] at hRoom
        omega
      refine .inl ⟨hFits, ?_⟩
      simp only [connectionLoop, hMin, if_pos hRoom, subWraps_false hValue, addWraps_false hFits, Bool.or_false]
    · refine .inr ?_
      simp only [connectionLoop, connectionCheck, hMin, if_neg hRoom, if_neg (UInt64.not_lt.mpr hValue),
        if_pos (UInt64.not_le.mp hRoom), subWraps_false hValue, Bool.or_false]
  · have hMin : min value lim.connectionLimit = lim.connectionLimit := if_neg hValue
    have hFull : ¬ n ≤ lim.connectionLimit - lim.connectionLimit := by
      rw [UInt64.le_iff_toNat_le, sub_toNat (UInt64.le_refl _)]
      omega
    refine .inr ?_
    simp only [connectionLoop, connectionCheck, hMin, if_neg hFull, if_pos (UInt64.not_le.mp hValue),
      subWraps_false (UInt64.le_refl _), Bool.or_false]

theorem globalLoop_cases (lim : Limits) (c : Nat) (n value : UInt64) :
    (value.toNat + n.toNat ≤ lim.globalLimit.toNat ∧
        globalLoop lim c n value = (.goto (.exchangeGlobal c n value), false)) ∨
      globalLoop lim c n value = (.goto (.unreserve c n), false) := by
  by_cases hValue : value ≤ lim.globalLimit
  · by_cases hRoom : n ≤ lim.globalLimit - value
    · have hFits : value.toNat + n.toNat ≤ lim.globalLimit.toNat := by
        have hLe := UInt64.le_iff_toNat_le.mp hValue
        rw [UInt64.le_iff_toNat_le, sub_toNat hValue] at hRoom
        omega
      refine .inl ⟨hFits, ?_⟩
      simp only [globalLoop, if_pos hValue, if_pos hRoom, subWraps_false hValue, addWraps_false hFits, Bool.or_false]
    · refine .inr ?_
      simp only [globalLoop, if_pos hValue, if_neg hRoom, subWraps_false hValue]
  · exact .inr (by rw [globalLoop, if_neg hValue])

end LoopFacts

def heldConnection (c : Nat) : Pc → Nat
  | .loadGlobal k n | .exchangeGlobal k n _ | .unreserve k n | .releaseConnection k n => if k = c then n.toNat else 0
  | _ => 0

def heldGlobal : Pc → Nat
  | .releaseConnection _ n | .releaseGlobal _ n => n.toNat
  | _ => 0

def grantedConnection (c : Nat) (grant : Nat × UInt64) : Nat := if grant.1 = c then grant.2.toNat else 0

def grantedGlobal (grant : Nat × UInt64) : Nat := grant.2.toNat

def Ready (lim : Limits) (thread : Thread) : Prop :=
  match thread.pc with
  | .loadConnection _ n => n ≠ 0 ∧ thread.connectionAdded = 0 ∧ thread.globalAdded = 0
  | .exchangeConnection _ n value => n ≠ 0 ∧ value.toNat + n.toNat ≤ lim.connectionLimit.toNat ∧
      thread.connectionAdded = 0 ∧ thread.globalAdded = 0
  | .loadGlobal _ n => thread.connectionAdded = n.toNat ∧ thread.globalAdded = 0
  | .exchangeGlobal _ n value => value.toNat + n.toNat ≤ lim.globalLimit.toNat ∧
      thread.connectionAdded = n.toNat ∧ thread.globalAdded = 0
  | .unreserve _ n => thread.connectionAdded = n.toNat ∧ thread.globalAdded = 0
  | _ => True

/-- All or nothing: a call that returns true has added its bytes to both counters, one that returns
false has added nothing to either. -/
def Return.Exact (call : Return) : Prop :=
  call.connectionAdded = (if call.result then call.requestBytes.toNat else 0) ∧
    call.globalAdded = if call.result then call.requestBytes.toNat else 0

structure Inv (lim : Limits) (s : State) : Prop where
  connections : ∀ c, (s.inflightRequestBytes c).toNat = (s.granted.map (grantedConnection c)).sum +
    (s.threads.map fun thread => heldConnection c thread.pc).sum
  total : s.totalInflightRequestBytes.toNat = (s.granted.map grantedGlobal).sum +
    (s.threads.map fun thread => heldGlobal thread.pc).sum
  connectionBound : ∀ c, s.inflightRequestBytes c ≤ lim.connectionLimit
  globalBound : s.totalInflightRequestBytes ≤ lim.globalLimit
  ready : ∀ thread ∈ s.threads, Ready lim thread
  exact : ∀ call ∈ s.returns, call.Exact
  wrapped : s.wrapped = false

section Steps

variable {lim : Limits} {s t : State} {i : Nat} {old : Thread}

variable {n : UInt64} {c : Nat}

section Loops

variable (h : Inv lim s) (hGet : s.threads[i]? = some old)
include h hGet

/-- One thread moves: the counters change by what it and the grants hold more or less than before. -/
theorem Inv.moved (new : Thread) (hThreads : t.threads = s.threads.set i new) (hReady : Ready lim new)
    (hConnections : ∀ c, (t.inflightRequestBytes c).toNat + heldConnection c old.pc +
        (s.granted.map (grantedConnection c)).sum =
      (s.inflightRequestBytes c).toNat + heldConnection c new.pc + (t.granted.map (grantedConnection c)).sum)
    (hTotal : t.totalInflightRequestBytes.toNat + heldGlobal old.pc + (s.granted.map grantedGlobal).sum =
      s.totalInflightRequestBytes.toNat + heldGlobal new.pc + (t.granted.map grantedGlobal).sum)
    (hConnectionBound : ∀ c, t.inflightRequestBytes c ≤ lim.connectionLimit)
    (hGlobalBound : t.totalInflightRequestBytes ≤ lim.globalLimit) (hExact : ∀ call ∈ t.returns, call.Exact)
    (hWrapped : t.wrapped = false) : Inv lim t where
  connections c := by
    obtain ⟨others, hBefore, hAfter⟩ := Pool.sum_set hGet new fun thread => heldConnection c thread.pc
    have hOld := h.connections c
    have hMoved := hConnections c
    rw [hThreads, hAfter]
    omega
  total := by
    obtain ⟨others, hBefore, hAfter⟩ := Pool.sum_set hGet new fun thread => heldGlobal thread.pc
    have hOld := h.total
    rw [hThreads, hAfter]
    omega
  connectionBound := hConnectionBound
  globalBound := hGlobalBound
  ready thread hThread := by
    rw [hThreads] at hThread
    rcases Pool.mem_set_cases hThread with hThread | rfl
    · exact h.ready thread hThread
    · exact hReady
  exact := hExact
  wrapped := hWrapped

theorem Inv.goes {thread : Thread} {pc : Pc} (hReady : Ready lim { thread with pc })
    (hConnection : ∀ k, heldConnection k pc = heldConnection k old.pc) (hGlobal : heldGlobal pc = heldGlobal old.pc) :
    Inv lim (s.land i thread c n (.goto pc, false)) :=
  h.moved hGet { thread with pc } rfl hReady (fun k => by rw [hConnection k]; rfl) (by rw [hGlobal]; rfl)
    h.connectionBound h.globalBound h.exact (by rw [State.land]; exact (Bool.or_false _).trans h.wrapped)

theorem Inv.fails {thread : Thread} (hConnection : ∀ k, heldConnection k old.pc = 0) (hGlobal : heldGlobal old.pc = 0)
    (hAdded : thread.connectionAdded = 0 ∧ thread.globalAdded = 0) :
    Inv lim (s.land i thread c n (.returns false, false)) := by
  refine h.moved hGet { thread with pc := .idle } rfl trivial (fun k => ?_) ?_ h.connectionBound h.globalBound ?_ ?_
  · rw [hConnection k]
    rfl
  · rw [hGlobal]
    rfl
  · intro call hCall
    rcases List.mem_cons.mp hCall with rfl | hCall
    · exact hAdded
    · exact h.exact call hCall
  · exact (Bool.or_false _).trans h.wrapped

theorem Inv.held_le (c : Nat) : heldConnection c old.pc ≤ (s.inflightRequestBytes c).toNat := by
  obtain ⟨others, hBefore, -⟩ := Pool.sum_set hGet old fun thread => heldConnection c thread.pc
  have hSum := h.connections c
  omega

theorem Inv.heldGlobal_le : heldGlobal old.pc ≤ s.totalInflightRequestBytes.toNat := by
  obtain ⟨others, hBefore, -⟩ := Pool.sum_set hGet old fun thread => heldGlobal thread.pc
  have hSum := h.total
  omega

theorem Inv.loopConnection (hBytes : n ≠ 0) (hConnection : ∀ k, heldConnection k old.pc = 0)
    (hGlobal : heldGlobal old.pc = 0) (hAdded : old.connectionAdded = 0 ∧ old.globalAdded = 0) (value : UInt64) :
    Inv lim (s.land i old c n (connectionLoop lim c n value)) := by
  rcases connectionLoop_cases lim c value hBytes with ⟨hFits, hNext⟩ | hNext
  · rw [hNext]
    exact h.goes hGet ⟨hBytes, hFits, hAdded⟩ (fun k => (hConnection k).symm) hGlobal.symm
  · rw [hNext]
    exact h.fails hGet hConnection hGlobal hAdded

theorem Inv.loopGlobal (hConnection : ∀ k, heldConnection k old.pc = if c = k then n.toNat else 0)
    (hGlobal : heldGlobal old.pc = 0) (hAdded : old.connectionAdded = n.toNat ∧ old.globalAdded = 0) (value : UInt64) :
    Inv lim (s.land i old c n (globalLoop lim c n value)) := by
  rcases globalLoop_cases lim c n value with ⟨hFits, hNext⟩ | hNext
  · rw [hNext]
    exact h.goes hGet ⟨hFits, hAdded⟩ (fun k => (hConnection k).symm) hGlobal.symm
  · rw [hNext]
    exact h.goes hGet hAdded (fun k => (hConnection k).symm) hGlobal.symm

end Loops

theorem setConnection_toNat (c k : Nat) (value : UInt64) :
    ((s.setConnection c value).inflightRequestBytes k).toNat =
      if k = c then value.toNat else (s.inflightRequestBytes k).toNat := by
  show (if k = c then value else s.inflightRequestBytes k).toNat = _
  exact apply_ite UInt64.toNat _ _ _

theorem Inv.setConnection_bound (h : Inv lim s) {value : UInt64} (hValue : value ≤ lim.connectionLimit) (k : Nat) :
    (s.setConnection c value).inflightRequestBytes k ≤ lim.connectionLimit := by
  rw [State.setConnection]
  dsimp only
  split
  · exact hValue
  · exact h.connectionBound k

section Accesses

variable (h : Inv lim s) (hGet : s.threads[i]? = some old)
include h hGet

theorem Inv.exchangeConnection {expected : UInt64} (hPc : old.pc = .exchangeConnection c n expected)
    (hValue : s.inflightRequestBytes c = expected) : Inv lim ((s.setConnection c (expected + n)).land i
      { old with connectionAdded := old.connectionAdded + State.change (s.inflightRequestBytes c) (expected + n) }
      c n (connectionCheck lim c n expected)) := by
  have hReady := h.ready old (Pool.mem_of_getElem? hGet)
  rw [Ready, hPc] at hReady
  obtain ⟨hBytes, hFits, hConnectionAdded, hGlobalAdded⟩ := hReady
  have hSum := add_toNat hFits
  rw [connectionCheck_fits hFits]
  refine h.moved hGet { old with
    pc := .loadGlobal c n
    connectionAdded := old.connectionAdded + State.change (s.inflightRequestBytes c) (expected + n) } rfl ?_ ?_ ?_
    (h.setConnection_bound ?_) h.globalBound h.exact ((Bool.or_false _).trans h.wrapped)
  · refine ⟨?_, hGlobalAdded⟩
    show old.connectionAdded + State.change (s.inflightRequestBytes c) (expected + n) = n.toNat
    rw [State.change, hConnectionAdded, hValue, hSum]
    omega
  · intro k
    rw [hPc]
    show ((s.setConnection c (expected + n)).inflightRequestBytes k).toNat + 0 + _ =
      _ + (if c = k then n.toNat else 0) + _
    rw [setConnection_toNat]
    by_cases hSame : k = c
    · subst hSame
      rw [if_pos rfl, if_pos rfl, hSum, hValue]
      rfl
    · rw [if_neg hSame, if_neg (Ne.symm hSame)]
      rfl
  · rw [hPc]
    rfl
  · rw [UInt64.le_iff_toNat_le, hSum]
    exact hFits

theorem Inv.exchangeGlobal {expected : UInt64} (hPc : old.pc = .exchangeGlobal c n expected)
    (hValue : s.totalInflightRequestBytes = expected) :
    Inv lim ({ s with totalInflightRequestBytes := expected + n }.land i
      { old with globalAdded := old.globalAdded + State.change s.totalInflightRequestBytes (expected + n) }
      c n (.returns true, false)) := by
  have hReady := h.ready old (Pool.mem_of_getElem? hGet)
  rw [Ready, hPc] at hReady
  obtain ⟨hFits, hConnectionAdded, hGlobalAdded⟩ := hReady
  have hSum := add_toNat hFits
  refine h.moved hGet { old with
    pc := .idle
    globalAdded := old.globalAdded + State.change s.totalInflightRequestBytes (expected + n) } rfl trivial ?_ ?_
    h.connectionBound ?_ ?_ ((Bool.or_false _).trans h.wrapped)
  · intro k
    rw [hPc]
    show (s.inflightRequestBytes k).toNat + (if c = k then n.toNat else 0) + _ =
      (s.inflightRequestBytes k).toNat + 0 + (((c, n) :: s.granted).map (grantedConnection k)).sum
    rw [List.map_cons, List.sum_cons, grantedConnection]
    dsimp only
    omega
  · rw [hPc]
    show (expected + n).toNat + 0 + _ = _ + 0 + (((c, n) :: s.granted).map grantedGlobal).sum
    rw [List.map_cons, List.sum_cons, grantedGlobal, hSum, hValue]
    dsimp only
    omega
  · rw [UInt64.le_iff_toNat_le]
    exact hSum ▸ hFits
  · intro call hCall
    rcases List.mem_cons.mp hCall with rfl | hCall
    · refine ⟨hConnectionAdded, ?_⟩
      show old.globalAdded + State.change s.totalInflightRequestBytes (expected + n) = n.toNat
      rw [State.change, hGlobalAdded, hValue, hSum]
      omega
    · exact h.exact call hCall

theorem Inv.subConnection (hConnection : ∀ k, heldConnection k old.pc = if c = k then n.toNat else 0) :
    n ≤ s.inflightRequestBytes c ∧ s.inflightRequestBytes c - n ≤ lim.connectionLimit ∧ ∀ k,
      ((s.setConnection c (s.inflightRequestBytes c - n)).inflightRequestBytes k).toNat + heldConnection k old.pc =
        (s.inflightRequestBytes k).toNat := by
  have hHeld := h.held_le hGet c
  rw [hConnection c, if_pos rfl] at hHeld
  have hLe : n ≤ s.inflightRequestBytes c := UInt64.le_iff_toNat_le.mpr hHeld
  have hSub := sub_toNat hLe
  have hBound := UInt64.le_iff_toNat_le.mp (h.connectionBound c)
  refine ⟨hLe, UInt64.le_iff_toNat_le.mpr (by omega), fun k => ?_⟩
  rw [setConnection_toNat, hConnection k]
  by_cases hSame : k = c
  · subst hSame
    rw [if_pos rfl, if_pos rfl]
    omega
  · rw [if_neg hSame, if_neg (Ne.symm hSame)]
    rfl

theorem Inv.unreserve (hPc : old.pc = .unreserve c n) :
    Inv lim ((s.setConnection c (s.inflightRequestBytes c - n)).land i
      { old with connectionAdded := old.connectionAdded +
        State.change (s.inflightRequestBytes c) (s.inflightRequestBytes c - n) }
      c n (.returns false, subWraps (s.inflightRequestBytes c) n)) := by
  have hReady := h.ready old (Pool.mem_of_getElem? hGet)
  rw [Ready, hPc] at hReady
  obtain ⟨hConnectionAdded, hGlobalAdded⟩ := hReady
  have hHeld (k : Nat) : heldConnection k old.pc = if c = k then n.toNat else 0 := by
    rw [hPc]
    rfl
  obtain ⟨hLe, hBound, hMoved⟩ := h.subConnection hGet hHeld
  rw [subWraps_false hLe]
  refine h.moved hGet { old with
    pc := .idle
    connectionAdded := old.connectionAdded +
      State.change (s.inflightRequestBytes c) (s.inflightRequestBytes c - n) } rfl trivial ?_ ?_
    (h.setConnection_bound hBound) h.globalBound ?_ ((Bool.or_false _).trans h.wrapped)
  · exact fun k => congrArg (· + _) (hMoved k)
  · rw [hPc]
    rfl
  · intro call hCall
    rcases List.mem_cons.mp hCall with rfl | hCall
    · refine ⟨?_, hGlobalAdded⟩
      show old.connectionAdded + State.change (s.inflightRequestBytes c) (s.inflightRequestBytes c - n) = 0
      have hNat := UInt64.le_iff_toNat_le.mp hLe
      rw [State.change, hConnectionAdded, sub_toNat hLe]
      omega
    · exact h.exact call hCall

theorem Inv.releaseConnection (hPc : old.pc = .releaseConnection c n) :
    Inv lim ((s.setConnection c (s.inflightRequestBytes c - n)).land i old c n
      (.goto (.releaseGlobal c n), subWraps (s.inflightRequestBytes c) n)) := by
  have hHeld (k : Nat) : heldConnection k old.pc = if c = k then n.toNat else 0 := by
    rw [hPc]
    rfl
  obtain ⟨hLe, hBound, hMoved⟩ := h.subConnection hGet hHeld
  rw [subWraps_false hLe]
  refine h.moved hGet { old with pc := .releaseGlobal c n } rfl trivial ?_ ?_
    (h.setConnection_bound hBound) h.globalBound h.exact ((Bool.or_false _).trans h.wrapped)
  · exact fun k => congrArg (· + _) (hMoved k)
  · rw [hPc]
    rfl

theorem Inv.releaseGlobal (hPc : old.pc = .releaseGlobal c n) :
    Inv lim ({ s with totalInflightRequestBytes := s.totalInflightRequestBytes - n }.land i old c n
      (.goto .idle, subWraps s.totalInflightRequestBytes n)) := by
  have hHeld := h.heldGlobal_le hGet
  rw [hPc] at hHeld
  have hLe : n ≤ s.totalInflightRequestBytes := UInt64.le_iff_toNat_le.mpr hHeld
  have hSub := sub_toNat hLe
  have hNat : n.toNat ≤ s.totalInflightRequestBytes.toNat := hHeld
  have hBound := UInt64.le_iff_toNat_le.mp h.globalBound
  rw [subWraps_false hLe]
  refine h.moved hGet { old with pc := .idle } rfl trivial ?_ ?_ h.connectionBound ?_ h.exact
    ((Bool.or_false _).trans h.wrapped)
  · intro k
    rw [hPc]
    rfl
  · rw [hPc]
    show (s.totalInflightRequestBytes - n).toNat + n.toNat + _ = s.totalInflightRequestBytes.toNat + 0 + _
    rw [hSub]
    show _ = s.totalInflightRequestBytes.toNat + 0 + (s.granted.map grantedGlobal).sum
    omega
  · exact UInt64.le_iff_toNat_le.mpr (by show (s.totalInflightRequestBytes - n).toNat ≤ _; omega)

theorem Inv.access {spurious : Bool} (hStep : TryReserve.access lim s i old spurious = some t) : Inv lim t := by
  have hReady := h.ready old (Pool.mem_of_getElem? hGet)
  unfold TryReserve.access at hStep
  split at hStep
  · cases hStep
  · rename_i c n hPc
    cases hStep
    rw [Ready, hPc] at hReady
    exact h.loopConnection hGet hReady.1 (fun k => by rw [hPc]; rfl) (by rw [hPc]; rfl) hReady.2 _
  · rename_i c n expected hPc
    dsimp only at hStep
    split at hStep
    · rename_i hExpected
      cases hStep
      exact h.exchangeConnection hGet hPc hExpected.1
    · cases hStep
      rw [Ready, hPc] at hReady
      exact h.loopConnection hGet hReady.1 (fun k => by rw [hPc]; rfl) (by rw [hPc]; rfl) hReady.2.2 _
  · rename_i c n hPc
    cases hStep
    rw [Ready, hPc] at hReady
    exact h.loopGlobal hGet (fun k => by rw [hPc]; rfl) (by rw [hPc]; rfl) hReady _
  · rename_i c n expected hPc
    dsimp only at hStep
    split at hStep
    · rename_i hExpected
      cases hStep
      exact h.exchangeGlobal hGet hPc hExpected.1
    · cases hStep
      rw [Ready, hPc] at hReady
      exact h.loopGlobal hGet (fun k => by rw [hPc]; rfl) (by rw [hPc]; rfl) hReady.2 _
  · rename_i c n hPc
    cases hStep
    exact h.unreserve hGet hPc
  · rename_i c n hPc
    cases hStep
    exact h.releaseConnection hGet hPc
  · rename_i c n hPc
    cases hStep
    exact h.releaseGlobal hGet hPc

end Accesses

theorem idle_thread (h : s.threads[i]?.map Thread.pc = some .idle) :
    ∃ old, s.threads[i]? = some old ∧ old.pc = .idle := by
  obtain ⟨old, hGet, hPc⟩ := Option.map_eq_some_iff.mp h
  exact ⟨old, hGet, hPc⟩

theorem Inv.tryReserve (h : Inv lim s) (hGet : s.threads[i]? = some old) (hPc : old.pc = .idle) :
    Inv lim (s.land i {} c n (if n = 0 then (.returns true, false) else (.goto (.loadConnection c n), false))) := by
  by_cases hBytes : n = 0
  · subst hBytes
    rw [if_pos rfl]
    refine h.moved hGet {} rfl trivial ?_ ?_ h.connectionBound h.globalBound ?_ ((Bool.or_false _).trans h.wrapped)
    · intro k
      rw [hPc]
      show _ = (s.inflightRequestBytes k).toNat + 0 + (((c, 0) :: s.granted).map (grantedConnection k)).sum
      rw [List.map_cons, List.sum_cons, grantedConnection, UInt64.toNat_zero, ite_self, Nat.zero_add]
      rfl
    · rw [hPc]
      show _ = s.totalInflightRequestBytes.toNat + 0 + (((c, 0) :: s.granted).map grantedGlobal).sum
      rw [List.map_cons, List.sum_cons, grantedGlobal, UInt64.toNat_zero, Nat.zero_add]
      rfl
    · intro call hCall
      rcases List.mem_cons.mp hCall with rfl | hCall
      · exact ⟨rfl, rfl⟩
      · exact h.exact call hCall
  · rw [if_neg hBytes]
    exact h.goes hGet ⟨hBytes, rfl, rfl⟩ (fun k => by rw [hPc]; rfl) (by rw [hPc]; rfl)

theorem Inv.release (h : Inv lim s) (hGet : s.threads[i]? = some old) (hPc : old.pc = .idle)
    (hGranted : (c, n) ∈ s.granted) :
    Inv lim ({ s with granted := s.granted.erase (c, n) }.land i {} c n
      (if n = 0 then (.goto .idle, false) else (.goto (.releaseConnection c n), false))) := by
  have hPerm := List.perm_cons_erase hGranted
  have hConnection (k : Nat) : (s.granted.map (grantedConnection k)).sum =
      (if c = k then n.toNat else 0) + ((s.granted.erase (c, n)).map (grantedConnection k)).sum :=
    (hPerm.map (grantedConnection k)).sum_nat
  have hGlobal : (s.granted.map grantedGlobal).sum =
      n.toNat + ((s.granted.erase (c, n)).map grantedGlobal).sum := (hPerm.map grantedGlobal).sum_nat
  by_cases hBytes : n = 0
  · subst hBytes
    rw [if_pos rfl]
    refine h.moved hGet {} rfl trivial ?_ ?_ h.connectionBound h.globalBound h.exact ((Bool.or_false _).trans h.wrapped)
    · intro k
      rw [hPc, hConnection k, UInt64.toNat_zero, ite_self, Nat.zero_add]
      rfl
    · rw [hPc, hGlobal, UInt64.toNat_zero, Nat.zero_add]
      rfl
  · rw [if_neg hBytes]
    refine h.moved hGet { pc := .releaseConnection c n } rfl trivial ?_ ?_ h.connectionBound h.globalBound h.exact
      ((Bool.or_false _).trans h.wrapped)
    · intro k
      rw [hPc, hConnection k]
      show (s.inflightRequestBytes k).toNat + 0 + (_ + _) = (s.inflightRequestBytes k).toNat + _ + _
      exact (Nat.add_assoc _ _ _).symm
    · rw [hPc, hGlobal]
      show s.totalInflightRequestBytes.toNat + 0 + (_ + _) = s.totalInflightRequestBytes.toNat + _ + _
      exact (Nat.add_assoc _ _ _).symm

theorem Inv.step {action : Action} (h : Inv lim s) (hStep : TryReserve.step lim s action = some t) : Inv lim t := by
  cases action with
  | tryReserve i c n =>
    rw [TryReserve.step] at hStep
    split at hStep
    · rename_i hIdle
      cases hStep
      obtain ⟨old, hGet, hPc⟩ := idle_thread hIdle
      exact h.tryReserve hGet hPc
    · cases hStep
  | release i c n =>
    rw [TryReserve.step] at hStep
    split at hStep
    · rename_i hIdle
      cases hStep
      obtain ⟨old, hGet, hPc⟩ := idle_thread hIdle.1
      exact h.release hGet hPc hIdle.2
    · cases hStep
  | access i spurious =>
    rw [TryReserve.step] at hStep
    split at hStep
    · cases hStep
    · rename_i old hGet
      exact h.access hGet hStep

theorem Inv.initial (hInit : Initial s) : Inv lim s where
  connections c := by
    have hThreads : (s.threads.map fun thread => heldConnection c thread.pc) = s.threads.map fun _ => 0 :=
      List.map_congr_left fun thread hThread => by rw [hInit.threads thread hThread]; rfl
    rw [hInit.inflightRequestBytes, hInit.granted, hThreads]
    simp
  total := by
    have hThreads : (s.threads.map fun thread => heldGlobal thread.pc) = s.threads.map fun _ => 0 :=
      List.map_congr_left fun thread hThread => by rw [hInit.threads thread hThread]; rfl
    rw [hInit.totalInflightRequestBytes, hInit.granted, hThreads]
    simp
  connectionBound c := by
    rw [hInit.inflightRequestBytes]
    exact UInt64.zero_le
  globalBound := by
    rw [hInit.totalInflightRequestBytes]
    exact UInt64.zero_le
  ready thread hThread := by
    rw [Ready, hInit.threads thread hThread]
    trivial
  exact call hCall := by
    rw [hInit.returns] at hCall
    cases hCall
  wrapped := hInit.wrapped

theorem inv_of_reachable (h : (machine lim).Reachable s) : Inv lim s :=
  Machine.Reached.invariant (I := Inv lim) (fun _ hInit => Inv.initial hInit)
    (fun _ _ _ _ hInv _ hStep => hInv.step hStep) h

end Steps

/-- Whatever the limits, the amounts and the interleaving: the counters stay within their limits and never
wrap, a call adds its bytes to both counters or to neither, and the counters are what was granted and not
released, up to what the calls in progress hold. -/
theorem reservations_bounded (lim : Limits) (s : State) (h : (machine lim).Reachable s) :
    s.totalInflightRequestBytes ≤ lim.globalLimit ∧
    (∀ c, s.inflightRequestBytes c ≤ lim.connectionLimit) ∧
    s.wrapped = false ∧
    (∀ call ∈ s.returns, call.result = true →
      call.connectionAdded = call.requestBytes.toNat ∧ call.globalAdded = call.requestBytes.toNat) ∧
    (∀ call ∈ s.returns, call.result = false → call.connectionAdded = 0 ∧ call.globalAdded = 0) ∧
    (∀ c, (s.inflightRequestBytes c).toNat = (s.granted.map (grantedConnection c)).sum +
      (s.threads.map fun thread => heldConnection c thread.pc).sum) ∧
    s.totalInflightRequestBytes.toNat = (s.granted.map grantedGlobal).sum +
      (s.threads.map fun thread => heldGlobal thread.pc).sum := by
  have hInv := inv_of_reachable h
  refine ⟨hInv.globalBound, hInv.connectionBound, hInv.wrapped, ?_, ?_, hInv.connections, hInv.total⟩
  · intro call hCall hResult
    have hExact := hInv.exact call hCall
    rwa [Return.Exact, hResult] at hExact
  · intro call hCall hResult
    have hExact := hInv.exact call hCall
    rwa [Return.Exact, hResult] at hExact

def oneMessage : Limits where
  connectionLimit := 8
  globalLimit := 8

def unreserved : State where
  inflightRequestBytes := fun _ => 0
  totalInflightRequestBytes := 0
  threads := [{}, {}]
  granted := []
  returns := []
  wrapped := false

/-- Of two calls on two connections only one fits into the budget: the other one rolls back what it has
added to its connection. -/
def twoCalls : List Action :=
  [.tryReserve 0 0 6, .tryReserve 1 1 5, .access 0 false, .access 1 false, .access 0 true, .access 0 false,
    .access 1 false, .access 0 false, .access 1 false, .access 0 false, .access 1 false, .access 1 false]

theorem reservations_bounded_twoCalls : ∃ s, (machine oneMessage).Reachable s ∧
    s.returns.map Return.result = [false, true] ∧ s.totalInflightRequestBytes ≤ 8 ∧ s.wrapped = false := by
  obtain ⟨s, hReached, hResults⟩ := Machine.exists_reachable_of_exec
    (fun s => s.returns.map Return.result = [false, true]) twoCalls (M := machine oneMessage) (s := unreserved)
    ⟨fun _ => rfl, rfl, by decide, rfl, rfl, rfl⟩ (by decide)
  obtain ⟨hTotal, -, hWrapped, -⟩ := reservations_bounded oneMessage s hReached
  exact ⟨s, hReached, hResults, hTotal, hWrapped⟩

end EasyUds.Reactor.TryReserve

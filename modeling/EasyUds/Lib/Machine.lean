import Mathlib.Data.Option.Basic
import Mathlib.Data.List.Basic

/-! # Guarded runs of a labelled machine

A machine is a partial step function: `step s a` is the state after action `a`,
and `none` says that `a` is not enabled in `s`. The scheduler and the environment
are the choice of the actions, so a statement about every run is a statement about
every interleaving. A guard restricts the steps that a run may take.
-/

namespace EasyUds.Lib

universe u v

structure Machine (State : Type u) (Action : Type v) where
  initial : State → Prop
  step : State → Action → Option State

namespace Machine

variable {State : Type u} {Action : Type v}

/-- The states that are reached by runs all of whose steps satisfy the guard. -/
inductive Reached (M : Machine State Action) (guard : State → Action → Prop) : State → Prop
  | start {s : State} : M.initial s → Reached M guard s
  | next {s t : State} {a : Action} :
      Reached M guard s → guard s a → M.step s a = some t → Reached M guard t

def Reachable (M : Machine State Action) : State → Prop := M.Reached fun _ _ => True

variable {M : Machine State Action} {guard : State → Action → Prop}

theorem Reached.mono {weaker : State → Action → Prop} (hWeaker : ∀ s a, guard s a → weaker s a) {s : State}
    (h : M.Reached guard s) : M.Reached weaker s := by
  induction h with
  | start hInit => exact .start hInit
  | next _ hGuard hStep ih => exact .next ih (hWeaker _ _ hGuard) hStep

theorem Reached.reachable {s : State} (h : M.Reached guard s) : M.Reachable s := h.mono fun _ _ _ => trivial

/-- The invariant rule. The step premise may use that its source is itself reached, so
that later invariants build on earlier ones. -/
theorem Reached.invariant {I : State → Prop} (hInit : ∀ s, M.initial s → I s)
    (hStep : ∀ s a t, M.Reached guard s → I s → guard s a → M.step s a = some t → I t)
    {s : State} (h : M.Reached guard s) : I s := by
  induction h with
  | start h => exact hInit _ h
  | next hReached hGuard hNext ih => exact hStep _ _ _ hReached ih hGuard hNext

/-- `Leads M guard s t`: some run whose steps all satisfy the guard goes from `s` to `t`. -/
inductive Leads (M : Machine State Action) (guard : State → Action → Prop) (s : State) : State → Prop
  | refl : Leads M guard s s
  | next {t r : State} {a : Action} :
      Leads M guard s t → guard t a → M.step t a = some r → Leads M guard s r

theorem Reached.leads {s t : State} (h : M.Reached guard s) (hLater : M.Leads guard s t) :
    M.Reached guard t := by
  induction hLater with
  | refl => exact h
  | next _ hGuard hStep ih => exact .next ih hGuard hStep

theorem Leads.trans {s t r : State} (h : M.Leads guard s t) (hLater : M.Leads guard t r) : M.Leads guard s r := by
  induction hLater with
  | refl => exact h
  | next _ hGuard hStep ih => exact .next ih hGuard hStep

theorem Leads.stable {P : State → Prop} (hStep : ∀ s a t, P s → M.step s a = some t → P t)
    {s t : State} (h : M.Leads guard s t) (hs : P s) : P t := by
  induction h with
  | refl => exact hs
  | next _ _ hNext ih => exact hStep _ _ _ ih hNext

/-- Executes a list of actions; stops with `none` at a step that is not enabled or that
the guard refuses. -/
def exec (M : Machine State Action) (guard : State → Action → Bool) :
    State → List Action → Option State
  | s, [] => some s
  | s, a :: rest => if guard s a then (M.step s a).bind fun t => M.exec guard t rest else none

theorem exec_cons {check : State → Action → Bool} {s t : State} {a : Action} (rest : List Action)
    (hCheck : check s a = true) (hStep : M.step s a = some t) :
    M.exec check s (a :: rest) = M.exec check t rest := by
  rw [Machine.exec, if_pos hCheck, hStep]
  rfl

theorem exec_append {check : State → Action → Bool} {s t : State} (front rest : List Action)
    (hFront : M.exec check s front = some t) : M.exec check s (front ++ rest) = M.exec check t rest := by
  induction front generalizing s with
  | nil =>
    cases hFront
    rfl
  | cons a front ih =>
    rw [List.cons_append, Machine.exec]
    rw [Machine.exec] at hFront
    split at hFront
    · rename_i hCheck
      obtain ⟨middle, hStep, hLater⟩ := Option.bind_eq_some_iff.mp hFront
      rw [if_pos hCheck, hStep]
      exact ih hLater
    · cases hFront

theorem Reached.exec {check : State → Action → Bool} {s t : State} (actions : List Action)
    (h : M.Reached (fun s a => check s a = true) s) (hExec : M.exec check s actions = some t) :
    M.Reached (fun s a => check s a = true) t := by
  induction actions generalizing s with
  | nil =>
    cases hExec
    exact h
  | cons a rest ih =>
    rw [Machine.exec] at hExec
    split at hExec
    · rename_i hCheck
      obtain ⟨middle, hStep, hRest⟩ := Option.bind_eq_some_iff.mp hExec
      exact ih (.next h hCheck hStep) hRest
    · cases hExec

theorem reached_of_exec {check : State → Action → Bool} {s t : State} (actions : List Action)
    (hInit : M.initial s) (hExec : M.exec check s actions = some t) :
    M.Reached (fun s a => check s a = true) t :=
  Reached.exec actions (.start hInit) hExec

section Property

variable {s : State} (P : State → Prop) [DecidablePred P]

theorem exists_reached_of_exec (check : State → Action → Bool) (actions : List Action) (hInit : M.initial s)
    (hExec : (M.exec check s actions).any P = true) : ∃ t, M.Reached (fun s a => check s a = true) t ∧ P t := by
  obtain ⟨t, hRun, hTest⟩ := (Option.any_eq_true _ _).mp hExec
  exact ⟨t, reached_of_exec actions hInit hRun, of_decide_eq_true hTest⟩

theorem exists_reachable_of_exec (actions : List Action) (hInit : M.initial s)
    (hExec : (M.exec (fun _ _ => true) s actions).any P = true) : ∃ t, M.Reachable t ∧ P t := by
  obtain ⟨t, hReached, hTest⟩ := exists_reached_of_exec P (fun _ _ => true) actions hInit hExec
  exact ⟨t, hReached.reachable, hTest⟩

end Property

theorem reachable_of_exec {s t : State} (actions : List Action) (hInit : M.initial s)
    (hExec : M.exec (fun _ _ => true) s actions = some t) : M.Reachable t :=
  (reached_of_exec actions hInit hExec).reachable

end Machine

end EasyUds.Lib

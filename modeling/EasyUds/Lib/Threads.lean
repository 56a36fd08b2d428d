import EasyUds.Lib.Machine
import Mathlib.Algebra.BigOperators.Group.Multiset.Basic

/-! # Threads that run programs

A thread is the list of the operations that it still has to perform, the next one first. An operation
acts on the shared state and is replaced by the operations of the code that it enters, so a call is an
operation and a return is the end of a list. Which thread goes on, and what the environment answers
to its operation, is the choice of the scheduler.

An invariant of such a system speaks about the shared state and about the operations that are pending
in all threads together. `Threads.step_cases` is the only fact about schedules that it needs.
-/

namespace EasyUds.Lib

universe u v w

variable {Shared : Type u} {Op : Type v} {Choice : Type w}

structure Threads (Shared : Type u) (Op : Type v) where
  shared : Shared
  programs : List (List Op)

namespace Threads

variable {exec : Shared → Op → Choice → Option (Shared × List Op)} {s t : Threads Shared Op}

def next (s : Threads Shared Op) (thread : Nat) : Option Op := s.programs[thread]?.bind List.head?

def step (exec : Shared → Op → Choice → Option (Shared × List Op)) (s : Threads Shared Op)
    (action : Nat × Choice) : Option (Threads Shared Op) :=
  match s.programs[action.1]? with
  | some (op :: rest) =>
    (exec s.shared op action.2).map fun result =>
      ⟨result.1, s.programs.set action.1 (result.2 ++ rest)⟩
  | _ => none

def machine (exec : Shared → Op → Choice → Option (Shared × List Op))
    (initial : Threads Shared Op → Prop) : Machine (Threads Shared Op) (Nat × Choice) where
  initial := initial
  step := step exec

def pending (s : Threads Shared Op) : Multiset Op := s.programs.flatten

theorem mem_pending {op : Op} : op ∈ s.pending ↔ ∃ program ∈ s.programs, op ∈ program := by
  simp [pending]

private theorem flatten_set {α : Type v} {programs : List (List α)} {i : Nat} {old : List α}
    (h : programs[i]? = some old) (new : List α) :
    ∃ others : Multiset α,
      (programs.flatten : Multiset α) = ↑old + others ∧
        ((programs.set i new).flatten : Multiset α) = ↑new + others := by
  induction programs generalizing i with
  | nil => cases h
  | cons program rest ih =>
    cases i with
    | zero =>
      obtain rfl : program = old := by simpa using h
      exact ⟨↑rest.flatten, by simp, by simp⟩
    | succ i =>
      obtain ⟨others, hOld, hNew⟩ := ih (by simpa using h)
      refine ⟨↑program + others, ?_, ?_⟩
      · rw [List.flatten_cons, ← Multiset.coe_add, hOld]
        exact add_left_comm _ _ _
      · rw [List.set_cons_succ, List.flatten_cons, ← Multiset.coe_add, hNew]
        exact add_left_comm _ _ _

/-- A turn of a thread: of the pending operations `op` is replaced by `ops`, and the `others` stay. -/
structure Turn (exec : Shared → Op → Choice → Option (Shared × List Op)) (s : Threads Shared Op) (op : Op)
    (choice : Choice) (ops : List Op) (others : Multiset Op) (t : Threads Shared Op) : Prop where
  exec : exec s.shared op choice = some (t.shared, ops)
  before : s.pending = op ::ₘ others
  after : t.pending = ↑ops + others

section Turn

variable {op o : Op} {choice : Choice} {ops : List Op} {others : Multiset Op}

theorem Turn.mem (h : Turn exec s op choice ops others t) : op ∈ s.pending := h.before ▸ Multiset.mem_cons_self _ _

theorem Turn.mem_other (h : Turn exec s op choice ops others t) (ho : o ∈ others) : o ∈ s.pending :=
  h.before ▸ Multiset.mem_cons_of_mem ho

theorem Turn.mem_later (h : Turn exec s op choice ops others t) (ho : o ∈ t.pending) : o ∈ ops ∨ o ∈ others := by
  rwa [h.after, Multiset.mem_add, Multiset.mem_coe] at ho

end Turn

theorem step_programs {action : Nat × Choice} (hStep : step exec s action = some t) :
    ∃ op ops rest others, s.programs[action.1]? = some (op :: rest) ∧
      t.programs = s.programs.set action.1 (ops ++ rest) ∧ Turn exec s op action.2 ops (↑rest + others) t := by
  unfold step at hStep
  split at hStep
  · rename_i op rest hProgram
    obtain ⟨⟨shared, ops⟩, hExec, hNext⟩ := Option.map_eq_some_iff.mp hStep
    subst hNext
    obtain ⟨others, hOld, hNew⟩ := flatten_set hProgram (ops ++ rest)
    refine ⟨op, ops, rest, others, hProgram, rfl, hExec, ?_, ?_⟩
    · rw [pending, hOld, ← Multiset.cons_coe, Multiset.cons_add]
    · rw [pending, hNew, ← Multiset.coe_add, add_assoc]
  · cases hStep

theorem next_of_program {thread : Nat} {op : Op} {rest : List Op} (h : s.programs[thread]? = some (op :: rest)) :
    s.next thread = some op := by
  rw [next, h]
  rfl

theorem step_cases {action : Nat × Choice} (hStep : step exec s action = some t) :
    ∃ op ops others, s.next action.1 = some op ∧ Turn exec s op action.2 ops others t := by
  obtain ⟨op, ops, rest, others, hProgram, -, hTurn⟩ := step_programs hStep
  exact ⟨op, ops, ↑rest + others, next_of_program hProgram, hTurn⟩

def weigh {M : Type*} [AddCommMonoid M] (weight : Op → M) (ops : Multiset Op) : M := (ops.map weight).sum

section Weigh

variable {M : Type*} [AddCommMonoid M] (weight : Op → M)

@[simp] theorem weigh_zero : weigh weight 0 = 0 := by
  simp [weigh]

@[simp] theorem weigh_cons (op : Op) (ops : Multiset Op) :
    weigh weight (op ::ₘ ops) = weight op + weigh weight ops := by
  simp [weigh]

@[simp] theorem weigh_add (ops others : Multiset Op) :
    weigh weight (ops + others) = weigh weight ops + weigh weight others := by
  simp [weigh]

@[simp] theorem weigh_nil : weigh weight (([] : List Op) : Multiset Op) = 0 := by
  simp [weigh]

@[simp] theorem weigh_coe_cons (op : Op) (ops : List Op) :
    weigh weight ((op :: ops : List Op) : Multiset Op) = weight op + weigh weight (ops : Multiset Op) := by
  simp [weigh]

@[simp] theorem weigh_coe_append (ops others : List Op) :
    weigh weight ((ops ++ others : List Op) : Multiset Op) =
      weigh weight (ops : Multiset Op) + weigh weight (others : Multiset Op) := by
  simp [weigh]

@[simp] theorem weigh_singleton (op : Op) : weigh weight {op} = weight op := by
  simp [weigh]

theorem weigh_eq_zero {ops : Multiset Op} (h : ∀ op ∈ ops, weight op = 0) : weigh weight ops = 0 := by
  unfold weigh
  rw [Multiset.map_congr rfl h]
  simp

end Weigh

theorem le_weigh (weight : Op → Nat) {op : Op} {ops : Multiset Op} (h : op ∈ ops) :
    weight op ≤ weigh weight ops := by
  obtain ⟨rest, rfl⟩ := Multiset.exists_cons_of_mem h
  simp

end Threads

end EasyUds.Lib

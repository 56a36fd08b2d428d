import Mathlib.Algebra.GroupWithZero.Nat
import Mathlib.Data.List.Basic

/-! # Pools of threads

A pool is the list of the threads' local states. A thread's step overwrites its own entry,
so what the other entries say is untouched.
-/

namespace EasyUds.Lib.Pool

universe u v

variable {α : Type u} {pool : List α} {index : Nat} {old : α}

theorem mem_of_getElem? (h : pool[index]? = some old) : old ∈ pool :=
  List.mem_of_getElem? h

theorem mem_set_self (h : pool[index]? = some old) (new : α) : new ∈ pool.set index new := by
  obtain ⟨hIndex, _⟩ := List.getElem?_eq_some_iff.mp h
  exact List.mem_set hIndex new

theorem get_set_self (h : pool[index]? = some old) (new : α) : (pool.set index new)[index]? = some new :=
  List.getElem?_set_self (List.getElem?_eq_some_iff.mp h).1

theorem get_set_cases (h : pool[index]? = some old) {new entry : α} {j : Nat}
    (hGet : (pool.set index new)[j]? = some entry) :
    (j = index ∧ entry = new) ∨ (j ≠ index ∧ pool[j]? = some entry) := by
  by_cases hEq : j = index
  · subst hEq
    rw [get_set_self h] at hGet
    exact .inl ⟨rfl, (Option.some.inj hGet).symm⟩
  · rw [List.getElem?_set_ne (Ne.symm hEq)] at hGet
    exact .inr ⟨hEq, hGet⟩

theorem set_self (h : pool[index]? = some old) : pool.set index old = pool := by
  obtain ⟨hIndex, rfl⟩ := List.getElem?_eq_some_iff.mp h
  exact List.set_getElem_self hIndex

theorem mem_set_of_ne (h : pool[index]? = some old) (new : α) {other : α} (hMem : other ∈ pool)
    (hNe : other ≠ old) : other ∈ pool.set index new := by
  obtain ⟨j, hj, hOther⟩ := List.getElem_of_mem hMem
  have hIndex : index ≠ j := by
    rintro rfl
    rw [List.getElem?_eq_getElem hj, hOther] at h
    exact hNe (Option.some.inj h)
  have hGet : (pool.set index new)[j]? = some other := by
    rw [List.getElem?_set_ne hIndex, List.getElem?_eq_getElem hj, hOther]
  exact List.mem_of_getElem? hGet

theorem mem_set_cases {new other : α} (h : other ∈ pool.set index new) :
    other ∈ pool ∨ other = new :=
  List.mem_or_eq_of_mem_set h

theorem any_set (h : pool[index]? = some old) (new : α) (test : α → Bool) :
    ∃ others, pool.any test = (others || test old) ∧ (pool.set index new).any test = (others || test new) := by
  obtain ⟨hIndex, rfl⟩ := List.getElem?_eq_some_iff.mp h
  refine ⟨(pool.take index).any test || (pool.drop (index + 1)).any test, ?_, ?_⟩
  · conv_lhs => rw [← List.take_append_drop index pool, List.drop_eq_getElem_cons hIndex]
    simp only [List.any_append, List.any_cons]
    ac_rfl
  · rw [List.set_eq_take_append_cons_drop, if_pos hIndex]
    simp only [List.any_append, List.any_cons]
    ac_rfl

theorem sum_set (h : pool[index]? = some old) (new : α) (share : α → Nat) :
    ∃ others, (pool.map share).sum = others + share old ∧
      ((pool.set index new).map share).sum = others + share new := by
  obtain ⟨hIndex, rfl⟩ := List.getElem?_eq_some_iff.mp h
  have hSplit : ∀ entry : α, ((pool.take index ++ entry :: pool.drop (index + 1)).map share).sum =
      ((pool.take index).map share).sum + ((pool.drop (index + 1)).map share).sum + share entry := by
    intro entry
    rw [List.map_append, List.map_cons, List.sum_append, List.sum_cons]
    omega
  refine ⟨((pool.take index).map share).sum + ((pool.drop (index + 1)).map share).sum, ?_, ?_⟩
  · rw [← hSplit, ← List.drop_eq_getElem_cons hIndex, List.take_append_drop]
  · rw [← hSplit, List.set_eq_take_append_cons_drop, if_pos hIndex]

theorem map_modify {β : Type v} {share : α → β} {f : α → α} (h : ∀ entry, share (f entry) = share entry) :
    (pool.modify index f).map share = pool.map share := by
  refine List.ext_getElem? fun j => ?_
  rw [List.getElem?_map, List.getElem?_map, List.getElem?_modify, Option.map_eq_map, Option.map_map]
  congr 1
  funext entry
  dsimp only [Function.comp]
  split
  · exact h entry
  · rfl

theorem filterMap_set {β : Type v} (h : pool[index]? = some old) (new : α) (held : α → Option β) :
    ∃ others, (pool.filterMap held).Perm ((held old).toList ++ others) ∧
      ((pool.set index new).filterMap held).Perm ((held new).toList ++ others) := by
  obtain ⟨hIndex, rfl⟩ := List.getElem?_eq_some_iff.mp h
  have hSplit : ∀ entry : α, ((pool.take index ++ entry :: pool.drop (index + 1)).filterMap held).Perm
      ((held entry).toList ++ (pool.take index ++ pool.drop (index + 1)).filterMap held) := by
    intro entry
    rw [List.filterMap_append, List.filterMap_append, List.filterMap_cons]
    cases held entry with
    | none => exact List.Perm.refl _
    | some value => exact List.perm_middle
  refine ⟨(pool.take index ++ pool.drop (index + 1)).filterMap held, ?_, ?_⟩
  · have hPool := hSplit pool[index]
    rwa [← List.drop_eq_getElem_cons hIndex, List.take_append_drop] at hPool
  · rw [List.set_eq_take_append_cons_drop, if_pos hIndex]
    exact hSplit new

section Holder

variable {β : Type v} {held : α → Option β}

theorem filterMap_set_other (h : pool[index]? = some old) {new : α} (hSame : held new = held old) :
    (pool.set index new).filterMap held = pool.filterMap held := by
  obtain ⟨hIndex, rfl⟩ := List.getElem?_eq_some_iff.mp h
  rw [List.set_eq_take_append_cons_drop, if_pos hIndex]
  conv_rhs => rw [← List.take_append_drop index pool, List.drop_eq_getElem_cons hIndex]
  rw [List.filterMap_append, List.filterMap_append, List.filterMap_cons, List.filterMap_cons, hSame]

theorem filterMap_set_taker (h : pool[index]? = some old) (hNone : pool.filterMap held = []) (new : α) :
    (pool.set index new).filterMap held = (held new).toList := by
  obtain ⟨others, hBefore, hAfter⟩ := filterMap_set h new held
  rw [hNone] at hBefore
  obtain ⟨-, rfl⟩ := List.append_eq_nil_iff.mp hBefore.symm.eq_nil
  rw [List.append_nil] at hAfter
  cases hNew : held new with
  | none =>
    rw [hNew] at hAfter
    exact hAfter.eq_nil
  | some value =>
    rw [hNew] at hAfter
    exact List.perm_singleton.mp hAfter

theorem filterMap_set_holder (h : pool[index]? = some old) (hOne : (pool.filterMap held).length ≤ 1) {value : β}
    (hOld : held old = some value) (new : α) :
    pool.filterMap held = [value] ∧ (pool.set index new).filterMap held = (held new).toList := by
  obtain ⟨others, hBefore, hAfter⟩ := filterMap_set h new held
  rw [hOld] at hBefore
  have hLength := hBefore.length_eq
  rw [List.length_append, Option.toList_some, List.length_singleton] at hLength
  obtain rfl : others = [] := List.length_eq_zero_iff.mp (by omega)
  rw [List.append_nil] at hBefore hAfter
  refine ⟨List.perm_singleton.mp hBefore, ?_⟩
  cases hNew : held new with
  | none =>
    rw [hNew] at hAfter
    exact hAfter.eq_nil
  | some value =>
    rw [hNew] at hAfter
    exact List.perm_singleton.mp hAfter

end Holder

end EasyUds.Lib.Pool

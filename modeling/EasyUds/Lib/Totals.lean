import Mathlib.Algebra.BigOperators.Group.Finset.Basic

/-! # Totals over the shares of numbered parties

A counter that follows the sum of one share per party. Nearly all shares are zero, so the sum is the same
over every long enough range. The shares may be machine integers: only differences are used.
-/

namespace EasyUds.Lib

variable {M : Type*} [AddCommGroup M] {share later : Nat → M} {total : M}

def Totals (share : Nat → M) (total : M) : Prop :=
  ∃ least, ∀ bound ≥ least, ∑ i ∈ Finset.range bound, share i = total

theorem Totals.eq_zero (h : Totals share total) (hNone : ∀ i, share i = 0) : total = 0 := by
  obtain ⟨least, hSum⟩ := h
  rw [← hSum least (Nat.le_refl _), Finset.sum_eq_zero fun i _ => hNone i]

theorem totals_zero (h : ∀ i, share i = 0) : Totals share 0 := ⟨0, fun _ _ => Finset.sum_eq_zero fun i _ => h i⟩

theorem Totals.change (h : Totals share total) (k : Nat) (hOthers : ∀ i, i ≠ k → later i = share i) :
    Totals later (total + (later k - share k)) := by
  obtain ⟨least, hSum⟩ := h
  refine ⟨max least (k + 1), fun bound hBound => ?_⟩
  have hMem : k ∈ Finset.range bound := Finset.mem_range.mpr (by omega)
  have hDifference : ∑ i ∈ Finset.range bound, (later i - share i) = later k - share k :=
    Finset.sum_eq_single_of_mem k hMem fun i _ hNe => by rw [hOthers i hNe, sub_self]
  rw [← hSum bound (by omega), ← hDifference, ← Finset.sum_add_distrib]
  exact Finset.sum_congr rfl fun i _ => (add_sub_cancel _ _).symm

end EasyUds.Lib

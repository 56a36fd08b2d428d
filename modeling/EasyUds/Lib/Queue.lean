import Mathlib.Data.List.Basic

/-! # Taking from a queue

`pull` takes the first entry that passes a test out of a list, and keeps the order of the others. A
queue that is seen without some of its entries yields the same entry, as long as no entry that is
skipped in the whole queue passes the test of the smaller one.
-/

namespace EasyUds.Lib.Queue

universe u

variable {α : Type u} {test keep : α → Bool} {queue rest : List α} {entry : α}

def pull (test : α → Bool) : List α → Option (α × List α)
  | [] => none
  | entry :: rest =>
    if test entry then some (entry, rest)
    else (pull test rest).map fun found => (found.1, entry :: found.2)

theorem pull_some (h : pull test queue = some (entry, rest)) :
    ∃ before after, queue = before ++ entry :: after ∧ rest = before ++ after ∧
      (∀ other ∈ before, test other = false) ∧ test entry = true := by
  induction queue generalizing rest with
  | nil => cases h
  | cons first queue ih =>
    rw [pull] at h
    split at h
    · rename_i hFirst
      cases h
      exact ⟨[], queue, rfl, rfl, by simp, hFirst⟩
    · rename_i hFirst
      obtain ⟨⟨found, others⟩, hFound, hEq⟩ := Option.map_eq_some_iff.mp h
      cases hEq
      obtain ⟨before, after, rfl, rfl, hBefore, hEntry⟩ := ih hFound
      refine ⟨first :: before, after, rfl, rfl, ?_, hEntry⟩
      intro other hOther
      obtain rfl | hOther := List.mem_cons.mp hOther
      · exact Bool.eq_false_iff.mpr hFirst
      · exact hBefore other hOther

theorem mem_of_pull (h : pull test queue = some (entry, rest)) :
    entry ∈ queue ∧ ∀ other ∈ rest, other ∈ queue := by
  obtain ⟨before, after, rfl, rfl, -, -⟩ := pull_some h
  refine ⟨by simp, ?_⟩
  intro other hOther
  obtain hOther | hOther := List.mem_append.mp hOther
  · exact List.mem_append_left _ hOther
  · exact List.mem_append_right _ (List.mem_cons_of_mem entry hOther)

end EasyUds.Lib.Queue

import Mathlib.Data.List.Basic
import Mathlib.Data.Set.Card

/-! # Registries

A registry is a list of keyed entries, read and changed at the first entry of a key. An absent key
reads as a default value and is entered when it is changed, as `try_emplace` does.
-/

namespace EasyUds.Lib.Registry

universe u v

variable {κ : Type u} {α : Type v} [DecidableEq κ]

def read (absent : α) : List (κ × α) → κ → α
  | [], _ => absent
  | entry :: rest, key => if entry.1 = key then entry.2 else read absent rest key

def change (absent : α) (key : κ) (f : α → α) : List (κ × α) → List (κ × α)
  | [] => [(key, f absent)]
  | entry :: rest => if entry.1 = key then (key, f entry.2) :: rest else entry :: change absent key f rest

variable {absent : α} {key : κ} {f : α → α}
variable {entries : List (κ × α)}

theorem read_change_self (entries : List (κ × α)) :
    read absent (change absent key f entries) key = f (read absent entries key) := by
  induction entries with
  | nil => simp [change, read]
  | cons entry rest ih =>
    by_cases hKey : entry.1 = key
    · simp [change, read, hKey]
    · simp [change, read, hKey, ih]

theorem read_change_ne (entries : List (κ × α)) {other : κ} (hNe : other ≠ key) :
    read absent (change absent key f entries) other = read absent entries other := by
  induction entries with
  | nil => simp [change, read, Ne.symm hNe]
  | cons entry rest ih =>
    by_cases hKey : entry.1 = key
    · simp [change, read, hKey, Ne.symm hNe]
    · simp [change, read, hKey, ih]

theorem count_change (test : α → Bool) (hAbsent : test absent = false) (entries : List (κ × α)) :
    (change absent key f entries).countP (fun entry => test entry.2) +
        (test (read absent entries key)).toNat =
      entries.countP (fun entry => test entry.2) + (test (f (read absent entries key))).toNat := by
  induction entries with
  | nil =>
    simp only [change, read, hAbsent]
    cases hTest : test (f absent) <;> simp [hTest]
  | cons entry rest ih =>
    by_cases hKey : entry.1 = key
    · simp only [change, read, hKey, if_true, List.countP_cons]
      cases test (f entry.2) <;> cases test entry.2 <;> simp
    · simp only [change, read, hKey, if_false, List.countP_cons]
      omega

theorem one_le_count (test : α → Bool) (hAbsent : test absent = false) (h : test (read absent entries key) = true) :
    1 ≤ entries.countP fun entry => test entry.2 := by
  induction entries with
  | nil =>
    rw [read, hAbsent] at h
    cases h
  | cons entry rest ih =>
    rw [List.countP_cons]
    by_cases hKey : entry.1 = key
    · rw [read, if_pos hKey] at h
      simp [h]
    · rw [read, if_neg hKey] at h
      have hRest := ih h
      omega

theorem mem_change_keys {other : κ} (h : other ∈ (change absent key f entries).map Prod.fst) :
    other = key ∨ other ∈ entries.map Prod.fst := by
  induction entries with
  | nil => exact .inl (List.mem_singleton.mp h)
  | cons entry rest ih =>
    rw [change] at h
    rw [List.map_cons, List.mem_cons]
    split at h
    · rw [List.map_cons, List.mem_cons] at h
      exact h.imp_right .inr
    · rw [List.map_cons, List.mem_cons] at h
      rcases h with hFirst | hRest
      · exact .inr (.inl hFirst)
      · exact (ih hRest).imp_right .inr

theorem change_nodup (h : (entries.map Prod.fst).Nodup) :
    ((change absent key f entries).map Prod.fst).Nodup := by
  induction entries with
  | nil => exact List.nodup_singleton _
  | cons entry rest ih =>
    rw [List.map_cons, List.nodup_cons] at h
    rw [change]
    split
    · rename_i hKey
      rw [List.map_cons, List.nodup_cons, ← hKey]
      exact h
    · rename_i hKey
      rw [List.map_cons, List.nodup_cons]
      refine ⟨fun hMem => ?_, ih h.2⟩
      rcases mem_change_keys hMem with hSame | hRest
      · exact hKey hSame
      · exact h.1 hRest

theorem read_of_not_mem (h : key ∉ entries.map Prod.fst) : read absent entries key = absent := by
  induction entries with
  | nil => rfl
  | cons entry rest ih =>
    rw [List.map_cons, List.mem_cons, not_or] at h
    rw [read, if_neg (Ne.symm h.1), ih h.2]

theorem mem_filter_keys (test : α → Bool) (hAbsent : test absent = false) (h : (entries.map Prod.fst).Nodup) :
    key ∈ (entries.filter fun entry => test entry.2).map Prod.fst ↔ test (read absent entries key) = true := by
  induction entries with
  | nil => simp [read, hAbsent]
  | cons entry rest ih =>
    rw [List.map_cons, List.nodup_cons] at h
    have hRest := ih h.2
    by_cases hKey : entry.1 = key
    · subst hKey
      have hAway : read absent rest entry.1 = absent := read_of_not_mem h.1
      rw [hAway, hAbsent] at hRest
      rw [read, if_pos rfl, List.filter_cons]
      cases hTest : test entry.2 with
      | true => simp
      | false => simpa using hRest
    · rw [read, if_neg hKey, ← hRest, List.filter_cons]
      split
      · rw [List.map_cons, List.mem_cons, or_iff_right (Ne.symm hKey)]
      · rfl

theorem count_eq_ncard (test : α → Bool) (hAbsent : test absent = false) (h : (entries.map Prod.fst).Nodup) :
    entries.countP (fun entry => test entry.2) = {key | test (read absent entries key) = true}.ncard := by
  have hSet : {key | test (read absent entries key) = true} =
      (((entries.filter fun entry => test entry.2).map Prod.fst).toFinset : Set κ) := by
    ext key
    rw [List.coe_toFinset, Set.mem_ofPred_eq, Set.mem_ofPred_eq, mem_filter_keys test hAbsent h]
  rw [hSet, Set.ncard_coe_finset, List.toFinset_card_of_nodup (h.sublist (List.filter_sublist.map _)), List.length_map,
    List.countP_eq_length_filter]

end EasyUds.Lib.Registry

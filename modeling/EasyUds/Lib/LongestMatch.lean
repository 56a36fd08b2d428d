import Mathlib.Data.List.Basic
import Mathlib.Data.List.Nodup
import Mathlib.Data.List.Perm.Basic

/-! # Exact entries and longest prefixes

A table has entries for whole keys and entries for prefixes. A lookup takes the entry of the key itself,
otherwise the first entry in a list of prefixes that is ordered by decreasing length. `Resolves` says
which entry that is without reference to the order of either list.
-/

namespace EasyUds.Lib.LongestMatch

universe u v

variable {σ : Type u} {β : Type v} [DecidableEq σ]

def covers (key route : List σ) : Bool := key.length ≤ route.length && route.take key.length == key

theorem covers_iff {key route : List σ} : covers key route = true ↔ key <+: route := by
  rw [covers, Bool.and_eq_true, decide_eq_true_iff, beq_iff_eq]
  constructor
  · rintro ⟨-, hTake⟩
    exact List.prefix_iff_eq_take.mpr hTake.symm
  · intro h
    exact ⟨h.length_le, (List.prefix_iff_eq_take.mp h).symm⟩

def findExact (entries : List (List σ × β)) (route : List σ) : Option β :=
  (entries.find? fun entry => entry.1 == route).map Prod.snd

def firstMatch (entries : List (List σ × β)) (route : List σ) : Option β :=
  (entries.find? fun entry => covers entry.1 route).map Prod.snd

def find (exact prefixes : List (List σ × β)) (route : List σ) : Option β :=
  match findExact exact route with
  | some entry => some entry
  | none => firstMatch prefixes route

def Longest (prefixes : List (List σ × β)) (route : List σ) (entry : β) : Prop :=
  ∃ key, (key, entry) ∈ prefixes ∧ key <+: route ∧
    ∀ other ∈ prefixes, other.1 <+: route → other.1.length ≤ key.length

/-- The exact entry if there is one, else the entry of a longest prefix. -/
def Resolves (exact prefixes : List (List σ × β)) (route : List σ) (entry : β) : Prop :=
  (route, entry) ∈ exact ∨ (∀ other, (route, other) ∉ exact) ∧ Longest prefixes route entry

def Keyed (entries : List (List σ × β)) : Prop := (entries.map Prod.fst).Nodup

def Descending (entries : List (List σ × β)) : Prop :=
  entries.Pairwise fun left right => right.1.length ≤ left.1.length

variable {entries exact prefixes : List (List σ × β)} {route : List σ} {entry : β}

omit [DecidableEq σ] in
theorem Keyed.entry_eq (h : Keyed entries) {key : List σ} {left right : β} (hLeft : (key, left) ∈ entries)
    (hRight : (key, right) ∈ entries) : left = right := by
  have hInj := List.inj_on_of_nodup_map h hLeft hRight rfl
  exact congrArg Prod.snd hInj

theorem findExact_iff (h : Keyed entries) : findExact entries route = some entry ↔ (route, entry) ∈ entries := by
  rw [findExact, Option.map_eq_some_iff]
  constructor
  · rintro ⟨⟨key, found⟩, hFind, rfl⟩
    have hKey := List.find?_some hFind
    simp only [beq_iff_eq] at hKey
    exact hKey ▸ List.mem_of_find?_eq_some hFind
  · intro hMem
    cases hFind : entries.find? fun entry => entry.1 == route with
    | none =>
      have hNone := List.find?_eq_none.mp hFind _ hMem
      simp at hNone
    | some found =>
      have hKey := List.find?_some hFind
      simp only [beq_iff_eq] at hKey
      obtain ⟨key, other⟩ := found
      subst hKey
      exact ⟨_, rfl, h.entry_eq (List.mem_of_find?_eq_some hFind) hMem⟩

omit [DecidableEq σ] in
theorem eq_of_length {left right : List σ} (hLeft : left <+: route) (hRight : right <+: route)
    (hLength : left.length = right.length) : left = right :=
  (List.prefix_of_prefix_length_le hLeft hRight (Nat.le_of_eq hLength)).eq_of_length hLength

/-- Two prefixes of one route that have the same length are the same, so the first match of a list of
distinct prefixes in descending order is the longest one. -/
theorem firstMatch_iff (hKeyed : Keyed entries) (hOrder : Descending entries) :
    firstMatch entries route = some entry ↔ Longest entries route entry := by
  induction entries with
  | nil => simp [firstMatch, Longest]
  | cons head rest ih =>
    obtain ⟨hHead, hRest⟩ := List.pairwise_cons.mp hOrder
    obtain ⟨hFresh, hKeys⟩ := List.nodup_cons.mp hKeyed
    cases hCovers : covers head.1 route with
    | true =>
      have hPrefix := covers_iff.mp hCovers
      have hFound : firstMatch (head :: rest) route = some head.2 := by simp [firstMatch, hCovers]
      rw [hFound, Option.some.injEq]
      constructor
      · rintro rfl
        refine ⟨head.1, List.mem_cons_self, hPrefix, ?_⟩
        intro other hOther _
        rcases List.mem_cons.mp hOther with rfl | hOther
        · exact Nat.le_refl _
        · exact hHead other hOther
      · rintro ⟨key, hMem, hKey, hLongest⟩
        rcases List.mem_cons.mp hMem with rfl | hMem
        · rfl
        · have hLength := Nat.le_antisymm (hHead _ hMem) (hLongest head List.mem_cons_self hPrefix)
          have hSame : key = head.1 := eq_of_length hKey hPrefix hLength
          exact absurd (List.mem_map.mpr ⟨_, hMem, hSame⟩) hFresh
    | false =>
      have hNot : ¬ head.1 <+: route := by
        rw [← covers_iff, hCovers]
        exact Bool.false_ne_true
      have hFound : firstMatch (head :: rest) route = firstMatch rest route := by simp [firstMatch, hCovers]
      rw [hFound, ih hKeys hRest]
      constructor
      · rintro ⟨key, hMem, hKey, hLongest⟩
        refine ⟨key, List.mem_cons_of_mem _ hMem, hKey, ?_⟩
        intro other hOther hCover
        rcases List.mem_cons.mp hOther with rfl | hOther
        · exact absurd hCover hNot
        · exact hLongest other hOther hCover
      · rintro ⟨key, hMem, hKey, hLongest⟩
        rcases List.mem_cons.mp hMem with rfl | hMem
        · exact absurd hKey hNot
        · exact ⟨key, hMem, hKey, fun other hOther => hLongest other (List.mem_cons_of_mem _ hOther)⟩

theorem find_iff (hExact : Keyed exact) (hPrefixes : Keyed prefixes) (hOrder : Descending prefixes) :
    find exact prefixes route = some entry ↔ Resolves exact prefixes route entry := by
  rw [find, Resolves]
  cases hFound : findExact exact route with
  | some found =>
    have hMem := (findExact_iff hExact).mp hFound
    constructor
    · rintro ⟨⟩
      exact .inl hMem
    · rintro (hEntry | ⟨hNone, -⟩)
      · exact congrArg some (hExact.entry_eq hMem hEntry)
      · exact absurd hMem (hNone found)
  | none =>
    have hNone (other : β) : (route, other) ∉ exact := by
      intro hMem
      rw [(findExact_iff hExact).mpr hMem] at hFound
      cases hFound
    rw [firstMatch_iff hPrefixes hOrder]
    constructor
    · intro hLongest
      exact .inr ⟨hNone, hLongest⟩
    · rintro (hEntry | ⟨-, hLongest⟩)
      · exact absurd hEntry (hNone entry)
      · exact hLongest

omit [DecidableEq σ] in
theorem Resolves.perm {exact' prefixes' : List (List σ × β)} (hExact : exact.Perm exact')
    (hPrefixes : prefixes.Perm prefixes') :
    Resolves exact prefixes route entry ↔ Resolves exact' prefixes' route entry := by
  simp only [Resolves, Longest, hExact.mem_iff, hPrefixes.mem_iff]

omit [DecidableEq σ] in
theorem Keyed.perm {other : List (List σ × β)} (h : entries.Perm other) : Keyed entries ↔ Keyed other :=
  (h.map Prod.fst).nodup_iff

end EasyUds.Lib.LongestMatch

import Mathlib.Data.List.Nodup
import Mathlib.Logic.Function.Basic

/-! # A table in shards

Clients enter keys in a table whose shards have a lock each. A client takes the lock of a shard and, in a
later step, enters its key, or gives up when the key is there. Nothing more is entered once the table is
closed, except by the clients that have a lock already; a sweeper visits the shards in order after that,
and has to wait for them.
-/

namespace EasyUds.Lib.ShardedTable

universe u

inductive Phase (κ : Type u)
  | outside
  | inserting (key : κ)
  | holding (key : κ)

structure Table (κ : Type u) where
  entries : Nat → List (κ × Nat)
  owner : Nat → Option Nat
  phase : Nat → Phase κ
  closed : Bool
  swept : Nat

open Function (update)

variable {κ : Type u} {shard : κ → Nat}

inductive Step [DecidableEq κ] (shard : κ → Nat) (T : Table κ) : Table κ → Prop
  | stutter : Step shard T T
  | close : Step shard T { T with closed := true }
  | lock (client : Nat) (key : κ) :
      T.phase client = .outside → T.owner (shard key) = none → T.closed = false →
        Step shard T
          { T with
            owner := update T.owner (shard key) (some client)
            phase := update T.phase client (.inserting key) }
  | giveUp (client : Nat) (key : κ) :
      T.phase client = .inserting key →
        Step shard T
          { T with
            owner := update T.owner (shard key) none
            phase := update T.phase client .outside }
  | insert (client : Nat) (key : κ) :
      T.phase client = .inserting key → (∀ entry ∈ T.entries (shard key), entry.1 ≠ key) →
        Step shard T
          { T with
            entries := update T.entries (shard key) ((key, client) :: T.entries (shard key))
            owner := update T.owner (shard key) none
            phase := update T.phase client (.holding key) }
  | erase (client : Nat) (key : κ) :
      T.phase client = .holding key → T.owner (shard key) = none →
        Step shard T
          { T with
            entries := update T.entries (shard key) ((T.entries (shard key)).filter fun entry => entry.1 ≠ key)
            phase := update T.phase client .outside }
  | sweep : T.closed = true → T.owner T.swept = none → Step shard T { T with swept := T.swept + 1 }

structure Inv (shard : κ → Nat) (T : Table κ) : Prop where
  entries : ∀ k, ∀ entry ∈ T.entries k, shard entry.1 = k ∧ T.phase entry.2 = .holding entry.1
  keys : ∀ k, ((T.entries k).map Prod.fst).Nodup
  held : ∀ client key, T.phase client = .holding key → (key, client) ∈ T.entries (shard key)
  locked : ∀ client key, T.phase client = .inserting key → T.owner (shard key) = some client
  ahead : ∀ client key, T.phase client = .inserting key → T.swept ≤ shard key
  opened : T.closed = false → T.swept = 0

variable {T U : Table κ}
variable {client other : Nat} {key : κ}

theorem Inv.holder_unique (h : Inv shard T) {i j : Nat} (hi : T.phase i = .holding key)
    (hj : T.phase j = .holding key) : i = j := by
  have hSame := List.inj_on_of_nodup_map (h.keys (shard key)) (h.held i key hi) (h.held j key hj) rfl
  exact congrArg Prod.snd hSame

theorem Inv.entry_of_holder (h : Inv shard T) {k : Nat} (hEntry : (key, client) ∈ T.entries k) :
    k = shard key ∧ T.phase client = .holding key :=
  ⟨(h.entries k _ hEntry).1.symm, (h.entries k _ hEntry).2⟩

/-- The lock of a shard keeps the other clients from entering a key there. -/
theorem Inv.inserting_unique (h : Inv shard T) {i j : Nat} {other : κ} (hi : T.phase i = .inserting key)
    (hj : T.phase j = .inserting other) (hShard : shard other = shard key) : j = i := by
  have hOwner := h.locked j other hj
  rw [hShard, h.locked i key hi] at hOwner
  exact (Option.some.inj hOwner).symm

section Update

variable {client : Nat} {phase : Phase κ}

theorem update_phase_cases {wanted : Phase κ} (h : update T.phase client phase other = wanted) :
    (other = client ∧ phase = wanted) ∨ (other ≠ client ∧ T.phase other = wanted) := by
  by_cases hEq : other = client
  · subst hEq
    rw [Function.update_self] at h
    exact .inl ⟨rfl, h⟩
  · rw [Function.update_of_ne hEq] at h
    exact .inr ⟨hEq, h⟩

theorem Inv.entry_kept (h : Inv shard T) {k : Nat} {entry : κ × Nat} (hEntry : entry ∈ T.entries k)
    (hPhase : T.phase client ≠ .holding entry.1) :
    shard entry.1 = k ∧ update T.phase client phase entry.2 = .holding entry.1 := by
  obtain ⟨hShard, hHolder⟩ := h.entries k entry hEntry
  have hNe : entry.2 ≠ client := fun hEq => hPhase (hEq ▸ hHolder)
  exact ⟨hShard, (Function.update_of_ne hNe _ _).trans hHolder⟩

theorem Inv.held_kept (h : Inv shard T) {wanted : κ} (hPhase : ∀ key, phase ≠ .holding key)
    (hHolds : update T.phase client phase other = .holding wanted) : (wanted, other) ∈ T.entries (shard wanted) := by
  obtain ⟨-, hFalse⟩ | ⟨-, hOld⟩ := update_phase_cases hHolds
  · exact absurd hFalse (hPhase wanted)
  · exact h.held other wanted hOld

end Update

theorem Inv.lock (h : Inv shard T) (hPhase : T.phase client = .outside) (hOwner : T.owner (shard key) = none)
    (hOpen : T.closed = false) :
    Inv shard
      { T with
        owner := update T.owner (shard key) (some client)
        phase := update T.phase client (.inserting key) } where
  entries k entry hEntry := h.entry_kept hEntry (by simp [hPhase])
  keys := h.keys
  held other wanted hHolds := h.held_kept (by simp) hHolds
  locked other wanted hInserting := by
    obtain ⟨rfl, hKey⟩ | ⟨-, hOld⟩ := update_phase_cases hInserting
    · cases hKey
      exact Function.update_self ..
    · -- the lock was free, so another client inserts in another shard
      have hNe : shard wanted ≠ shard key := by
        intro hEq
        have hLocked := h.locked other wanted hOld
        rw [hEq, hOwner] at hLocked
        cases hLocked
      exact (Function.update_of_ne hNe _ _).trans (h.locked other wanted hOld)
  ahead other wanted hInserting := by
    rw [show T.swept = 0 from h.opened hOpen]
    exact Nat.zero_le _
  opened := h.opened

theorem Inv.unlocked (h : Inv shard T) (hPhase : T.phase client = .inserting key) {phase : Phase κ}
    (hNew : ∀ other, phase ≠ .inserting other) {wanted : κ}
    (hInserting : update T.phase client phase other = .inserting wanted) :
    update T.owner (shard key) none (shard wanted) = some other ∧ T.swept ≤ shard wanted := by
  obtain ⟨-, hFalse⟩ | ⟨hNe, hOld⟩ := update_phase_cases hInserting
  · exact absurd hFalse (hNew wanted)
  · have hShard : shard wanted ≠ shard key := fun hEq => hNe (h.inserting_unique hPhase hOld hEq)
    exact ⟨(Function.update_of_ne hShard _ _).trans (h.locked other wanted hOld), h.ahead other wanted hOld⟩

theorem Inv.giveUp (h : Inv shard T) (hPhase : T.phase client = .inserting key) :
    Inv shard
      { T with
        owner := update T.owner (shard key) none
        phase := update T.phase client .outside } where
  entries k entry hEntry := h.entry_kept hEntry (by simp [hPhase])
  keys := h.keys
  held other wanted hHolds := h.held_kept (by simp) hHolds
  locked other wanted hInserting := (h.unlocked hPhase (by simp) hInserting).1
  ahead other wanted hInserting := (h.unlocked hPhase (by simp) hInserting).2
  opened := h.opened

theorem Inv.insert (h : Inv shard T) (hPhase : T.phase client = .inserting key)
    (hFresh : ∀ entry ∈ T.entries (shard key), entry.1 ≠ key) :
    Inv shard
      { T with
        entries := update T.entries (shard key) ((key, client) :: T.entries (shard key))
        owner := update T.owner (shard key) none
        phase := update T.phase client (.holding key) } where
  entries k entry hEntry := by
    by_cases hk : k = shard key
    · subst hk
      dsimp only at hEntry
      rw [Function.update_self, List.mem_cons] at hEntry
      obtain rfl | hMem := hEntry
      · exact ⟨rfl, Function.update_self ..⟩
      · exact h.entry_kept hMem (by simp [hPhase])
    · dsimp only at hEntry
      rw [Function.update_of_ne hk] at hEntry
      exact h.entry_kept hEntry (by simp [hPhase])
  keys k := by
    by_cases hk : k = shard key
    · subst hk
      dsimp only
      rw [Function.update_self, List.map_cons, List.nodup_cons]
      refine ⟨fun hMem => ?_, h.keys _⟩
      obtain ⟨entry, hEntry, hKey⟩ := List.mem_map.mp hMem
      exact hFresh entry hEntry hKey
    · dsimp only
      rw [Function.update_of_ne hk]
      exact h.keys k
  held other wanted hHolds := by
    obtain ⟨rfl, hKey⟩ | ⟨-, hOld⟩ := update_phase_cases hHolds
    · cases hKey
      dsimp only
      rw [Function.update_self]
      exact List.mem_cons_self
    · have hMem := h.held other wanted hOld
      by_cases hShard : shard wanted = shard key
      · dsimp only
        rw [hShard, Function.update_self]
        exact List.mem_cons_of_mem _ (hShard ▸ hMem)
      · dsimp only
        rw [Function.update_of_ne hShard]
        exact hMem
  locked other wanted hInserting := (h.unlocked hPhase (by simp) hInserting).1
  ahead other wanted hInserting := (h.unlocked hPhase (by simp) hInserting).2
  opened := h.opened

theorem Inv.erase [DecidableEq κ] (h : Inv shard T) (hPhase : T.phase client = .holding key) :
    Inv shard
      { T with
        entries := update T.entries (shard key) ((T.entries (shard key)).filter fun entry => entry.1 ≠ key)
        phase := update T.phase client .outside } where
  entries k entry hEntry := by
    have hOld : entry ∈ T.entries k ∧ entry.1 ≠ key := by
      by_cases hk : k = shard key
      · subst hk
        dsimp only at hEntry
        rw [Function.update_self, List.mem_filter] at hEntry
        exact ⟨hEntry.1, by simpa using hEntry.2⟩
      · dsimp only at hEntry
        rw [Function.update_of_ne hk] at hEntry
        exact ⟨hEntry, fun hKey => hk (hKey ▸ (h.entries k entry hEntry).1.symm)⟩
    exact h.entry_kept hOld.1 (by simpa [hPhase] using hOld.2.symm)
  keys k := by
    by_cases hk : k = shard key
    · subst hk
      dsimp only
      rw [Function.update_self]
      exact (h.keys _).sublist (List.filter_sublist.map _)
    · dsimp only
      rw [Function.update_of_ne hk]
      exact h.keys k
  held other wanted hHolds := by
    obtain ⟨-, hFalse⟩ | ⟨hNe, hOld⟩ := update_phase_cases hHolds
    · cases hFalse
    · have hMem := h.held other wanted hOld
      by_cases hShard : shard wanted = shard key
      · dsimp only
        rw [hShard, Function.update_self, List.mem_filter]
        refine ⟨hShard ▸ hMem, ?_⟩
        have hKey : wanted ≠ key := by
          rintro rfl
          exact hNe (h.holder_unique hOld hPhase)
        simpa using hKey
      · dsimp only
        rw [Function.update_of_ne hShard]
        exact hMem
  locked other wanted hInserting := by
    obtain ⟨-, hFalse⟩ | ⟨-, hOld⟩ := update_phase_cases hInserting
    · cases hFalse
    · exact h.locked other wanted hOld
  ahead other wanted hInserting := by
    obtain ⟨-, hFalse⟩ | ⟨-, hOld⟩ := update_phase_cases hInserting
    · cases hFalse
    · exact h.ahead other wanted hOld
  opened := h.opened

theorem Inv.sweep (h : Inv shard T) (hClosed : T.closed = true) (hOwner : T.owner T.swept = none) :
    Inv shard { T with swept := T.swept + 1 } where
  entries := h.entries
  keys := h.keys
  held := h.held
  locked := h.locked
  ahead client key hInserting := by
    have hNe : T.swept ≠ shard key := by
      intro hEq
      have hLocked := h.locked client key hInserting
      rw [← hEq, hOwner] at hLocked
      cases hLocked
    exact Nat.lt_of_le_of_ne (h.ahead client key hInserting) hNe
  opened hOpen := absurd (hClosed.symm.trans hOpen) (by simp)

theorem Inv.next [DecidableEq κ] (h : Inv shard T) (hStep : Step shard T U) : Inv shard U := by
  cases hStep with
  | stutter => exact h
  | close => exact ⟨h.entries, h.keys, h.held, h.locked, h.ahead, nofun⟩
  | lock client key hPhase hOwner hOpen => exact h.lock hPhase hOwner hOpen
  | giveUp client key hPhase => exact h.giveUp hPhase
  | insert client key hPhase hFresh => exact h.insert hPhase hFresh
  | erase client key hPhase hOwner => exact h.erase hPhase
  | sweep hClosed hOwner => exact h.sweep hClosed hOwner

/-- Nothing is entered in a shard that the sweeper has visited. -/
theorem Step.swept_entries [DecidableEq κ] (hStep : Step shard T U) (h : Inv shard T) {k : Nat} (hk : k < T.swept) :
    U.entries k ⊆ T.entries k := by
  cases hStep with
  | insert client key hPhase hFresh =>
    have hNe : k ≠ shard key := Nat.ne_of_lt (Nat.lt_of_lt_of_le hk (h.ahead client key hPhase))
    intro entry hEntry
    dsimp only at hEntry
    rwa [Function.update_of_ne hNe] at hEntry
  | erase client key hPhase hOwner =>
    intro entry hEntry
    dsimp only at hEntry
    by_cases hEq : k = shard key
    · subst hEq
      rw [Function.update_self] at hEntry
      exact (List.mem_filter.mp hEntry).1
    · rwa [Function.update_of_ne hEq] at hEntry
  | _ => exact fun _ hEntry => hEntry

end EasyUds.Lib.ShardedTable

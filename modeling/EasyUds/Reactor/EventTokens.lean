import EasyUds.Lib.Machine
import Mathlib.Algebra.Group.Nat.Defs

/-! # Tokens of readiness events

An event carries the token of its registration: a descriptor and a generation. Before the reactor comes to
it, the connection may be closed or rearmed and the descriptor used again; here it may come at any time.

`registrations` is a history: the calls of `allocate_connection_generation` by the accept loop and by
`rearm_connection`. A connection in the table stands for the number of its registration.
-/

namespace EasyUds.Reactor.EventTokens

open Lib

def listenerToken : UInt64 := 0xffffffffffffffff
def wakeToken : UInt64 := listenerToken - 1

def connectionToken (fd : Nat) (generation : UInt32) : UInt64 :=
  generation.toUInt64 <<< 32 ||| UInt64.ofNat fd &&& 0xffffffff

/-- The generation, and the counter behind it. -/
def allocateConnectionGeneration (next : UInt32) : UInt32 × UInt32 :=
  if next = 0 then (next + 1, next + 1 + 1) else (next, next + 1)

inductive Target
  | listener
  | wakeup
  | connection (fd : Nat) (generation : UInt32)
  deriving DecidableEq

def target (token : UInt64) : Target :=
  if token = listenerToken then .listener
  else if token = wakeToken then .wakeup
  else .connection token.toUInt32.toNat (token >>> 32).toUInt32

structure Registration where
  fd : Nat
  generation : UInt32
  deriving DecidableEq

/-- The registration that an event comes from, the current one of the descriptor, and the one whose
connection the reactor serves. -/
structure Turn where
  event : Nat
  current : Option Nat
  served : Option Nat
  deriving DecidableEq

structure State where
  nextConnectionGeneration : UInt32 := 1
  registrations : List Registration := []
  connections : Nat → Option Nat := fun _ => none
  turns : List Turn := []

inductive Action
  | register (fd : Nat)
  | close (fd : Nat)
  | event (number : Nat)

def lookup (s : State) (token : UInt64) : Option Nat :=
  match target token with
  | .connection fd generation =>
    (s.connections fd).filter fun number => s.registrations[number]?.any fun found => found.generation == generation
  | .listener | .wakeup => none

def step (s : State) : Action → Option State
  | .register fd =>
    let allocated := allocateConnectionGeneration s.nextConnectionGeneration
    some { s with
      nextConnectionGeneration := allocated.2
      registrations := s.registrations ++ [⟨fd, allocated.1⟩]
      connections := Function.update s.connections fd (some s.registrations.length) }
  | .close fd => some { s with connections := Function.update s.connections fd none }
  | .event number => s.registrations[number]?.map fun found =>
    { s with turns := s.turns ++
        [⟨number, s.connections found.fd, lookup s (connectionToken found.fd found.generation)⟩] }

def machine : Machine State Action where
  initial s := s = {}
  step := step

def validDescriptors (_ : State) : Action → Bool
  | .register fd => fd < 2 ^ 31
  | _ => true

/-- So many calls of `allocate_connection_generation` have different results. -/
def period : Nat := 2 ^ 32 - 1

/-- The current registration is served exactly if it is that of the event, or a whole number of periods away
from it. -/
def Exact (turn : Turn) : Prop :=
  turn.served = turn.current.filter fun number => number % period == turn.event % period

theorem connectionToken_toNat {fd : Nat} (hFd : fd < 2 ^ 31) (generation : UInt32) :
    (connectionToken fd generation).toNat = generation.toNat * 2 ^ 32 + fd := by
  have hGeneration := generation.toNat_lt
  have hHigh : (generation.toUInt64 <<< 32).toNat = generation.toNat <<< 32 := by
    rw [UInt64.toNat_shiftLeft, UInt32.toNat_toUInt64]
    exact Nat.mod_eq_of_lt (by rw [show (32 : UInt64).toNat % 64 = 32 from rfl, Nat.shiftLeft_eq]; omega)
  have hLow : (UInt64.ofNat fd &&& 0xffffffff).toNat = fd := by
    rw [UInt64.toNat_and, UInt64.toNat_ofNat', show (0xffffffff : UInt64).toNat = 2 ^ 32 - 1 from rfl,
      Nat.and_two_pow_sub_one_eq_mod]
    omega
  rw [connectionToken, UInt64.toNat_or, hHigh, hLow, ← Nat.shiftLeft_add_eq_or_of_lt (by omega), Nat.shiftLeft_eq]

theorem target_connectionToken {fd : Nat} (hFd : fd < 2 ^ 31) (generation : UInt32) :
    target (connectionToken fd generation) = .connection fd generation := by
  have hToken := connectionToken_toNat hFd generation
  have hGeneration := generation.toNat_lt
  have hListener : connectionToken fd generation ≠ listenerToken := by
    intro h
    rw [h, show listenerToken.toNat = 2 ^ 64 - 1 from rfl] at hToken
    omega
  have hWakeup : connectionToken fd generation ≠ wakeToken := by
    intro h
    rw [h, show wakeToken.toNat = 2 ^ 64 - 2 from rfl] at hToken
    omega
  have hHigh : (connectionToken fd generation >>> 32).toUInt32 = generation := by
    rw [← UInt32.toNat_inj, UInt64.toNat_toUInt32, UInt64.toNat_shiftRight, hToken,
      show (32 : UInt64).toNat % 64 = 32 from rfl, Nat.shiftRight_eq_div_pow]
    omega
  rw [target, if_neg hListener, if_neg hWakeup, hHigh, UInt64.toNat_toUInt32, hToken]
  congr 1
  omega

/-- The counter after `count` calls. -/
def Counts (next : UInt32) (count : Nat) : Prop :=
  next.toNat = count % period + 1 ∨ next = 0 ∧ count % period = 0

theorem Counts.allocate {next : UInt32} {count : Nat} (h : Counts next count) :
    (allocateConnectionGeneration next).1.toNat = count % period + 1 ∧
      Counts (allocateConnectionGeneration next).2 (count + 1) := by
  have hNext := next.toNat_lt
  unfold Counts period at *
  unfold allocateConnectionGeneration
  split
  · rename_i hZero
    subst hZero
    have hCount : count % (2 ^ 32 - 1) = 0 := h.elim (fun h => by cases h) And.right
    refine ⟨by rw [hCount]; rfl, .inl ?_⟩
    rw [show ((0 : UInt32) + 1 + 1).toNat = 2 from rfl]
    omega
  · rename_i hNonzero
    have hCount := h.resolve_right fun hZero => hNonzero hZero.1
    refine ⟨hCount, ?_⟩
    rw [← UInt32.toNat_inj, UInt32.toNat_add]
    simp only [UInt32.reduceToNat]
    omega

structure Inv (s : State) : Prop where
  next : Counts s.nextConnectionGeneration s.registrations.length
  registered : ∀ number found, s.registrations[number]? = some found →
    found.fd < 2 ^ 31 ∧ found.generation.toNat = number % period + 1
  table : ∀ fd number, s.connections fd = some number → ∃ found, s.registrations[number]? = some found
  turns : ∀ turn ∈ s.turns, Exact turn

variable {s t : State}

theorem Inv.register (hs : Inv s) {fd : Nat} (hFd : fd < 2 ^ 31) (h : step s (.register fd) = some t) : Inv t := by
  obtain ⟨hGeneration, hNext⟩ := hs.next.allocate
  cases h
  refine ⟨?_, ?_, ?_, hs.turns⟩
  · rwa [List.length_append]
  · intro number found hFound
    rw [List.getElem?_append] at hFound
    split at hFound
    · exact hs.registered number found hFound
    · have hLast : number = s.registrations.length := by grind
      subst hLast
      rw [Nat.sub_self] at hFound
      cases hFound
      exact ⟨hFd, hGeneration⟩
  · intro other number hNumber
    simp only [Function.update_apply] at hNumber
    split at hNumber
    · cases hNumber
      exact ⟨_, List.getElem?_concat_length⟩
    · obtain ⟨found, hFound⟩ := hs.table other number hNumber
      exact ⟨found, by grind⟩

theorem Inv.turn (hs : Inv s) {number : Nat} {found : Registration} (hFound : s.registrations[number]? = some found) :
    Exact ⟨number, s.connections found.fd, lookup s (connectionToken found.fd found.generation)⟩ := by
  obtain ⟨hFd, hGeneration⟩ := hs.registered number found hFound
  rw [lookup, target_connectionToken hFd]
  unfold Exact
  dsimp only
  cases hCurrent : s.connections found.fd with
  | none => rfl
  | some current =>
    obtain ⟨entry, hEntry⟩ := hs.table _ _ hCurrent
    have hNumber := (hs.registered current entry hEntry).2
    have hSame : entry.generation = found.generation ↔ current % period = number % period := by
      rw [← UInt32.toNat_inj, hNumber, hGeneration, Nat.succ_inj]
    simp only [Option.filter_some, hEntry, Option.any_some, beq_iff_eq, hSame]

theorem Inv.step {action : Action} (hs : Inv s) (hValid : validDescriptors s action = true)
    (h : step s action = some t) : Inv t := by
  cases action with
  | register fd => exact hs.register (of_decide_eq_true hValid) h
  | close fd =>
    cases h
    refine ⟨hs.next, hs.registered, fun other number hNumber => ?_, hs.turns⟩
    simp only [Function.update_apply] at hNumber
    split at hNumber
    · cases hNumber
    · exact hs.table other number hNumber
  | event number =>
    obtain ⟨found, hFound, rfl⟩ := Option.map_eq_some_iff.mp h
    refine ⟨hs.next, hs.registered, hs.table, fun turn hTurn => ?_⟩
    rcases List.mem_append.mp hTurn with hOld | hNew
    · exact hs.turns turn hOld
    · exact List.mem_singleton.mp hNew ▸ hs.turn hFound

/-- Whatever is closed, rearmed or accepted before the turn of an event: the event is served if its registration
is still the current one of the descriptor, and for another one exactly if a multiple of `period` generations
lies between the two. -/
theorem events_current (hReached : machine.Reached (fun s action => validDescriptors s action = true) s) :
    ∀ turn ∈ s.turns, Exact turn := by
  refine (hReached.invariant ?_ fun s action t _ hs hValid hStep => hs.step hValid hStep : Inv s).turns
  rintro s rfl
  exact ⟨.inl rfl, by simp, by simp, by simp⟩

/-- The connection is closed and its descriptor accepted again before the turn of the event. -/
theorem events_current_reused : Exact ⟨0, some 1, none⟩ := by
  obtain ⟨s, hReached, hTurn⟩ := Machine.exists_reached_of_exec (M := machine) (⟨0, some 1, none⟩ ∈ ·.turns)
    validDescriptors [.register 5, .close 5, .register 5, .event 0] rfl (by decide +kernel)
  exact events_current hReached _ hTurn

end EasyUds.Reactor.EventTokens

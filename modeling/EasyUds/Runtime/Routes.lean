import Mathlib.Data.List.Sort
import EasyUds.Lib.LongestMatch
import EasyUds.Protocol.Codec
import EasyUds.Reactor.Serialized

/-! # Route registration and lookup

`server_registration.cpp` publishes a new registry for every route, and `find_request_handler` and
`find_stream_handler` read the published one. A registration is refused by an exception before anything
is published.

`std::sort` is not stable and compares lengths only, so all that is known of its result is that it is a
permutation in descending order of length. A `std::function` may be empty.
-/

namespace EasyUds.Runtime.Routes

open Lib Protocol.Codec
open Reactor.Serialized (QueuePolicy)

universe u

abbrev Route := List UInt8

/-- What `std::sort` with the comparison of lengths may do. -/
structure LengthSort where
  sort : {β : Type u} → List (Route × β) → List (Route × β)
  perm : ∀ {β : Type u} (entries : List (Route × β)), (sort entries).Perm entries
  descending : ∀ {β : Type u} (entries : List (Route × β)), LongestMatch.Descending (sort entries)

structure RouteScheduling where
  domain : String
  policy : QueuePolicy
  deriving DecidableEq, Repr

/-- The callable of an entry: a plain handler, or one of the two adapters. -/
inductive Callable (σ κ : Type u)
  | simple (handler : Option σ)
  | simpleRouteOptionsAdapter (handler : Option σ) (scheduling : RouteScheduling)
  | contextHandlerAdapter (handler : κ) (scheduling : RouteScheduling)

structure HandlerEntry (σ κ : Type u) where
  handler : Callable σ κ
  flags : UInt8

def handlerSerializedFlag : UInt8 := 0x01
def handlerContextualFlag : UInt8 := 0x02
def handlerAdvancedOptionsFlag : UInt8 := 0x04

structure StreamHandlerEntry (τ : Type u) where
  handler : Option τ

structure HandlerRegistry (σ κ τ : Type u) where
  handlers : List (Route × HandlerEntry σ κ) := []
  handlerPrefixes : List (Route × HandlerEntry σ κ) := []
  streamHandlers : List (Route × StreamHandlerEntry τ) := []
  streamPrefixes : List (Route × StreamHandlerEntry τ) := []

structure ServerState (σ κ τ : Type u) where
  maxMessageSize : Nat
  handlerRegistry : HandlerRegistry σ κ τ := {}

variable {σ κ τ β : Type u}

def findRequestHandler (state : ServerState σ κ τ) (route : Route) : Option (HandlerEntry σ κ) :=
  LongestMatch.find state.handlerRegistry.handlers state.handlerRegistry.handlerPrefixes route

def findStreamHandler (state : ServerState σ κ τ) (route : Route) : Option (StreamHandlerEntry τ) :=
  LongestMatch.find state.handlerRegistry.streamHandlers state.handlerRegistry.streamPrefixes route

def validateRoute (route : Route) (maxMessageSize : Nat) : Except Exception Unit :=
  if route = [] then .error (.invalidArgument "route must not be empty")
  else if route.length > maxMessageSize then .error (.lengthError "route exceeds server max_message_size")
  else .ok ()

def validateHandler (present : Bool) (message : String) : Except Exception Unit :=
  if present then .ok () else .error (.invalidArgument message)

def serializedFlags (serialized : Bool) : UInt8 := if serialized then handlerSerializedFlag else 0

def makeRouteOptionsEntry (simpleHandler : Option σ) (contextHandler : Option κ) (serialized advancedOptions : Bool)
    (domain : String) (policy : QueuePolicy) : HandlerEntry σ κ :=
  let flags := if advancedOptions then serializedFlags serialized ||| handlerAdvancedOptionsFlag
    else serializedFlags serialized
  match contextHandler with
  | some handler => ⟨.contextHandlerAdapter handler ⟨domain, policy⟩, flags ||| handlerContextualFlag⟩
  | none =>
    if advancedOptions then ⟨.simpleRouteOptionsAdapter simpleHandler ⟨domain, policy⟩, flags⟩
    else ⟨.simple simpleHandler, flags⟩

/-- `find` and `emplace` on an unordered map. -/
def addExact (entries : List (Route × β)) (route : Route) (entry : β) (message : String) :
    Except Exception (List (Route × β)) :=
  if route ∈ entries.map Prod.fst then .error (.runtimeError message) else .ok (entries ++ [(route, entry)])

/-- The loop over the vector, `emplace_back` and the sort. -/
def addPrefix (sorting : LengthSort.{u}) (entries : List (Route × β)) (route : Route) (entry : β) :
    Except Exception (List (Route × β)) :=
  if route ∈ entries.map Prod.fst then .error (.runtimeError "prefix route already exists")
  else .ok (sorting.sort (entries ++ [(route, entry)]))

inductive Slot (σ κ τ : Type u)
  | handler (route : Route) (entry : HandlerEntry σ κ)
  | handlerPrefix (route : Route) (entry : HandlerEntry σ κ)
  | streamHandler (route : Route) (entry : StreamHandlerEntry τ)
  | streamPrefix (route : Route) (entry : StreamHandlerEntry τ)

def mutation (sorting : LengthSort.{u}) (registry : HandlerRegistry σ κ τ) :
    Slot σ κ τ → Except Exception (HandlerRegistry σ κ τ)
  | .handler route entry => do
    return { registry with handlers := ← addExact registry.handlers route entry "route already exists" }
  | .handlerPrefix route entry => do
    return { registry with handlerPrefixes := ← addPrefix sorting registry.handlerPrefixes route entry }
  | .streamHandler route entry => do
    return { registry with
      streamHandlers := ← addExact registry.streamHandlers route entry "stream route already exists" }
  | .streamPrefix route entry => do
    return { registry with streamPrefixes := ← addPrefix sorting registry.streamPrefixes route entry }

structure Request (σ κ τ : Type u) where
  validation : Except Exception Unit
  slot : Slot σ κ τ

section Functions

variable (maxMessageSize : Nat) (route : Route) (handler : Option σ) (simpleHandler : Option σ)
  (contextHandler : Option κ) (serialized advancedOptions : Bool) (domain : String) (policy : QueuePolicy)

def Request.checked (present : Bool) (reason : String) (slot : Slot σ κ τ) : Request σ κ τ where
  validation := do
    validateRoute route maxMessageSize
    validateHandler present reason
  slot := slot

def exact : Request σ κ τ :=
  .checked maxMessageSize route handler.isSome "handler must not be empty"
    (.handler route ⟨.simple handler, serializedFlags serialized⟩)

def exactOptions : Request σ κ τ :=
  .checked maxMessageSize route (simpleHandler.isSome || contextHandler.isSome) "handler must not be empty"
    (.handler route (makeRouteOptionsEntry simpleHandler contextHandler serialized advancedOptions domain policy))

def exactSerializedOptions : Request σ κ τ where
  validation := do
    validateRoute route maxMessageSize
    validateHandler (simpleHandler.isSome || contextHandler.isSome) "handler must not be empty"
    if serialized ∧ (domain ≠ "" ∨ policy ≠ .fifo) then
      .error (.invalidArgument ("on_serialized uses the default FIFO domain; use on with " ++
        "RouteOptions::serialize_in for advanced scheduling"))
  slot := .handler route (makeRouteOptionsEntry simpleHandler contextHandler true false "" .fifo)

def prefixRoute : Request σ κ τ :=
  .checked maxMessageSize route handler.isSome "handler must not be empty"
    (.handlerPrefix route ⟨.simple handler, serializedFlags serialized⟩)

def prefixOptions : Request σ κ τ :=
  .checked maxMessageSize route (simpleHandler.isSome || contextHandler.isSome) "handler must not be empty"
    (.handlerPrefix route (makeRouteOptionsEntry simpleHandler contextHandler serialized advancedOptions domain policy))

variable (streamHandler : Option τ)

def stream : Request σ κ τ :=
  .checked maxMessageSize route streamHandler.isSome "stream handler must not be empty"
    (.streamHandler route ⟨streamHandler⟩)

def streamPrefix : Request σ κ τ :=
  .checked maxMessageSize route streamHandler.isSome "stream handler must not be empty"
    (.streamPrefix route ⟨streamHandler⟩)

end Functions

inductive Registration (σ κ τ : Type u)
  | exact (route : Route) (handler : Option σ) (serialized : Bool)
  | exactOptions (route : Route) (simpleHandler : Option σ) (contextHandler : Option κ)
      (serialized advancedOptions : Bool) (domain : String) (policy : QueuePolicy)
  | exactSerializedOptions (route : Route) (simpleHandler : Option σ) (contextHandler : Option κ)
      (serialized : Bool) (domain : String) (policy : QueuePolicy)
  | prefixRoute (route : Route) (handler : Option σ) (serialized : Bool)
  | prefixOptions (route : Route) (simpleHandler : Option σ) (contextHandler : Option κ)
      (serialized advancedOptions : Bool) (domain : String) (policy : QueuePolicy)
  | stream (route : Route) (handler : Option τ)
  | streamPrefix (route : Route) (handler : Option τ)

def Registration.request (maxMessageSize : Nat) : Registration σ κ τ → Request σ κ τ
  | .exact route handler serialized => Routes.exact maxMessageSize route handler serialized
  | .exactOptions route simple context serialized advanced domain policy =>
    Routes.exactOptions maxMessageSize route simple context serialized advanced domain policy
  | .exactSerializedOptions route simple context serialized domain policy =>
    Routes.exactSerializedOptions maxMessageSize route simple context serialized domain policy
  | .prefixRoute route handler serialized => Routes.prefixRoute maxMessageSize route handler serialized
  | .prefixOptions route simple context serialized advanced domain policy =>
    Routes.prefixOptions maxMessageSize route simple context serialized advanced domain policy
  | .stream route handler => Routes.stream maxMessageSize route handler
  | .streamPrefix route handler => Routes.streamPrefix maxMessageSize route handler

/-- The mutation works on a copy, which is published only when no exception has been thrown. -/
def updateHandlerRegistry (state : ServerState σ κ τ)
    (mutate : HandlerRegistry σ κ τ → Except Exception (HandlerRegistry σ κ τ)) :
    ServerState σ κ τ × Except Exception Unit :=
  match mutate state.handlerRegistry with
  | .ok updated => ({ state with handlerRegistry := updated }, .ok ())
  | .error error => (state, .error error)

def register (sorting : LengthSort.{u}) (state : ServerState σ κ τ) (registration : Registration σ κ τ) :
    ServerState σ κ τ × Except Exception Unit :=
  let request := registration.request state.maxMessageSize
  match request.validation with
  | .ok () => updateHandlerRegistry state fun registry => mutation sorting registry request.slot
  | .error error => (state, .error error)

/-- The state after some registrations, and those of them that did not throw. -/
def run (sorting : LengthSort.{u}) (state : ServerState σ κ τ) :
    List (Registration σ κ τ) → ServerState σ κ τ × List (Registration σ κ τ)
  | [] => (state, [])
  | registration :: rest =>
    match register sorting state registration with
    | (next, .ok ()) => ((run sorting next rest).1, registration :: (run sorting next rest).2)
    | (next, .error _) => run sorting next rest

inductive Table
  | handlers
  | handlerPrefixes
  | streamHandlers
  | streamPrefixes
  deriving DecidableEq

def Slot.target : Slot σ κ τ → Table × Route
  | .handler route _ => (.handlers, route)
  | .handlerPrefix route _ => (.handlerPrefixes, route)
  | .streamHandler route _ => (.streamHandlers, route)
  | .streamPrefix route _ => (.streamPrefixes, route)

def Slot.handler? : Slot σ κ τ → Option (Route × HandlerEntry σ κ)
  | .handler route entry => some (route, entry)
  | _ => none

def Slot.handlerPrefix? : Slot σ κ τ → Option (Route × HandlerEntry σ κ)
  | .handlerPrefix route entry => some (route, entry)
  | _ => none

def Slot.streamHandler? : Slot σ κ τ → Option (Route × StreamHandlerEntry τ)
  | .streamHandler route entry => some (route, entry)
  | _ => none

def Slot.streamPrefix? : Slot σ κ τ → Option (Route × StreamHandlerEntry τ)
  | .streamPrefix route entry => some (route, entry)
  | _ => none

/-- The entry depends on the arguments alone. -/
def Registration.slot (registration : Registration σ κ τ) : Slot σ κ τ := (registration.request 0).slot

theorem request_slot (registration : Registration σ κ τ) (maxMessageSize : Nat) :
    (registration.request maxMessageSize).slot = registration.slot := by
  cases registration <;> rfl

def slots (registrations : List (Registration σ κ τ)) : List (Slot σ κ τ) := registrations.map Registration.slot

section Tables

variable {pick : Slot σ κ τ → Option (Route × β)} {table : Table}

/-- The entries of one table are those whose target lies in it. -/
def Picks (pick : Slot σ κ τ → Option (Route × β)) (table : Table) : Prop :=
  ∀ slot route, (∃ entry, pick slot = some (route, entry)) ↔ slot.target = (table, route)

theorem handler_picks : Picks (@Slot.handler? σ κ τ) .handlers := by
  intro slot route
  cases slot <;> simp [Slot.handler?, Slot.target]

theorem handlerPrefix_picks : Picks (@Slot.handlerPrefix? σ κ τ) .handlerPrefixes := by
  intro slot route
  cases slot <;> simp [Slot.handlerPrefix?, Slot.target]

theorem streamHandler_picks : Picks (@Slot.streamHandler? σ κ τ) .streamHandlers := by
  intro slot route
  cases slot <;> simp [Slot.streamHandler?, Slot.target]

theorem streamPrefix_picks : Picks (@Slot.streamPrefix? σ κ τ) .streamPrefixes := by
  intro slot route
  cases slot <;> simp [Slot.streamPrefix?, Slot.target]

theorem Picks.mem_keys (h : Picks pick table) (added : List (Slot σ κ τ)) (route : Route) :
    route ∈ (added.filterMap pick).map Prod.fst ↔ (table, route) ∈ added.map Slot.target := by
  rw [List.mem_map, List.mem_map]
  constructor
  · rintro ⟨⟨key, entry⟩, hMem, rfl⟩
    obtain ⟨slot, hSlot, hPick⟩ := List.mem_filterMap.mp hMem
    exact ⟨slot, hSlot, (h slot key).mp ⟨entry, hPick⟩⟩
  · rintro ⟨slot, hSlot, hTarget⟩
    obtain ⟨entry, hPick⟩ := (h slot route).mpr hTarget
    exact ⟨(route, entry), List.mem_filterMap.mpr ⟨slot, hSlot, hPick⟩, rfl⟩

theorem Picks.keyed (h : Picks pick table) {added : List (Slot σ κ τ)} (hTargets : (added.map Slot.target).Nodup) :
    LongestMatch.Keyed (added.filterMap pick) := by
  induction added with
  | nil => exact List.nodup_nil
  | cons slot rest ih =>
    obtain ⟨hFresh, hRest⟩ := List.nodup_cons.mp hTargets
    rw [List.filterMap_cons]
    cases hPick : pick slot with
    | none => exact ih hRest
    | some found =>
      obtain ⟨route, entry⟩ := found
      have hTarget := (h slot route).mp ⟨entry, hPick⟩
      refine List.nodup_cons.mpr ⟨?_, ih hRest⟩
      rw [h.mem_keys, ← hTarget]
      exact hFresh

end Tables

/-- The registry holds what the successful registrations have asked for. -/
structure Reflects (registry : HandlerRegistry σ κ τ) (added : List (Slot σ κ τ)) : Prop where
  targets : (added.map Slot.target).Nodup
  handlers : registry.handlers.Perm (added.filterMap Slot.handler?)
  handlerPrefixes : registry.handlerPrefixes.Perm (added.filterMap Slot.handlerPrefix?)
  streamHandlers : registry.streamHandlers.Perm (added.filterMap Slot.streamHandler?)
  streamPrefixes : registry.streamPrefixes.Perm (added.filterMap Slot.streamPrefix?)
  handlerOrder : LongestMatch.Descending registry.handlerPrefixes
  streamOrder : LongestMatch.Descending registry.streamPrefixes

theorem Reflects.initial : Reflects ({} : HandlerRegistry σ κ τ) [] :=
  ⟨List.nodup_nil, .rfl, .rfl, .rfl, .rfl, List.Pairwise.nil, List.Pairwise.nil⟩

section Steps

variable {sorting : LengthSort.{u}} {registry updated : HandlerRegistry σ κ τ} {added : List (Slot σ κ τ)}
  {slot : Slot σ κ τ} {entries : List (Route × β)} {route : Route} {entry : β}

theorem addExact_fresh {message : String} (h : route ∉ entries.map Prod.fst) :
    addExact entries route entry message = .ok (entries ++ [(route, entry)]) := if_neg h

theorem addExact_known {message : String} (h : route ∈ entries.map Prod.fst) :
    addExact entries route entry message = .error (.runtimeError message) := if_pos h

theorem addPrefix_fresh (h : route ∉ entries.map Prod.fst) :
    addPrefix sorting entries route entry = .ok (sorting.sort (entries ++ [(route, entry)])) := if_neg h

theorem addPrefix_known (h : route ∈ entries.map Prod.fst) :
    addPrefix sorting entries route entry = .error (.runtimeError "prefix route already exists") := if_pos h

theorem Reflects.targets_snoc (h : Reflects registry added) (hFresh : slot.target ∉ added.map Slot.target) :
    ((added ++ [slot]).map Slot.target).Nodup := by
  rw [List.map_append, List.nodup_append]
  refine ⟨h.targets, List.nodup_singleton _, ?_⟩
  rintro target hTarget other hOther rfl
  rw [List.map_singleton, List.mem_singleton] at hOther
  exact hFresh (hOther ▸ hTarget)

section Columns

variable {pick : Slot σ κ τ → Option (Route × β)}

theorem perm_other (hPick : pick slot = none) (h : entries.Perm (added.filterMap pick)) :
    entries.Perm ((added ++ [slot]).filterMap pick) := by
  rwa [List.filterMap_append, List.filterMap_cons_none hPick, List.filterMap_nil, List.append_nil]

theorem perm_own (hPick : pick slot = some (route, entry)) (h : entries.Perm (added.filterMap pick)) :
    (entries ++ [(route, entry)]).Perm ((added ++ [slot]).filterMap pick) := by
  rw [List.filterMap_append, List.filterMap_cons_some hPick, List.filterMap_nil]
  exact h.append_right _

end Columns

theorem Reflects.mutation_fresh (h : Reflects registry added) (hFresh : slot.target ∉ added.map Slot.target) :
    ∃ updated, mutation sorting registry slot = .ok updated ∧ Reflects updated (added ++ [slot]) := by
  have hTargets := h.targets_snoc hFresh
  cases slot with
  | handler route entry =>
    have hKey : route ∉ registry.handlers.map Prod.fst := by
      rwa [(h.handlers.map Prod.fst).mem_iff, handler_picks.mem_keys]
    refine ⟨{ registry with handlers := registry.handlers ++ [(route, entry)] }, ?_, ?_⟩
    · rw [mutation, addExact_fresh hKey]
      rfl
    · refine ⟨hTargets, ?_, ?_, ?_, ?_, h.handlerOrder, h.streamOrder⟩
      · exact perm_own rfl h.handlers
      · exact perm_other rfl h.handlerPrefixes
      · exact perm_other rfl h.streamHandlers
      · exact perm_other rfl h.streamPrefixes
  | handlerPrefix route entry =>
    have hKey : route ∉ registry.handlerPrefixes.map Prod.fst := by
      rwa [(h.handlerPrefixes.map Prod.fst).mem_iff, handlerPrefix_picks.mem_keys]
    refine ⟨{ registry with
      handlerPrefixes := sorting.sort (registry.handlerPrefixes ++ [(route, entry)]) }, ?_, ?_⟩
    · rw [mutation, addPrefix_fresh hKey]
      rfl
    · refine ⟨hTargets, ?_, ?_, ?_, ?_, sorting.descending _, h.streamOrder⟩
      · exact perm_other rfl h.handlers
      · exact (sorting.perm _).trans (perm_own rfl h.handlerPrefixes)
      · exact perm_other rfl h.streamHandlers
      · exact perm_other rfl h.streamPrefixes
  | streamHandler route entry =>
    have hKey : route ∉ registry.streamHandlers.map Prod.fst := by
      rwa [(h.streamHandlers.map Prod.fst).mem_iff, streamHandler_picks.mem_keys]
    refine ⟨{ registry with streamHandlers := registry.streamHandlers ++ [(route, entry)] }, ?_, ?_⟩
    · rw [mutation, addExact_fresh hKey]
      rfl
    · refine ⟨hTargets, ?_, ?_, ?_, ?_, h.handlerOrder, h.streamOrder⟩
      · exact perm_other rfl h.handlers
      · exact perm_other rfl h.handlerPrefixes
      · exact perm_own rfl h.streamHandlers
      · exact perm_other rfl h.streamPrefixes
  | streamPrefix route entry =>
    have hKey : route ∉ registry.streamPrefixes.map Prod.fst := by
      rwa [(h.streamPrefixes.map Prod.fst).mem_iff, streamPrefix_picks.mem_keys]
    refine ⟨{ registry with
      streamPrefixes := sorting.sort (registry.streamPrefixes ++ [(route, entry)]) }, ?_, ?_⟩
    · rw [mutation, addPrefix_fresh hKey]
      rfl
    · refine ⟨hTargets, ?_, ?_, ?_, ?_, h.handlerOrder, sorting.descending _⟩
      · exact perm_other rfl h.handlers
      · exact perm_other rfl h.handlerPrefixes
      · exact perm_other rfl h.streamHandlers
      · exact (sorting.perm _).trans (perm_own rfl h.streamPrefixes)

theorem Reflects.mutation_known (h : Reflects registry added) (hKnown : slot.target ∈ added.map Slot.target) :
    ∃ error, mutation sorting registry slot = .error error := by
  cases slot with
  | handler route entry =>
    have hKey : route ∈ registry.handlers.map Prod.fst := by
      rwa [(h.handlers.map Prod.fst).mem_iff, handler_picks.mem_keys]
    exact ⟨_, by rw [mutation, addExact_known hKey]; rfl⟩
  | handlerPrefix route entry =>
    have hKey : route ∈ registry.handlerPrefixes.map Prod.fst := by
      rwa [(h.handlerPrefixes.map Prod.fst).mem_iff, handlerPrefix_picks.mem_keys]
    exact ⟨_, by rw [mutation, addPrefix_known hKey]; rfl⟩
  | streamHandler route entry =>
    have hKey : route ∈ registry.streamHandlers.map Prod.fst := by
      rwa [(h.streamHandlers.map Prod.fst).mem_iff, streamHandler_picks.mem_keys]
    exact ⟨_, by rw [mutation, addExact_known hKey]; rfl⟩
  | streamPrefix route entry =>
    have hKey : route ∈ registry.streamPrefixes.map Prod.fst := by
      rwa [(h.streamPrefixes.map Prod.fst).mem_iff, streamPrefix_picks.mem_keys]
    exact ⟨_, by rw [mutation, addPrefix_known hKey]; rfl⟩

end Steps

section Runs

variable {sorting : LengthSort.{u}} {state next : ServerState σ κ τ} {added : List (Slot σ κ τ)}
  {registration : Registration σ κ τ} {error : Exception}

/-- The validations of a registration, which do not look at the registry. -/
def Valid (maxMessageSize : Nat) (registration : Registration σ κ τ) : Prop :=
  (registration.request maxMessageSize).validation = .ok ()

theorem register_error (h : (register sorting state registration).2 = .error error) :
    (register sorting state registration).1 = state := by
  unfold register at h ⊢
  dsimp only at h ⊢
  split
  · rename_i hValid
    rw [hValid] at h
    dsimp only at h
    unfold updateHandlerRegistry at h ⊢
    split
    · rename_i hUpdated
      rw [hUpdated] at h
      cases h
    · rfl
  · rfl

/-- A registration succeeds when it is valid and its target is new, and then the registry reflects it. -/
theorem register_ok (hReflects : Reflects state.handlerRegistry added)
    (hValid : Valid state.maxMessageSize registration)
    (hFresh : registration.slot.target ∉ added.map Slot.target) :
    ∃ next, register sorting state registration = (next, .ok ()) ∧ next.maxMessageSize = state.maxMessageSize ∧
      Reflects next.handlerRegistry (added ++ [registration.slot]) := by
  obtain ⟨updated, hUpdated, hAfter⟩ := hReflects.mutation_fresh hFresh
  refine ⟨{ state with handlerRegistry := updated }, ?_, rfl, hAfter⟩
  rw [register, hValid]
  dsimp only
  rw [updateHandlerRegistry, request_slot, hUpdated]

theorem register_cases (hReflects : Reflects state.handlerRegistry added) :
    (∃ error, register sorting state registration = (state, .error error)) ∨
      Valid state.maxMessageSize registration ∧ registration.slot.target ∉ added.map Slot.target := by
  by_cases hValid : Valid state.maxMessageSize registration
  · by_cases hKnown : registration.slot.target ∈ added.map Slot.target
    · obtain ⟨error, hError⟩ := hReflects.mutation_known hKnown
      refine .inl ⟨error, ?_⟩
      rw [register, hValid]
      dsimp only
      rw [updateHandlerRegistry, request_slot, hError]
    · exact .inr ⟨hValid, hKnown⟩
  · refine .inl ?_
    unfold Valid at hValid
    unfold register
    dsimp only
    split
    · rename_i hOk
      exact absurd hOk hValid
    · exact ⟨_, rfl⟩

theorem run_reflects (sorting : LengthSort.{u}) (state : ServerState σ κ τ) (calls : List (Registration σ κ τ))
    (hReflects : Reflects state.handlerRegistry added) :
    Reflects (run sorting state calls).1.handlerRegistry (added ++ slots (run sorting state calls).2) ∧
      ∀ registration ∈ (run sorting state calls).2, Valid state.maxMessageSize registration := by
  induction calls generalizing state added with
  | nil =>
    refine ⟨?_, nofun⟩
    rw [run, slots, List.map_nil, List.append_nil]
    exact hReflects
  | cons registration rest ih =>
    rcases register_cases hReflects with ⟨error, hError⟩ | ⟨hValid, hFresh⟩
    · rw [run, hError]
      exact ih state hReflects
    · obtain ⟨next, hNext, hSize, hAfter⟩ := register_ok hReflects hValid hFresh
      obtain ⟨hFinal, hRest⟩ := ih next hAfter
      rw [run, hNext]
      dsimp only
      rw [hSize] at hRest
      constructor
      · rwa [slots, List.map_cons, List.append_cons]
      · intro call hCall
        rcases List.mem_cons.mp hCall with rfl | hCall
        · exact hValid
        · exact hRest call hCall

theorem run_all (sorting : LengthSort.{u}) (state : ServerState σ κ τ) (calls : List (Registration σ κ τ))
    (hReflects : Reflects state.handlerRegistry added)
    (hValid : ∀ registration ∈ calls, Valid state.maxMessageSize registration)
    (hTargets : ((added ++ slots calls).map Slot.target).Nodup) : (run sorting state calls).2 = calls := by
  induction calls generalizing state added with
  | nil => rfl
  | cons registration rest ih =>
    rw [slots, List.map_cons, List.append_cons] at hTargets
    have hFresh : registration.slot.target ∉ added.map Slot.target := by
      intro hMem
      rw [List.map_append, List.map_append, List.append_assoc, List.nodup_append] at hTargets
      exact hTargets.2.2 _ hMem _ (by simp) rfl
    obtain ⟨next, hNext, hSize, hAfter⟩ := register_ok hReflects
      (hValid registration List.mem_cons_self) hFresh
    have hRest := ih next hAfter (fun call hCall => hSize ▸ hValid call (List.mem_cons_of_mem _ hCall)) hTargets
    rw [run, hNext]
    dsimp only
    rw [hRest]

theorem Reflects.request_iff (h : Reflects state.handlerRegistry added) {route : Route} {entry : HandlerEntry σ κ} :
    findRequestHandler state route = some entry ↔
      LongestMatch.Resolves (added.filterMap Slot.handler?) (added.filterMap Slot.handlerPrefix?) route entry := by
  have hExact := (LongestMatch.Keyed.perm h.handlers).mpr (handler_picks.keyed h.targets)
  have hPrefixes := (LongestMatch.Keyed.perm h.handlerPrefixes).mpr (handlerPrefix_picks.keyed h.targets)
  rw [findRequestHandler, LongestMatch.find_iff hExact hPrefixes h.handlerOrder]
  exact LongestMatch.Resolves.perm h.handlers h.handlerPrefixes

theorem Reflects.stream_iff (h : Reflects state.handlerRegistry added) {route : Route} {entry : StreamHandlerEntry τ} :
    findStreamHandler state route = some entry ↔
      LongestMatch.Resolves (added.filterMap Slot.streamHandler?) (added.filterMap Slot.streamPrefix?) route entry := by
  have hExact := (LongestMatch.Keyed.perm h.streamHandlers).mpr (streamHandler_picks.keyed h.targets)
  have hPrefixes := (LongestMatch.Keyed.perm h.streamPrefixes).mpr (streamPrefix_picks.keyed h.targets)
  rw [findStreamHandler, LongestMatch.find_iff hExact hPrefixes h.streamOrder]
  exact LongestMatch.Resolves.perm h.streamHandlers h.streamPrefixes

theorem Reflects.lookups {other : ServerState σ κ τ} {added' : List (Slot σ κ τ)}
    (h : Reflects state.handlerRegistry added) (hOther : Reflects other.handlerRegistry added')
    (hPerm : added.Perm added') (route : Route) :
    findRequestHandler state route = findRequestHandler other route ∧
      findStreamHandler state route = findStreamHandler other route := by
  constructor
  · refine Option.ext fun entry => ?_
    rw [h.request_iff, hOther.request_iff]
    exact LongestMatch.Resolves.perm (hPerm.filterMap _) (hPerm.filterMap _)
  · refine Option.ext fun entry => ?_
    rw [h.stream_iff, hOther.stream_iff]
    exact LongestMatch.Resolves.perm (hPerm.filterMap _) (hPerm.filterMap _)

end Runs

/-- After any calls, some of which may throw: a lookup returns the exact entry, else that of the longest
registered prefix; the successful calls give the same lookups in any other order and whatever the sort does;
and a call that throws changes no lookup. -/
theorem route_resolution (sorting sorting' : LengthSort.{u}) (maxMessageSize : Nat)
    (calls : List (Registration σ κ τ)) (state : ServerState σ κ τ) (succeeded : List (Registration σ κ τ))
    (hRun : run sorting { maxMessageSize } calls = (state, succeeded)) :
    (∀ route entry, findRequestHandler state route = some entry ↔
      LongestMatch.Resolves ((slots succeeded).filterMap Slot.handler?)
        ((slots succeeded).filterMap Slot.handlerPrefix?) route entry) ∧
    (∀ route entry, findStreamHandler state route = some entry ↔
      LongestMatch.Resolves ((slots succeeded).filterMap Slot.streamHandler?)
        ((slots succeeded).filterMap Slot.streamPrefix?) route entry) ∧
    (∀ permuted : List (Registration σ κ τ), permuted.Perm succeeded →
      ∃ other, run sorting' { maxMessageSize } permuted = (other, permuted) ∧
        ∀ route, findRequestHandler other route = findRequestHandler state route ∧
          findStreamHandler other route = findStreamHandler state route) ∧
    (∀ registration error, (register sorting state registration).2 = .error error → ∀ route,
      findRequestHandler (register sorting state registration).1 route = findRequestHandler state route ∧
        findStreamHandler (register sorting state registration).1 route = findStreamHandler state route) := by
  have hRuns := run_reflects sorting { maxMessageSize } calls Reflects.initial
  rw [hRun, List.nil_append] at hRuns
  obtain ⟨hReflects, hValid⟩ := hRuns
  refine ⟨fun route entry => hReflects.request_iff, fun route entry => hReflects.stream_iff, ?_, ?_⟩
  · intro permuted hPerm
    have hTargets : (([] ++ slots permuted).map Slot.target).Nodup :=
      (((hPerm.map Registration.slot).map Slot.target).nodup_iff).mpr hReflects.targets
    have hAll := run_all sorting' { maxMessageSize } permuted Reflects.initial
      (fun registration hMem => hValid registration (hPerm.mem_iff.mp hMem)) hTargets
    have hAgain := (run_reflects sorting' { maxMessageSize } permuted Reflects.initial).1
    rw [hAll, List.nil_append] at hAgain
    exact ⟨_, Prod.ext rfl hAll, hAgain.lookups hReflects (hPerm.map Registration.slot)⟩
  · intro registration error hError route
    rw [register_error hError]
    exact ⟨rfl, rfl⟩

def byLength : LengthSort.{0} where
  sort := fun entries => entries.insertionSort fun left right => right.1.length ≤ left.1.length
  perm := fun entries => List.perm_insertionSort _ entries
  descending := fun entries => List.pairwise_insertionSort _ entries

def nested : List (Registration Nat Nat Nat) :=
  [.prefixRoute [97] (some 1) false, .prefixRoute [97, 98] (some 2) false, .prefixRoute [97] (some 3) true,
    .exact [97, 98] (some 4) false, .stream [] (some 5)]

theorem route_resolution_nested : ∃ state succeeded, run byLength { maxMessageSize := 8 } nested = (state, succeeded) ∧
    succeeded.length = 3 ∧ findRequestHandler state [97, 98, 99] = some ⟨.simple (some 2), 0⟩ := by
  refine ⟨_, _, rfl, rfl, ?_⟩
  rw [(route_resolution byLength byLength 8 nested _ _ rfl).1]
  refine .inr ⟨?_, [97, 98], ?_, ?_, ?_⟩
  · intro other hMem
    cases hMem with
    | tail _ hMem => cases hMem
  · exact .tail _ (.head _)
  · exact ⟨[99], rfl⟩
  · decide

end EasyUds.Runtime.Routes

import EasyUds.Runtime.Lifecycle

/-! # Servers on one socket path

Any number of `Server` objects, of any users and in any processes, on one path and its lock file. A constructor is
a step for every system call that reads or changes the path or the lock; a constructed server goes on as in
`Lifecycle`, where the call of `unlink_owned_socket` is now an `lstat` and an `unlink`. The file system gives a new
socket any device and inode number, also those of a socket that has been unlinked.
-/

namespace EasyUds.Runtime.SocketPath

open Lib

inductive EntryKind
  | socket
  | regular
  | other
  deriving DecidableEq, Repr

structure Identity where
  kind : EntryKind
  owner : Nat
  device : Nat
  inode : Nat
  links : Nat
  deriving DecidableEq, Repr

def sameIdentity (left right : Identity) : Bool := left.device == right.device && left.inode == right.inode

def isOwnedSocket (identity : Identity) (user : Nat) : Bool := identity.kind == .socket && identity.owner == user

def isOwnedRegularSingleLink (identity : Identity) (user : Nat) : Bool :=
  identity.kind == .regular && identity.owner == user && identity.links == 1

structure Entry where
  identity : Identity
  /-- The server whose `bind` made the entry; none was made before the first server. -/
  binder : Option Nat
  deriving DecidableEq, Repr

/-- The next step of a constructor. The argument is the identity that `remove_stale_socket` has found first. -/
inductive Stage
  | openLock
  | takeLock
  | inspectBefore
  | probe (before : Identity)
  | inspectCurrent (before : Identity)
  | inspectAfter (before : Identity)
  | removeStale
  | bind
  | identify
  | chmod
  | inspectChmod
  | listen
  | createWakeup
  | inspectOwned
  | unlinkOwned
  deriving DecidableEq, Repr

/-- Who calls `unlink_owned_socket` of a constructed server. -/
inductive Caller
  | stop (index : Nat)
  | run
  deriving DecidableEq, Repr

/-- `checked` are the callers between the `lstat` and the `unlink`. -/
inductive Part
  | constructing (stage : Stage)
  | constructed (lifecycle : Lifecycle.State) (checked : List Caller)
  | failed
  deriving DecidableEq, Repr

structure Server where
  user : Nat
  /-- `socket_device` and `socket_inode`, as soon as `socket_identity_valid` is set. -/
  socketIdentity : Option Identity
  part : Part
  deriving DecidableEq, Repr

def Stage.locked : Stage → Bool
  | .openLock | .takeLock => false
  | _ => true

def Stage.bound : Stage → Bool
  | .identify | .chmod | .inspectChmod | .listen | .createWakeup | .inspectOwned | .unlinkOwned => true
  | _ => false

/-- The server has the lock. `close_lifecycle_fds_locked` closes it together with the listener. -/
def Server.locked (server : Server) : Bool :=
  match server.part with
  | .constructing stage => stage.locked
  | .constructed lifecycle _ => decide (0 ≤ lifecycle.listenerFd)
  | .failed => false

def Server.bound (server : Server) : Bool :=
  match server.part with
  | .constructing stage => stage.bound
  | .constructed lifecycle _ => decide (0 ≤ lifecycle.listenerFd)
  | .failed => false

/-- An entry that `unlink` has removed from the path, with what held at that moment. -/
structure Removal where
  remover : Nat
  entry : Entry
  /-- It was the `unlink` of `remove_stale_socket`. -/
  stale : Bool
  /-- The remover had the lock. -/
  locked : Bool
  /-- The listener of the server that had bound the entry was open. -/
  live : Bool
  deriving DecidableEq, Repr

structure State where
  path : Option Entry
  lockFile : Option Identity
  servers : List Server
  removals : List Removal
  deriving DecidableEq, Repr

inductive Connect
  | connected
  | refused
  | noEntry
  | error
  deriving DecidableEq, Repr

/-- What the system calls of a constructor step answer: `fails` is an error that the path does not explain. -/
structure Answer where
  fails : Bool
  connect : Connect
  graceOver : Bool
  device : Nat
  inode : Nat
  deriving DecidableEq, Repr

inductive Action
  | create (user : Nat)
  | construct (server : Nat) (answer : Answer)
  | lifecycle (server : Nat) (action : Lifecycle.Action)
  | inspect (server : Nat) (caller : Caller) (fails : Bool)
  | unlink (server : Nat) (caller : Caller) (fails : Bool)
  deriving DecidableEq, Repr

def setServer (s : State) (index : Nat) (server : Server) : State :=
  { s with servers := s.servers.set index server }

def unlinkSocketPath (s : State) (remover : Nat) (stale : Bool) : State :=
  match s.path with
  | none => s
  | some entry =>
    { s with
      path := none
      removals := s.removals ++ [{
        remover
        entry
        stale
        locked := s.servers[remover]?.any Server.locked
        live := entry.binder.any fun binder => s.servers[binder]?.any Server.bound }] }

def ownsPath (s : State) (server : Server) (fails : Bool) : Bool :=
  !fails && s.path.any fun entry => server.socketIdentity.any fun expected =>
    isOwnedSocket entry.identity server.user && sameIdentity entry.identity expected

section Constructor

variable (s : State) (index : Nat) (server : Server)

def goOn (stage : Stage) : State := setServer s index { server with part := .constructing stage }

/-- The exception leaves the constructor; the listener is closed, then the lock. -/
def fail : State := setServer s index { server with part := .failed }

/-- `inspect` and `verify_owned_socket_candidate` within `remove_stale_socket`. -/
def inspectStale (answer : Answer) (found : Identity → State) : State :=
  if answer.fails then fail s index server
  else
    match s.path with
    | none => goOn s index server .bind
    | some entry => if isOwnedSocket entry.identity server.user then found entry.identity else fail s index server

def constructStep (answer : Answer) : Stage → State
  | .openLock =>
    if answer.fails then fail s index server
    else
      let created := ⟨.regular, server.user, answer.device, answer.inode, 1⟩
      goOn { s with lockFile := some (s.lockFile.getD created) } index server .takeLock
  | .takeLock =>
    if answer.fails || !s.lockFile.any (isOwnedRegularSingleLink · server.user) || s.servers.any Server.locked then
      fail s index server
    else goOn s index server .inspectBefore
  | .inspectBefore => inspectStale s index server answer fun before => goOn s index server (.probe before)
  | .probe before =>
    match answer.connect with
    | .connected | .error => fail s index server
    | .refused => goOn s index server (.inspectCurrent before)
    | .noEntry => goOn s index server .bind
  | .inspectCurrent before =>
    inspectStale s index server answer fun current =>
      if !sameIdentity before current then fail s index server
      else goOn s index server (if answer.graceOver then .inspectAfter before else .probe before)
  | .inspectAfter before =>
    inspectStale s index server answer fun after =>
      if !sameIdentity before after then fail s index server else goOn s index server .removeStale
  | .removeStale =>
    if answer.fails then fail s index server else goOn (unlinkSocketPath s index true) index server .bind
  | .bind =>
    if answer.fails || s.path.isSome then fail s index server
    else goOn { s with path := some ⟨⟨.socket, server.user, answer.device, answer.inode, 1⟩, some index⟩ }
      index server .identify
  | .identify =>
    match s.path with
    | none => fail s index server
    | some entry =>
      if answer.fails || !isOwnedSocket entry.identity server.user then fail s index server
      else goOn s index { server with socketIdentity := some entry.identity } .chmod
  | .chmod => goOn s index server (if answer.fails then .inspectOwned else .inspectChmod)
  | .inspectChmod => goOn s index server (if ownsPath s server answer.fails then .listen else .inspectOwned)
  | .listen => goOn s index server (if answer.fails then .inspectOwned else .createWakeup)
  | .createWakeup =>
    if answer.fails then goOn s index server .inspectOwned
    else setServer s index { server with part := .constructed Lifecycle.constructed [] }
  | .inspectOwned =>
    if ownsPath s server answer.fails then goOn s index server .unlinkOwned else fail s index server
  | .unlinkOwned => fail (if answer.fails then s else unlinkSocketPath s index false) index server

end Constructor

/-- The caller's next step is `unlink_owned_socket`. -/
def atUnlink (lifecycle : Lifecycle.State) : Caller → Bool
  | .stop index =>
    match lifecycle.stops[index]? with
    | some (.unlinkSocket _) => true
    | _ => false
  | .run =>
    match lifecycle.run with
    | .stopping (.unlinkSocket _) | .guardUnlinkSocket => true
    | _ => false

def Caller.action : Caller → Lifecycle.Action
  | .stop index => .stop index
  | .run => .run true

def actor : Lifecycle.Action → Option Caller
  | .callStop => none
  | .stop index => some (.stop index)
  | .run _ => some .run

def lifecycleStep (s : State) (index : Nat) (server : Server) (lifecycle : Lifecycle.State) (checked : List Caller) :
    Action → Option State
  | .lifecycle _ action =>
    if (actor action).any (atUnlink lifecycle) then none
    else (Lifecycle.step lifecycle action).map fun next =>
      setServer s index { server with part := .constructed next checked }
  | .inspect _ caller fails =>
    if !atUnlink lifecycle caller || checked.contains caller then none
    else if ownsPath s server fails then
      some (setServer s index { server with part := .constructed lifecycle (caller :: checked) })
    else (Lifecycle.step lifecycle caller.action).map fun next =>
      setServer s index { server with part := .constructed next checked }
  | .unlink _ caller fails =>
    if !atUnlink lifecycle caller || !checked.contains caller then none
    else (Lifecycle.step lifecycle caller.action).map fun next =>
      setServer (if fails then s else unlinkSocketPath s index false) index
        { server with part := .constructed next (checked.erase caller) }
  | _ => none

def Action.server : Action → Nat
  | .create _ => 0
  | .construct server _ | .lifecycle server _ | .inspect server _ _ | .unlink server _ _ => server

def serverStep (s : State) (action : Action) (server : Server) : Option State :=
  match server.part, action with
  | .constructing stage, .construct index answer => some (constructStep s index server answer stage)
  | .constructed lifecycle checked, action => lifecycleStep s action.server server lifecycle checked action
  | _, _ => none

def step (s : State) : Action → Option State
  | .create user => some { s with servers := s.servers ++ [⟨user, none, .constructing .openLock⟩] }
  | action => s.servers[action.server]?.bind (serverStep s action)

def machine : Machine State Action where
  initial s := s.servers = [] ∧ s.removals = [] ∧ ∀ entry, s.path = some entry → entry.binder = none
  step := step

/-- An entry is removed by the server that has bound it, or by a constructor after the listener of that server is
gone; the remover has the lock. -/
def Rightful (removal : Removal) : Prop :=
  removal.locked = true ∧ ∀ binder, removal.entry.binder = some binder →
    binder = removal.remover ∨ (removal.stale = true ∧ removal.live = false)

structure Sound (s : State) : Prop where
  exclusive : ∀ (i j : Nat) (a b : Server), s.servers[i]? = some a → s.servers[j]? = some b → a.locked = true →
    b.locked = true → i = j
  -- While a listener is open, nobody else has bound the path.
  own : ∀ (i : Nat) (a : Server), s.servers[i]? = some a → a.bound = true → ∀ entry, s.path = some entry →
    entry.binder = some i
  checked : ∀ (i : Nat) (a : Server) (lifecycle : Lifecycle.State) (checked : List Caller), s.servers[i]? = some a →
    a.part = .constructed lifecycle checked → checked ≠ [] → 0 ≤ lifecycle.listenerFd
  removals : ∀ removal ∈ s.removals, Rightful removal

theorem Server.locked_of_bound {a : Server} (h : a.bound = true) : a.locked = true := by
  obtain ⟨user, identity, part⟩ := a
  cases part with
  | constructing stage => cases stage <;> first | rfl | cases h
  | constructed => exact h
  | failed => cases h

/-- What a step of the server `index` does to the path. -/
inductive PathStep (s t : State) (index : Nat) (a b : Server) : Prop
  | kept : t.path = s.path → t.removals = s.removals → (b.bound = true → a.bound = true) → PathStep s t index a b
  | bind (entry : Entry) : t.path = some entry → t.removals = s.removals → entry.binder = some index → a.locked = true →
      PathStep s t index a b
  | unlink (stale : Bool) : t.path = none → t.removals = (unlinkSocketPath s index stale).removals → a.locked = true →
      (stale = true ∨ a.bound = true) → (stale = true → a.bound = false) → PathStep s t index a b

def Effect (s t : State) (index : Nat) (a : Server) : Prop :=
  ∃ b : Server, t.servers = s.servers.set index b ∧ PathStep s t index a b ∧
    (b.locked = true → a.locked = true ∨ s.servers.any Server.locked = false) ∧
    ∀ lifecycle checked, b.part = .constructed lifecycle checked → checked ≠ [] → 0 ≤ lifecycle.listenerFd

section Sound

variable {s t : State} {index : Nat} {a : Server}
variable {lockFile : Option Identity} {stage : Stage}

theorem Sound.alone (h : Sound s) (hServer : s.servers[index]? = some a) (hLocked : a.locked = true) {j : Nat}
    {b : Server} (hOther : s.servers[j]? = some b) (hBound : b.bound = true) : j = index :=
  h.exclusive j index b a hOther hServer (Server.locked_of_bound hBound) hLocked

theorem Sound.removal_rightful (h : Sound s) (hServer : s.servers[index]? = some a) (hLocked : a.locked = true)
    {stale : Bool} (hOwn : stale = true ∨ a.bound = true) (hStale : stale = true → a.bound = false) :
    ∀ removal ∈ (unlinkSocketPath s index stale).removals, Rightful removal := by
  intro removal hRemoval
  unfold unlinkSocketPath at hRemoval
  split at hRemoval
  · exact h.removals removal hRemoval
  · rename_i entry hPath
    obtain hBefore | hNew := List.mem_append.mp hRemoval
    · exact h.removals removal hBefore
    · obtain rfl := List.mem_singleton.mp hNew
      refine ⟨by rw [hServer]; exact hLocked, ?_⟩
      intro binder hBinder
      obtain rfl | hBound := hOwn
      · -- The binder's listener is closed, or the binder would have the lock.
        refine .inr ⟨rfl, ?_⟩
        by_contra hLive
        simp only [Bool.not_eq_false, Option.any_eq_true] at hLive
        obtain ⟨other, -, b, hOther, hBound⟩ := hLive
        obtain rfl := h.alone hServer hLocked hOther hBound
        obtain rfl : a = b := Option.some.inj (hServer.symm.trans hOther)
        rw [hStale rfl] at hBound
        cases hBound
      · exact .inl (Option.some.inj (hBinder.symm.trans (h.own index a hServer hBound entry hPath)))

theorem Sound.effect (h : Sound s) (hServer : s.servers[index]? = some a) (hEffect : Effect s t index a) : Sound t := by
  obtain ⟨b, hServers, hPath, hLock, hChecked⟩ := hEffect
  have hCases : ∀ {i : Nat} {c : Server}, t.servers[i]? = some c →
      (i = index ∧ c = b) ∨ (i ≠ index ∧ s.servers[i]? = some c) := by
    intro i c hAt
    rw [hServers] at hAt
    exact Pool.get_set_cases hServer hAt
  have hNew : ∀ {i : Nat} {c : Server}, i ≠ index → s.servers[i]? = some c → c.locked = true →
      b.locked = true → False := by
    intro i c hOther hAt hHas hAlso
    obtain hBefore | hFree := hLock hAlso
    · exact hOther (h.exclusive i index c a hAt hServer hHas hBefore)
    · rw [List.any_eq_false] at hFree
      exact hFree c (Pool.mem_of_getElem? hAt) hHas
  refine ⟨?_, ?_, ?_, ?_⟩
  · intro i j c d hi hj hc hd
    obtain ⟨hI, rfl⟩ | ⟨hI, hi⟩ := hCases hi
    · obtain ⟨hJ, -⟩ | ⟨hJ, hj⟩ := hCases hj
      · rw [hI, hJ]
      · exact (hNew hJ hj hd hc).elim
    · obtain ⟨hJ, rfl⟩ | ⟨hJ, hj⟩ := hCases hj
      · exact (hNew hI hi hc hd).elim
      · exact h.exclusive i j c d hi hj hc hd
  · intro i c hi hBound entry hEntry
    cases hPath with
    | kept hSame _ hOnly =>
      rw [hSame] at hEntry
      obtain ⟨rfl, rfl⟩ | ⟨-, hi⟩ := hCases hi
      · exact h.own _ a hServer (hOnly hBound) entry hEntry
      · exact h.own i c hi hBound entry hEntry
    | bind bound hSome _ hBinder hLocked =>
      obtain rfl := Option.some.inj (hSome.symm.trans hEntry)
      obtain ⟨rfl, -⟩ | ⟨hOther, hi⟩ := hCases hi
      · exact hBinder
      · exact absurd (h.alone hServer hLocked hi hBound) hOther
    | unlink stale hNone =>
      rw [hNone] at hEntry
      cases hEntry
  · intro i c lifecycle checked hi hPart
    obtain ⟨-, rfl⟩ | ⟨-, hi⟩ := hCases hi
    · exact hChecked lifecycle checked hPart
    · exact h.checked i c lifecycle checked hi hPart
  · cases hPath with
    | kept _ hSame | bind _ _ hSame =>
      rw [hSame]
      exact h.removals
    | unlink stale _ hRemovals hLocked hOwn hStale =>
      rw [hRemovals]
      exact h.removal_rightful hServer hLocked hOwn hStale

theorem Effect.kept (b : Server) (hBound : b.bound = true → a.bound = true)
    (hLocked : b.locked = true → a.locked = true)
    (hChecked : ∀ lifecycle checked, b.part = .constructed lifecycle checked → checked ≠ [] →
      0 ≤ lifecycle.listenerFd) :
    Effect s (setServer { s with lockFile } index b) index a :=
  ⟨b, rfl, .kept rfl rfl hBound, fun hAlso => .inl (hLocked hAlso), hChecked⟩

theorem unlinkSocketPath_path (stale : Bool) : (unlinkSocketPath s index stale).path = none := by
  unfold unlinkSocketPath
  split
  · assumption
  · rfl

theorem unlinkSocketPath_servers (stale : Bool) : (unlinkSocketPath s index stale).servers = s.servers := by
  unfold unlinkSocketPath
  split <;> rfl

theorem Effect.unlink (b : Server) (stale : Bool) (hLocked : a.locked = true) (hOwn : stale = true ∨ a.bound = true)
    (hStale : stale = true → a.bound = false)
    (hChecked : ∀ lifecycle checked, b.part = .constructed lifecycle checked → checked ≠ [] →
      0 ≤ lifecycle.listenerFd) :
    Effect s (setServer (unlinkSocketPath s index stale) index b) index a := by
  refine ⟨b, ?_, ?_, fun _ => .inl hLocked, hChecked⟩
  · rw [setServer, unlinkSocketPath_servers]
  · exact .unlink stale (unlinkSocketPath_path stale) rfl hLocked hOwn hStale

theorem unchecked_constructing (lifecycle : Lifecycle.State) (checked : List Caller)
    (h : Part.constructing stage = .constructed lifecycle checked) : checked ≠ [] → 0 ≤ lifecycle.listenerFd := by
  cases h

theorem unchecked_failed (lifecycle : Lifecycle.State) (checked : List Caller)
    (h : Part.failed = .constructed lifecycle checked) : checked ≠ [] → 0 ≤ lifecycle.listenerFd := by
  cases h

theorem fail_effect : Effect s (fail s index a) index a :=
  .kept { a with part := .failed } nofun nofun unchecked_failed

theorem goOn_effect {identity : Option Identity} (next : Stage) (hPart : a.part = .constructing stage)
    (hBound : next.bound = true → stage.bound = true) (hLocked : next.locked = true → stage.locked = true) :
    Effect s (goOn { s with lockFile } index { a with socketIdentity := identity } next) index a := by
  apply Effect.kept
  · rw [Server.bound, Server.bound, hPart]
    exact hBound
  · rw [Server.locked, Server.locked, hPart]
    exact hLocked
  · exact unchecked_constructing

theorem inspectStale_effect (hPart : a.part = .constructing stage) (hLocked : stage.locked = true) {answer : Answer}
    {found : Identity → State} (hFound : ∀ identity, Effect s (found identity) index a) :
    Effect s (inspectStale s index a answer found) index a := by
  unfold inspectStale
  split
  · exact fail_effect
  · split
    · exact goOn_effect .bind hPart nofun fun _ => hLocked
    · split
      · exact hFound _
      · exact fail_effect

theorem constructStep_effect (hPart : a.part = .constructing stage) (answer : Answer) :
    Effect s (constructStep s index a answer stage) index a := by
  unfold constructStep
  cases stage with
  | openLock =>
    dsimp only
    split
    · exact fail_effect
    · exact goOn_effect .takeLock hPart nofun nofun
  | takeLock =>
    dsimp only
    split
    · exact fail_effect
    · rename_i hFree
      simp only [Bool.or_eq_true, not_or, Bool.not_eq_true] at hFree
      exact ⟨_, rfl, .kept rfl rfl nofun, fun _ => .inr hFree.2, unchecked_constructing⟩
  | inspectBefore =>
    apply inspectStale_effect hPart rfl
    intro before
    exact goOn_effect (.probe before) hPart nofun fun _ => rfl
  | probe before =>
    dsimp only
    split
    · exact fail_effect
    · exact fail_effect
    · exact goOn_effect (.inspectCurrent before) hPart nofun fun _ => rfl
    · exact goOn_effect .bind hPart nofun fun _ => rfl
  | inspectCurrent before =>
    apply inspectStale_effect hPart rfl
    intro current
    split
    · exact fail_effect
    · split
      · exact goOn_effect (.inspectAfter before) hPart nofun fun _ => rfl
      · exact goOn_effect (.probe before) hPart nofun fun _ => rfl
  | inspectAfter before =>
    apply inspectStale_effect hPart rfl
    intro after
    split
    · exact fail_effect
    · exact goOn_effect .removeStale hPart nofun fun _ => rfl
  | removeStale =>
    have hLocked : a.locked = true := by rw [Server.locked, hPart]; rfl
    have hUnbound : a.bound = false := by rw [Server.bound, hPart]; rfl
    dsimp only
    split
    · exact fail_effect
    · exact .unlink { a with part := .constructing .bind } true hLocked (.inl rfl) (fun _ => hUnbound)
        unchecked_constructing
  | bind =>
    have hLocked : a.locked = true := by rw [Server.locked, hPart]; rfl
    dsimp only
    split
    · exact fail_effect
    · exact ⟨{ a with part := .constructing .identify }, rfl, .bind _ rfl rfl rfl hLocked, fun _ => .inl hLocked,
        unchecked_constructing⟩
  | identify =>
    dsimp only
    split
    · exact fail_effect
    · split
      · exact fail_effect
      · exact goOn_effect .chmod hPart (fun _ => rfl) fun _ => rfl
  | chmod | inspectChmod | listen =>
    dsimp only
    exact goOn_effect _ hPart (fun _ => rfl) fun _ => rfl
  | createWakeup =>
    dsimp only
    split
    · exact goOn_effect .inspectOwned hPart (fun _ => rfl) fun _ => rfl
    · refine .kept _ ?_ ?_ ?_
      · exact fun _ => by rw [Server.bound, hPart]; rfl
      · exact fun _ => by rw [Server.locked, hPart]; rfl
      · rintro lifecycle checked hConstructed hSome
        obtain ⟨-, rfl⟩ := Part.constructed.inj hConstructed
        exact absurd rfl hSome
  | inspectOwned =>
    dsimp only
    split
    · exact goOn_effect .unlinkOwned hPart (fun _ => rfl) fun _ => rfl
    · exact fail_effect
  | unlinkOwned =>
    have hLocked : a.locked = true := by rw [Server.locked, hPart]; rfl
    have hBound : a.bound = true := by rw [Server.bound, hPart]; rfl
    dsimp only
    split
    · exact fail_effect
    · exact .unlink { a with part := .failed } false hLocked (.inr hBound) nofun unchecked_failed

end Sound

def closesAt (lifecycle : Lifecycle.State) : Lifecycle.StopPc → Bool
  | .closeDescriptors closeWithoutRun => closeWithoutRun && !lifecycle.runActive
  | _ => false

def closes (lifecycle : Lifecycle.State) : Lifecycle.Action → Bool
  | .callStop => false
  | .stop index => lifecycle.stops[index]?.any (closesAt lifecycle)
  | .run _ =>
    match lifecycle.run with
    | .stopping pc => closesAt lifecycle pc
    | .guardClose => true
    | _ => false

section Closing

variable {lifecycle next : Lifecycle.State}
variable {action : Lifecycle.Action}

theorem stopState_listener {pc : Lifecycle.StopPc} {after : Lifecycle.State × Lifecycle.StopPc}
    (hStep : Lifecycle.stopState lifecycle pc = some after) :
    after.1.listenerFd = if closesAt lifecycle pc then -1 else lifecycle.listenerFd := by
  cases pc with
  | closeDescriptors closeWithoutRun =>
    cases hStep
    cases closeWithoutRun <;> cases hActive : lifecycle.runActive <;>
      simp [closesAt, hActive, Lifecycle.closeLifecycleFdsLocked]
  | returned => cases hStep
  | _ =>
    cases hStep
    rfl

theorem step_listener (hStep : Lifecycle.step lifecycle action = some next) :
    next.listenerFd = if closes lifecycle action then -1 else lifecycle.listenerFd := by
  cases action with
  | callStop =>
    cases hStep
    rfl
  | stop index =>
    dsimp only [Lifecycle.step] at hStep
    split at hStep
    · cases hStep
    · rename_i pc hPc
      obtain ⟨after, hAfter, rfl⟩ := Option.map_eq_some_iff.mp hStep
      rw [closes, hPc, Option.any_some]
      exact stopState_listener hAfter
  | run succeeds =>
    dsimp only [Lifecycle.step, Lifecycle.runStep] at hStep
    split at hStep
    case h_1 hPc =>
      rw [closes, hPc]
      split at hStep
      · cases hStep
        rfl
      · split at hStep <;> cases hStep <;> rfl
    case h_5 hPc =>
      rw [closes, hPc]
      split at hStep <;> cases hStep <;> rfl
    case h_10 pc _ hPc =>
      obtain ⟨after, hAfter, rfl⟩ := Option.map_eq_some_iff.mp hStep
      rw [closes, hPc]
      exact stopState_listener hAfter
    case h_16 => cases hStep
    all_goals
      rename_i hPc
      rw [closes, hPc]
      cases hStep
      rfl

theorem closes_atUnlink {caller : Caller} (h : atUnlink lifecycle caller = true) :
    closes lifecycle caller.action = false := by
  cases caller with
  | stop index =>
    dsimp only [atUnlink] at h
    split at h
    · rename_i hPc
      rw [Caller.action, closes, hPc]
      rfl
    · cases h
  | run =>
    dsimp only [atUnlink] at h
    split at h
    · rename_i hPc
      rw [Caller.action, closes, hPc]
      rfl
    · rename_i hPc
      rw [Caller.action, closes, hPc]
    · cases h

theorem listener_of_open (hStep : Lifecycle.step lifecycle action = some next) (hOpen : 0 ≤ next.listenerFd) :
    0 ≤ lifecycle.listenerFd := by
  rw [step_listener hStep] at hOpen
  split at hOpen
  · omega
  · exact hOpen

end Closing

/-- A server with closed descriptors does not find its identity at the path, and none closes its descriptors
while a caller of it is between the `lstat` and the `unlink` of `unlink_owned_socket`. -/
def noLateUnlink (s : State) : Action → Bool
  | .inspect index _ fails => s.servers[index]?.all fun server => server.locked || !ownsPath s server fails
  | .lifecycle index action =>
    s.servers[index]?.all fun server =>
      match server.part with
      | .constructed lifecycle checked => !closes lifecycle action || checked.isEmpty
      | _ => true
  | _ => true

section Runs

variable {s t : State} {a : Server}
variable {action : Action}

theorem lifecycleStep_effect {index : Nat} {lifecycle : Lifecycle.State} {checked : List Caller} (h : Sound s)
    (hIndex : action.server = index) (hServer : s.servers[index]? = some a)
    (hPart : a.part = .constructed lifecycle checked) (hGuard : noLateUnlink s action = true)
    (hStep : lifecycleStep s index a lifecycle checked action = some t) : Effect s t index a := by
  have hOpen : checked ≠ [] → 0 ≤ lifecycle.listenerFd := h.checked index a lifecycle checked hServer hPart
  have hBound : a.bound = decide (0 ≤ lifecycle.listenerFd) := by rw [Server.bound, hPart]
  have hLocked : a.locked = decide (0 ≤ lifecycle.listenerFd) := by rw [Server.locked, hPart]
  -- A step of the lifecycle that does not touch the path.
  have hKept : ∀ {action : Lifecycle.Action} {next : Lifecycle.State}, Lifecycle.step lifecycle action = some next →
      (checked ≠ [] → closes lifecycle action = false) →
      Effect s (setServer s index { a with part := .constructed next checked }) index a := by
    intro action next hNext hStays
    have hStill : 0 ≤ next.listenerFd → decide (0 ≤ lifecycle.listenerFd) = true :=
      fun hNonneg => decide_eq_true (listener_of_open hNext hNonneg)
    refine Effect.kept _ ?_ ?_ ?_
    · rw [hBound]
      exact fun hAlso => hStill (of_decide_eq_true hAlso)
    · rw [hLocked]
      exact fun hAlso => hStill (of_decide_eq_true hAlso)
    · intro _ _ hConstructed hSome
      obtain ⟨rfl, rfl⟩ := Part.constructed.inj hConstructed
      rw [step_listener hNext, hStays hSome]
      exact hOpen hSome
  cases action with
  | create | construct => cases hStep
  | lifecycle server action =>
    obtain rfl : server = index := hIndex
    dsimp only [lifecycleStep] at hStep
    split at hStep
    · cases hStep
    · obtain ⟨next, hNext, rfl⟩ := Option.map_eq_some_iff.mp hStep
      apply hKept hNext
      intro hSome
      simpa [noLateUnlink, hServer, hPart, hSome] using hGuard
  | inspect server caller fails =>
    obtain rfl : server = index := hIndex
    dsimp only [lifecycleStep] at hStep
    split at hStep
    · cases hStep
    · rename_i hAt
      simp only [Bool.or_eq_true, Bool.not_eq_true', not_or, Bool.not_eq_false, Bool.not_eq_true] at hAt
      split at hStep
      · rename_i hOwns
        cases hStep
        have hHas : decide (0 ≤ lifecycle.listenerFd) = true := by
          simpa [noLateUnlink, hServer, hOwns, hLocked] using hGuard
        refine Effect.kept _ ?_ ?_ ?_
        · rw [hBound]
          exact id
        · rw [hLocked]
          exact id
        · intro _ _ hConstructed _
          obtain ⟨rfl, rfl⟩ := Part.constructed.inj hConstructed
          exact of_decide_eq_true hHas
      · obtain ⟨next, hNext, rfl⟩ := Option.map_eq_some_iff.mp hStep
        exact hKept hNext fun _ => closes_atUnlink hAt.1
  | unlink server caller fails =>
    obtain rfl : server = index := hIndex
    dsimp only [lifecycleStep] at hStep
    split at hStep
    · cases hStep
    · rename_i hAt
      simp only [Bool.or_eq_true, Bool.not_eq_true', not_or, Bool.not_eq_false, List.contains_iff_mem] at hAt
      obtain ⟨hUnlinks, hMember⟩ := hAt
      obtain ⟨next, hNext, rfl⟩ := Option.map_eq_some_iff.mp hStep
      have hHas : 0 ≤ lifecycle.listenerFd := hOpen (List.ne_nil_of_mem hMember)
      have hSame : next.listenerFd = lifecycle.listenerFd := by
        rw [step_listener hNext, closes_atUnlink hUnlinks]
        rfl
      have hChecked : ∀ later rest, Part.constructed next (checked.erase caller) = .constructed later rest → rest ≠ [] →
          0 ≤ later.listenerFd := by
        intro _ _ hConstructed _
        obtain ⟨rfl, -⟩ := Part.constructed.inj hConstructed
        rw [hSame]
        exact hHas
      split
      · refine Effect.kept _ ?_ ?_ hChecked
        · rw [hBound]
          exact fun _ => decide_eq_true hHas
        · rw [hLocked]
          exact fun _ => decide_eq_true hHas
      · refine Effect.unlink _ false ?_ (.inr ?_) nofun hChecked
        · rw [hLocked]
          exact decide_eq_true hHas
        · rw [hBound]
          exact decide_eq_true hHas

theorem serverStep_sound (h : Sound s) (hServer : s.servers[action.server]? = some a)
    (hGuard : noLateUnlink s action = true) (hStep : serverStep s action a = some t) : Sound t := by
  apply h.effect hServer
  cases hPart : a.part with
  | constructing stage =>
    cases action with
    | construct server answer =>
      simp only [serverStep, hPart, Option.some.injEq] at hStep
      subst hStep
      exact constructStep_effect hPart answer
    | create | lifecycle | inspect | unlink => simp [serverStep, hPart] at hStep
  | constructed lifecycle checked =>
    simp only [serverStep, hPart] at hStep
    exact lifecycleStep_effect h rfl hServer hPart hGuard hStep
  | failed => simp [serverStep, hPart] at hStep

theorem create_sound (h : Sound s) (user : Nat) :
    Sound { s with servers := s.servers ++ [⟨user, none, .constructing .openLock⟩] } := by
  have hCases : ∀ {i : Nat} {c : Server}, (s.servers ++ [⟨user, none, .constructing .openLock⟩])[i]? = some c →
      s.servers[i]? = some c ∨ c = ⟨user, none, .constructing .openLock⟩ := by
    intro i c hAt
    rw [List.getElem?_append] at hAt
    split at hAt
    · exact .inl hAt
    · exact .inr (List.mem_singleton.mp (Pool.mem_of_getElem? hAt))
  refine ⟨?_, ?_, ?_, h.removals⟩
  · intro i j c d hi hj hc hd
    obtain hi | rfl := hCases hi
    · obtain hj | rfl := hCases hj
      · exact h.exclusive i j c d hi hj hc hd
      · cases hd
    · cases hc
  · intro i c hi hBound
    obtain hi | rfl := hCases hi
    · exact h.own i c hi hBound
    · cases hBound
  · intro i c lifecycle checked hi hPart
    obtain hi | rfl := hCases hi
    · exact h.checked i c lifecycle checked hi hPart
    · cases hPart

theorem step_sound (h : Sound s) (hGuard : noLateUnlink s action = true) (hStep : step s action = some t) :
    Sound t := by
  cases action with
  | create user =>
    cases hStep
    exact create_sound h user
  | construct | lifecycle | inspect | unlink =>
    obtain ⟨a, hServer, hStep⟩ := Option.bind_eq_some_iff.mp hStep
    exact serverStep_sound h hServer hGuard hStep

theorem initial_sound (hInit : machine.initial s) : Sound s := by
  obtain ⟨hServers, hRemovals, -⟩ := hInit
  have hNone : ∀ {i : Nat} {a : Server}, s.servers[i]? ≠ some a := by
    intro i a hServer
    rw [hServers] at hServer
    cases hServer
  refine ⟨fun i j a b hi => absurd hi hNone, fun i a hi => absurd hi hNone, fun i a _ _ hi => absurd hi hNone, ?_⟩
  rw [hRemovals]
  exact fun removal hRemoval => absurd hRemoval List.not_mem_nil

end Runs

/-- As long as no `unlink` comes too late: every removed entry was removed by a holder of the lock, which
had bound it itself or is a constructor that found the listener of its binder gone. -/
theorem socket_removed_rightfully (s : State) (h : machine.Reached (fun s a => noLateUnlink s a = true) s) :
    ∀ removal ∈ s.removals, removal.locked = true ∧ ∀ binder, removal.entry.binder = some binder →
      binder = removal.remover ∨ (removal.stale = true ∧ removal.live = false) := by
  have hSound : Sound s := by
    apply Machine.Reached.invariant _ _ h
    · intro s hInit
      exact initial_sound hInit
    · intro s action t _ hSound hGuard hStep
      exact step_sound hSound hGuard hStep
  exact hSound.removals

def fresh : State where
  path := none
  lockFile := none
  servers := []
  removals := []

theorem fresh_initial : machine.initial fresh := ⟨rfl, rfl, nofun⟩

def constructs (server inode : Nat) : List Action :=
  Action.create 1000 :: List.replicate 9 (Action.construct server ⟨false, .refused, true, 1, inode⟩)

def beginsStop (server index : Nat) : List Action :=
  [Action.lifecycle server .callStop, .lifecycle server (.stop index), .lifecycle server (.stop index),
    .inspect server (.stop index) false]

def endsStop (server index : Nat) : List Action := List.replicate 4 (Action.lifecycle server (.stop index))

theorem socket_removed_rightfully_twice : ∃ s, machine.Reached (fun s a => noLateUnlink s a = true) s ∧
    s.path.map Entry.binder = some (some 1) ∧ s.removals.map Removal.remover = [0] ∧
    ∀ removal ∈ s.removals, removal.locked = true := by
  obtain ⟨s, hReached, hPath, hRemovers⟩ := Machine.exists_reached_of_exec
    (fun s => s.path.map Entry.binder = some (some 1) ∧ s.removals.map Removal.remover = [0]) noLateUnlink
    (constructs 0 7 ++ beginsStop 0 0 ++ [Action.unlink 0 (.stop 0) false] ++ endsStop 0 0 ++ constructs 1 8 ++
      beginsStop 0 1 ++ endsStop 0 1) fresh_initial (by decide +kernel)
  have hRightful := socket_removed_rightfully s hReached
  exact ⟨s, hReached, hPath, hRemovers, fun removal hRemoval => (hRightful removal hRemoval).1⟩

/-- The first server is stopped; the second one's socket gets the inode number of the first one's; the first server
is stopped once more. -/
theorem live_socket_removed : ∃ s, machine.Reachable s ∧ s.path = none ∧ ∃ removal ∈ s.removals, removal.remover = 0 ∧
    removal.entry.binder = some 1 ∧ removal.stale = false ∧ removal.locked = false ∧ removal.live = true :=
  Machine.exists_reachable_of_exec _ (constructs 0 7 ++ beginsStop 0 0 ++ [Action.unlink 0 (.stop 0) false] ++
    endsStop 0 0 ++ constructs 1 7 ++ beginsStop 0 1 ++ [Action.unlink 0 (.stop 1) false]) fresh_initial
    (by decide +kernel)

def runs (steps : Nat) : List Action := List.replicate steps (Action.lifecycle 0 (.run true))

/-- No inode number is used twice here: `stop()` has found its own socket, then `run()` removes it and closes the
descriptors, and the second server binds the path before `stop()` comes to its `unlink`. -/
theorem live_socket_removed_between : ∃ s, machine.Reachable s ∧ s.path = none ∧ ∃ removal ∈ s.removals,
    removal.remover = 0 ∧ removal.entry.binder = some 1 ∧ removal.stale = false ∧ removal.locked = false ∧
    removal.live = true :=
  Machine.exists_reachable_of_exec _ (constructs 0 7 ++ runs 6 ++ beginsStop 0 0 ++ runs 3 ++
    [Action.inspect 0 .run false, .unlink 0 .run false] ++ runs 8 ++ [Action.inspect 0 .run false] ++ runs 1 ++
    constructs 1 8 ++ [Action.unlink 0 (.stop 0) false]) fresh_initial (by decide +kernel)

end EasyUds.Runtime.SocketPath

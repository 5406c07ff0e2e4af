import Mathlib.Algebra.Group.Nat.Defs
import OpenSecret.Foundation.TaskPools

/-!
`provider_client.rs`: the attested client that all requests to one provider share.
A slot holds the client, a gate keeps discoveries apart, and an atomic flag says
whether some task has claimed the initialization. Requests, background
initializations and refreshes after a failed connection run as tasks that are cut
at every access to this state; what discoveries and requests answer is free.
-/
namespace OpenSecret.Provider
open TaskPools

structure SecureClientSnapshot where
  client : Nat
  refreshAttempt : Nat
  deriving DecidableEq, Repr

/-- A client is known by its allocation, which `Arc::ptr_eq` compares; a snapshot keeps
    it alive, so no other client gets it. `nextClient` is the next allocation, and
    `slotLocked` tells that a task holds the slot for writing. -/
structure SecureTinfoilTransport where
  client : Option Nat
  refreshAttempt : Nat
  slotLocked : Bool
  refreshGate : Bool
  initializationStarted : Bool
  nextClient : Nat
  deriving DecidableEq, Repr

namespace SecureTinfoilTransport
variable (s : SecureTinfoilTransport)

def snapshot : Option SecureClientSnapshot := s.client.map fun client => ⟨client,s.refreshAttempt⟩

def nextAttempt : Nat := (s.refreshAttempt + 1) % 2 ^ 64

/-- Under the write lock: a new client with the next attempt number. -/
def install : SecureTinfoilTransport :=
  { s with
    client := some s.nextClient, refreshAttempt := s.nextAttempt, slotLocked := true,
    nextClient := s.nextClient + 1 }

def empty : SecureTinfoilTransport :=
  { s with client := none, refreshAttempt := s.nextAttempt, slotLocked := true }

/-- `InitializationClaim::release`, which a dropped claim runs as well. -/
def release (active : Bool) : SecureTinfoilTransport :=
  if active then { s with initializationStarted := false } else s

end SecureTinfoilTransport

inductive RefreshDecision where
  | refresh
  | useCurrent
  | previousAttemptFailed
  deriving DecidableEq, Repr

def refreshDecision (failedAttempt currentAttempt : Nat) (sameClient : Bool) : RefreshDecision :=
  if !sameClient then .useCurrent
  else if failedAttempt = currentAttempt then .refresh
  else .previousAttemptFailed

/-- Inside `start_background_initialization`. -/
inductive Starting where
  | check
  | claim
  | spawn
  deriving DecidableEq, Repr

/-- Inside `send`; the answer to a retry is not followed. -/
inductive Sending where
  | starting (phase : Starting)
  | taking
  | executing (attempt : SecureClientSnapshot)
  | finished
  deriving DecidableEq, Repr

/-- Inside `initialize_until_ready`, up to the end of its task. -/
inductive Initializing where
  | lockGate
  | checkSlot
  | releaseSeen
  | discovering
  | installing
  | releasing
  | unlockSlot
  | unlockGate
  | unlockFailed
  | sleeping
  | dropClaim
  | returned
  deriving DecidableEq, Repr

/-- Inside `refresh_after_connect_failure`; no result is `TinfoilUnavailable`. -/
inductive Refreshing where
  | tryGate
  | decide
  | useCurrent
  | discovering
  | writing (discovered : Bool)
  | unlockEmptied
  | dropGate
  | starting (phase : Starting)
  | unlockSlot (result : Option SecureClientSnapshot)
  | unlockGate (result : Option SecureClientSnapshot)
  | returned (result : Option SecureClientSnapshot)
  deriving DecidableEq, Repr

/-- An initialization owns the claim it was spawned with while `active`. -/
inductive Task where
  | send (phase : Sending)
  | initializer (active : Bool) (phase : Initializing)
  | refresh (failed : SecureClientSnapshot) (phase : Refreshing)
  deriving DecidableEq, Repr

inductive Event where
  | took (snapshot : SecureClientSnapshot)
  | refreshing (client : Nat)
  deriving DecidableEq, Repr

inductive Reply where
  | succeeds
  | fails
  | timesOut
  deriving DecidableEq, Repr

abbrev TaskEffect := Effect SecureTinfoilTransport Task Event

section
variable (s : SecureTinfoilTransport)

/-- The call returns to `resume none`. -/
def advanceStarting (phase : Starting) (resume : Option Starting → Task) : Option TaskEffect :=
  match phase with
  | .check =>
    if s.slotLocked then none
    else match s.snapshot with
      | some taken => some ⟨s,resume none,[],[.took taken]⟩
      | none => some ⟨s,resume (some .claim),[],[]⟩
  | .claim =>
    -- `compare_exchange`
    if s.initializationStarted then some ⟨s,resume none,[],[]⟩
    else some ⟨{ s with initializationStarted := true },resume (some .spawn),[],[]⟩
  | .spawn => some ⟨s,resume none,[.initializer true .lockGate],[]⟩

def advanceSend (reply : Reply) : Sending → Option TaskEffect
  | .starting phase => advanceStarting s phase fun
      | some phase => .send (.starting phase)
      | none => .send .taking
  | .taking =>
    if s.slotLocked then none
    else match s.snapshot with
      | some attempt => some ⟨s,.send (.executing attempt),[],[.took attempt]⟩
      | none => some ⟨s,.send .finished,[],[]⟩
  | .executing attempt =>
    -- only a connect error is reported
    if reply = .fails then some ⟨s,.send .finished,[.refresh attempt .tryGate],[]⟩
    else some ⟨s,.send .finished,[],[]⟩
  | .finished => none

def advanceInitialize (reply : Reply) (active : Bool) : Initializing → Option TaskEffect
  | .lockGate =>
    if s.refreshGate then none
      else some ⟨{ s with refreshGate := true },.initializer active .checkSlot,[],[]⟩
  | .checkSlot =>
    if s.slotLocked then none
    else match s.snapshot with
      | some taken => some ⟨s,.initializer active .releaseSeen,[],[.took taken]⟩
      | none => some ⟨s,.initializer active .discovering,[],[]⟩
  | .releaseSeen => some ⟨s.release active,.initializer false .unlockGate,[],[]⟩
  | .discovering =>
    if reply = .succeeds then some ⟨s,.initializer active .installing,[],[]⟩
    else some ⟨s,.initializer active .unlockFailed,[],[]⟩
  | .installing =>
    if s.slotLocked then none else some ⟨s.install,.initializer active .releasing,[],[]⟩
  | .releasing => some ⟨s.release active,.initializer false .unlockSlot,[],[]⟩
  | .unlockSlot => some ⟨{ s with slotLocked := false },.initializer active .unlockGate,[],[]⟩
  | .unlockGate => some ⟨{ s with refreshGate := false },.initializer active .dropClaim,[],[]⟩
  | .unlockFailed => some ⟨{ s with refreshGate := false },.initializer active .sleeping,[],[]⟩
  | .sleeping => some ⟨s,.initializer active .lockGate,[],[]⟩
  | .dropClaim => some ⟨s.release active,.initializer false .returned,[],[]⟩
  | .returned => none

def advanceRefresh (reply : Reply) (failed : SecureClientSnapshot) : Refreshing → Option TaskEffect
  | .tryGate =>
    if s.refreshGate then some ⟨s,.refresh failed (.returned none),[],[]⟩
    else some ⟨{ s with refreshGate := true },.refresh failed .decide,[],[]⟩
  | .decide =>
    if s.slotLocked then none
    else match refreshDecision failed.refreshAttempt s.refreshAttempt
      (s.client = some failed.client) with
      | .useCurrent => some ⟨s,.refresh failed .useCurrent,[],[]⟩
      | .previousAttemptFailed => some ⟨s,.refresh failed (.unlockGate none),[],[]⟩
      | .refresh => some ⟨s,.refresh failed .discovering,[],[.refreshing failed.client]⟩
  | .useCurrent =>
    if s.slotLocked then none
    else some ⟨s,.refresh failed (.unlockGate s.snapshot),[],s.snapshot.toList.map .took⟩
  | .discovering => some ⟨s,.refresh failed (.writing (reply = .succeeds)),[],[]⟩
  | .writing discovered =>
    if s.slotLocked then none
    else if discovered then
      some ⟨s.install,.refresh failed (.unlockSlot s.install.snapshot),
        [],s.install.snapshot.toList.map .took⟩
    else some ⟨s.empty,.refresh failed .unlockEmptied,[],[]⟩
  | .unlockEmptied => some ⟨{ s with slotLocked := false },.refresh failed .dropGate,[],[]⟩
  | .dropGate => some ⟨{ s with refreshGate := false },.refresh failed (.starting .check),[],[]⟩
  | .starting phase => advanceStarting s phase fun
      | some phase => .refresh failed (.starting phase)
      | none => .refresh failed (.returned none)
  | .unlockSlot result =>
    some ⟨{ s with slotLocked := false },.refresh failed (.unlockGate result),[],[]⟩
  | .unlockGate result =>
    some ⟨{ s with refreshGate := false },.refresh failed (.returned result),[],[]⟩
  | .returned _ => none

def Task.advance (reply : Reply) : Task → Option TaskEffect
  | .send phase => advanceSend s reply phase
  | .initializer active phase => advanceInitialize s reply active phase
  | .refresh failed phase => advanceRefresh s reply failed phase

end

def transport : System SecureTinfoilTransport Task Event Reply :=
  ⟨Task.advance,.send (.starting .check)⟩

abbrev World := TaskPools.World SecureTinfoilTransport Task Event

def unstarted : SecureTinfoilTransport := ⟨none,0,false,false,false,0⟩

def constructed :
    World := ⟨{ unstarted with initializationStarted := true },[.initializer true .lockGate],[]⟩

end OpenSecret.Provider

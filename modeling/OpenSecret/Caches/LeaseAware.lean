import OpenSecret.Encrypt
import OpenSecret.Foundation.Locking
import OpenSecret.Foundation.Recency

/-!
`lease_aware_cache.rs`: the session cache. Its operations run one at a time under
the session mutex; the leases they hand out are dropped outside of it. Programs
are cut where they load a counter that a dropped lease may have changed.
-/
namespace OpenSecret.LeaseAware
open Interleaving (Prog observe transact)
open Locking
open Recency (Store)

inductive InsertOutcome where
  | inserted
  | reclaimedExpired
  | evictedLeastRecentlyUsed
  deriving DecidableEq, Repr

inductive InsertError where
  | duplicateKey
  | allEntriesLeased
  deriving DecidableEq, Repr

/-- A slot in the heap; `strong` is the strong count of its `Arc`. -/
structure LeaseSlot (ν : Type) where
  value : ν
  leases : Nat
  strong : Nat

variable {κ ν : Type}

def usizeMax : Nat := 2 ^ 64 - 1

def LeaseSlot.acquire (slot : LeaseSlot ν) : LeaseSlot ν :=
  { slot with leases := slot.leases + 1, strong := slot.strong + 1 }

/-- `fetch_sub`, which wraps below zero. -/
def LeaseSlot.release (slot : LeaseSlot ν) : LeaseSlot ν :=
  { slot with leases := if slot.leases = 0 then usizeMax else slot.leases - 1 }

def LeaseSlot.dropArc (slot : LeaseSlot ν) : LeaseSlot ν := { slot with strong := slot.strong - 1 }

structure CachedValue where
  slot : Nat
  expiresAt : Nat
  deriving DecidableEq, Repr

/-- `lastInstant` is the last `Instant` of the platform. -/
structure LeaseAwareTtlCache (κ : Type) where
  entries : Store κ CachedValue
  ttl : Nat
  lastInstant : Nat

/-- A lease with the key and the value it was acquired for. Dropping it first
    counts it off its slot and then gives up its `Arc`; it is `released` in
    between. -/
structure CacheLease (κ ν : Type) where
  slot : Nat
  key : κ
  value : ν
  released : Bool

/-- The cache, the heap of slots, the leases that are not dropped yet and the
    slots of `RetiredLeaseValues` that are not dropped yet. -/
structure World (κ ν : Type) where
  cache : LeaseAwareTtlCache κ
  slots : List (LeaseSlot ν)
  leases : List (CacheLease κ ν)
  retired : List Nat

def World.isLeased (slot : Nat) (w : World κ ν) : Bool :=
  (w.slots[slot]?).any fun s => s.leases != 0

def World.strongCount (slot : Nat) (w : World κ ν) :
    Nat := ((w.slots[slot]?).map LeaseSlot.strong).getD 0

def change (f : World κ ν → World κ ν) : Prog (World κ ν) Unit := transact fun w => ((),f w)

def hasExternalLease (entry : CachedValue) : Prog (World κ ν) Bool := do
  if ← observe (World.isLeased entry.slot) then
    pure true
  else
    observe fun w => w.strongCount entry.slot != 1

def expiredAndUnleased (entry : CachedValue) (now : Nat) : Prog (World κ ν) Bool :=
  if entry.expiresAt ≤ now then do
    let leased ← hasExternalLease entry
    pure !leased
  else
    pure false

def LeaseAwareTtlCache.expiryAt (cache : LeaseAwareTtlCache κ) (now : Nat) : Option Nat :=
  if now + cache.ttl ≤ cache.lastInstant then some (now + cache.ttl) else none

variable [DecidableEq κ]

def World.insertNew (key : κ) (value : ν) (expiresAt : Nat) (w : World κ ν) : World κ ν :=
  { w with
    cache := { w.cache with entries := w.cache.entries.put key ⟨w.slots.length,expiresAt⟩ }
    slots := w.slots ++ [⟨value,0,1⟩] }

def World.erase (key : κ) (w : World κ ν) : World κ ν :=
  { w with cache := { w.cache with entries := w.cache.entries.erase key } }

def World.evict (key : κ) (w : World κ ν) : Option CachedValue × World κ ν :=
  match w.cache.entries.peek key with
  | none => (none,w)
  | some entry =>
    (some entry,{ w.erase key with slots := w.slots.modify entry.slot LeaseSlot.dropArc })

def World.retire (key : κ) (w : World κ ν) : Option Nat × World κ ν :=
  match w.cache.entries.peek key with
  | none => (none,w)
  | some entry => (some entry.slot,{ w.erase key with retired := entry.slot :: w.retired })

/-- `try_acquire` fails only if the counter is at its end; the clone of the `Arc`
    is then dropped again. -/
def World.takeLease (key : κ) (slot : Nat) (w : World κ ν) : Bool × World κ ν :=
  match w.slots[slot]? with
  | none => (false,w)
  | some s =>
    if s.leases < usizeMax then
      (true,{ w with
        slots := w.slots.modify slot LeaseSlot.acquire
        leases := ⟨slot,key,s.value,false⟩ :: w.leases })
    else
      (false,w)

def World.refresh (key : κ) (expiresAt : Nat) (w : World κ ν) : World κ ν :=
  { w with cache := { w.cache with
      entries := w.cache.entries.update key fun entry => { entry with expiresAt } } }

/-- The first entry without an external lease; the scan runs while leases go on
    being dropped. -/
def findUnleased : List (Sigma fun _ : κ => CachedValue) → Prog (World κ ν) (Option κ)
  | [] => pure none
  | ⟨key,entry⟩ :: rest => do
    if ← hasExternalLease entry then findUnleased rest else pure (some key)

def insertEvictingAt (key : κ) (value : ν) (now : Nat) :
    Prog (World κ ν) (Outcome InsertError InsertOutcome) := do
  -- Nobody else writes the entries while the mutex is held, so they are read once.
  let cache ← observe World.cache
  if (cache.entries.peek key).isSome then
    pure (.error (.error .duplicateKey))
  else
    match cache.expiryAt now with
    | none => pure (.error .panicked)
    | some expiresAt =>
      if cache.entries.isFull then
        match ← findUnleased cache.entries.oldestFirst with
        | none => pure (.error (.error .allEntriesLeased))
        | some evictionKey =>
          match ← transact (World.evict evictionKey) with
          | none => pure (.error .panicked)
          | some evicted =>
            change (World.insertNew key value expiresAt)
            pure (.ok (if evicted.expiresAt ≤ now then .reclaimedExpired
              else .evictedLeastRecentlyUsed))
      else do
        change (World.insertNew key value expiresAt)
        pure (.ok .inserted)

def acquireAt (key : κ) (now : Nat) : Prog (World κ ν) Bool := do
  let cache ← observe World.cache
  match cache.entries.peek key with
  | none => pure false
  | some entry =>
    if ← expiredAndUnleased entry now then
      let _ ← transact (World.evict key)
      pure false
    else
      transact (World.takeLease key entry.slot)

def touchAt (key : κ) (now : Nat) : Prog (World κ ν) (Outcome Empty Bool) := do
  let cache ← observe World.cache
  match cache.entries.peek key with
  | none => pure (.ok false)
  | some entry =>
    if ← expiredAndUnleased entry now then
      let _ ← transact (World.evict key)
      pure (.ok false)
    else
      match cache.expiryAt now with
      | none => pure (.error .panicked)
      | some expiresAt =>
        change (World.refresh key expiresAt)
        pure (.ok true)

/-- Scans from the oldest entry and stops at the first one that is still live. -/
def collectExpired (now : Nat) : List (Sigma fun _ : κ => CachedValue) → Prog (World κ ν) (List κ)
  | [] => pure []
  | ⟨key,entry⟩ :: rest =>
    if now < entry.expiresAt then
      pure []
    else do
      let leased ← hasExternalLease entry
      let keys ← collectExpired now rest
      pure (if leased then keys else key :: keys)

def expiredUnleasedKeysAt (now : Nat) : Prog (World κ ν) (List κ) := do
  let cache ← observe World.cache
  collectExpired now cache.entries.oldestFirst

def retireExpiredCandidatesAt (now : Nat) : List κ → Prog (World κ ν) (Outcome Empty (List Nat))
  | [] => pure (.ok [])
  | key :: rest => do
    let cache ← observe World.cache
    match cache.entries.peek key with
    | none => retireExpiredCandidatesAt now rest
    | some entry =>
      if ← expiredAndUnleased entry now then
        match ← transact (World.retire key) with
        | none => pure (.error .panicked)
        | some slot => (·.map (slot :: ·)) <$> retireExpiredCandidatesAt now rest
      else
        retireExpiredCandidatesAt now rest

/-- The calls made under the mutex. A maintenance batch may name any keys: they
    come from a snapshot taken under an earlier lock. -/
inductive Request (κ ν : Type) where
  | insert (key : κ) (value : ν) (now : Nat)
  | acquire (key : κ) (now : Nat)
  | touch (key : κ) (now : Nat)
  | snapshot (now : Nat)
  | retire (keys : List κ) (now : Nat)

/-- The time a call reads under the mutex; maintenance brings its own. -/
def Request.time : Request κ ν → Option Nat
  | .insert _ _ now => some now
  | .acquire _ now => some now
  | .touch _ now => some now
  | .snapshot _ => none
  | .retire _ _ => none

inductive Reply (κ : Type) where
  | inserted (result : Outcome InsertError InsertOutcome)
  | acquired (leased : Bool)
  | touched (result : Outcome Empty Bool)
  | snapshot (keys : List κ)
  | retired (slots : Outcome Empty (List Nat))
  deriving DecidableEq

def serve : Request κ ν → Prog (World κ ν) (Reply κ)
  | .insert key value now => .inserted <$> insertEvictingAt key value now
  | .acquire key now => .acquired <$> acquireAt key now
  | .touch key now => .touched <$> touchAt key now
  | .snapshot now => .snapshot <$> expiredUnleasedKeysAt now
  | .retire keys now => .retired <$> retireExpiredCandidatesAt now keys

/-- What happens without the mutex: the two halves of dropping a lease, and the
    drop of a retired slot. -/
inductive Dropped : World κ ν → World κ ν → Prop where
  | release {w : World κ ν} {before after : List (CacheLease κ ν)} {lease : CacheLease κ ν}
      (outstanding : w.leases = before ++ lease :: after) (held : lease.released = false) :
      Dropped w { w with
        slots := w.slots.modify lease.slot LeaseSlot.release
        leases := before ++ { lease with released := true } :: after }
  | free {w : World κ ν} {before after : List (CacheLease κ ν)} {lease : CacheLease κ ν}
      (outstanding : w.leases = before ++ lease :: after) (released : lease.released = true) :
      Dropped w { w with
        slots := w.slots.modify lease.slot LeaseSlot.dropArc
        leases := before ++ after }
  | discard {w : World κ ν} {before after : List Nat} {slot : Nat}
      (kept : w.retired = before ++ slot :: after) :
      Dropped w { w with
        slots := w.slots.modify slot LeaseSlot.dropArc
        retired := before ++ after }

def sessions : Locked (World κ ν) (Request κ ν) (Reply κ) where
  serve := serve
  outside := Dropped

def World.new (capacity : Nat) (positive : 0 < capacity) (ttl lastInstant : Nat) : World κ ν where
  cache := ⟨.new capacity positive,ttl,lastInstant⟩
  slots := []
  leases := []
  retired := []

end OpenSecret.LeaseAware

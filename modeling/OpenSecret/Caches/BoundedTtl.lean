import OpenSecret.Encrypt
import OpenSecret.Foundation.Recency
import OpenSecret.Foundation.Traces

/-!
`bounded_ttl_cache.rs`: the cache of ephemeral keys, each to be taken once. What
its operations answer is read off the history of insertions and of takes.
-/
namespace OpenSecret.BoundedTtl
open Recency (Store)
open Traces

inductive InsertOutcome where
  | inserted
  | replaced
  | reclaimedExpired
  | evictedOldest
  deriving DecidableEq, Repr

structure TimedEntry (ν : Type) where
  value : ν
  expiresAt : Nat
  deriving DecidableEq, Repr

/-- `lastInstant` is the last `Instant` of the platform. -/
structure BoundedTtlCache (κ ν : Type) where
  entries : Store κ (TimedEntry ν)
  ttl : Nat
  lastInstant : Nat

variable {κ ν : Type} [DecidableEq κ]

def BoundedTtlCache.new (capacity : Nat) (positive : 0 < capacity) (ttl lastInstant : Nat) :
    BoundedTtlCache κ ν :=
  ⟨.new capacity positive,ttl,lastInstant⟩

def insertEvictingAt (cache : BoundedTtlCache κ ν) (key : κ) (value : ν) (now : Nat) :
    Outcome Empty (InsertOutcome × BoundedTtlCache κ ν) :=
  if now + cache.ttl ≤ cache.lastInstant then
    let entry : TimedEntry ν := ⟨value,now + cache.ttl⟩
    match cache.entries.pop key with
    | (some _,rest) => .ok (.replaced,{ cache with entries := rest.put key entry })
    | (none,_) =>
      if cache.entries.isFull then
        match cache.entries.popBack with
        | (none,_) => .error .panicked
        | (some oldest,rest) =>
          .ok (if oldest.2.expiresAt ≤ now then .reclaimedExpired else .evictedOldest,
            { cache with entries := rest.put key entry })
      else
        .ok (.inserted,{ cache with entries := cache.entries.put key entry })
  else
    .error .panicked

def takeLiveAt (cache : BoundedTtlCache κ ν) (key : κ) (now : Nat) :
    Option ν × BoundedTtlCache κ ν :=
  match cache.entries.pop key with
  | (none,_) => (none,cache)
  | (some entry,rest) =>
    (if entry.expiresAt ≤ now then none else some entry.value,{ cache with entries := rest })

/-- Zeroizes the oldest entry in place and pops it, `count` times. -/
def popOldest (zeroize : ν → ν) :
    Nat → Store κ (TimedEntry ν) → Outcome Empty (List (TimedEntry ν) × Store κ (TimedEntry ν))
  | 0, store => .ok ([],store)
  | count + 1, store =>
    match store.popBack with
    | (none,_) => .error .panicked
    | (some oldest,rest) => do
      let (retired,left) ← popOldest zeroize count rest
      .ok ({ oldest.2 with value := zeroize oldest.2.value } :: retired,left)

def expiredCount (store : Store κ (TimedEntry ν)) (now : Nat) : Nat :=
  (store.oldestFirst.takeWhile fun entry => entry.2.expiresAt ≤ now).length

def retireExpiredAt (zeroize : ν → ν) (cache : BoundedTtlCache κ ν) (now : Nat) :
    Outcome Empty (List (TimedEntry ν) × BoundedTtlCache κ ν) := do
  let (retired,entries) ← popOldest zeroize (expiredCount cache.entries now) cache.entries
  .ok (retired,{ cache with entries })

inductive Operation (κ ν : Type) where
  | insert (key : κ) (value : ν) (now : Nat)
  | take (key : κ) (now : Nat)
  | retire (now : Nat)

def Operation.now : Operation κ ν → Nat
  | .insert _ _ now => now
  | .take _ now => now
  | .retire now => now

inductive Answer (ν : Type) where
  | inserted (outcome : InsertOutcome)
  | taken (value : Option ν)
  | retired (entries : List (TimedEntry ν))
  | panicked

/-- A call that panics leaves the cache as it was. -/
def perform (zeroize : ν → ν) (cache : BoundedTtlCache κ ν) :
    Operation κ ν → Answer ν × BoundedTtlCache κ ν
  | .insert key value now =>
    match insertEvictingAt cache key value now with
    | .ok (outcome,after) => (.inserted outcome,after)
    | .error _ => (.panicked,cache)
  | .take key now => let (value,after) := takeLiveAt cache key now; (.taken value,after)
  | .retire now =>
    match retireExpiredAt zeroize cache now with
    | .ok (retired,after) => (.retired retired,after)
    | .error _ => (.panicked,cache)

end OpenSecret.BoundedTtl

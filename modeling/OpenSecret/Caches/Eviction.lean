import OpenSecret.Caches.ExpiryOrder

/-!
Insertion into the session cache under pressure. The scan for a victim runs from
the least recently used entry on, past the leased ones, so the entry it takes is
the first to expire of those nobody holds.
-/
namespace OpenSecret.LeaseAware
open Locking List
open Recency (Store)
open Relation (ReflTransGen)

variable {κ ν : Type} [DecidableEq κ] {w v : World κ ν} {key : κ} {value : ν} {now : Nat}
  {result : Outcome InsertError InsertOutcome}

def World.AllLeased (w : World κ ν) : Prop :=
  ∀ other entry, w.cache.entries.peek other = some entry → w.Leased other

structure Gains (key : κ) (value : ν) (expiresAt : Nat)
    (kept : List (Sigma fun _ : κ => CachedValue))
    (v : World κ ν) : Prop where
  order : v.cache.entries.oldestFirst = kept ++ [⟨key,⟨v.slots.length - 1,expiresAt⟩⟩]
  stored : (v.slots.getLast?).map LeaseSlot.value = some value

/-- An insertion of a new key that begins in `w` and ends in `v`, while leases may
    be dropped: it is refused only if every place was held when it began, and the
    entry it replaces is free at its end. -/
inductive Admitted (key : κ) (value : ν) (now : Nat) (w : World κ ν) :
    Outcome InsertError InsertOutcome → World κ ν → Prop where
  | refused {v : World κ ν} (full : w.cache.entries.isFull = true) (leased : w.AllLeased)
      (same : v.cache = w.cache) : Admitted key value now w (.error (.error .allEntriesLeased)) v
  | added {v : World κ ν} (room : w.cache.entries.isFull = false)
      (gains : Gains key value (now + w.cache.ttl) w.cache.entries.oldestFirst v) :
      Admitted key value now w (.ok .inserted) v
  | replaced {v : World κ ν} {victim : κ} {entry : CachedValue}
      (full : w.cache.entries.isFull = true) (here : w.cache.entries.peek victim = some entry)
      (free : ¬ v.Leased victim)
      (earliest : ∀ other found, w.cache.entries.peek other = some found → ¬ w.Leased other →
        entry.expiresAt ≤ found.expiresAt)
      (gains : Gains key value (now + w.cache.ttl) (w.cache.entries.erase victim).oldestFirst v) :
      Admitted key value now w
        (.ok (if entry.expiresAt ≤ now then .reclaimedExpired else .evictedLeastRecentlyUsed)) v

variable {expiresAt : Nat} {victim : κ} {entry : CachedValue}

theorem insertNew_gains (absent : w.cache.entries.peek key = none)
    (room : w.cache.entries.isFull = false) :
    Gains key value expiresAt w.cache.entries.oldestFirst (w.insertNew key value expiresAt) := by
  constructor
  · simp [World.insertNew, Store.oldestFirst_put_new absent room]
  · simp [World.insertNew]

theorem inserted_sound (sound : Sound w)
    (ran : Section Dropped (insertEvictingAt key value now) w result v) :
    Sound v ∧ Inserted key value now w result v :=
  section_post (insertEvictingAt_does w sound .refl) ran

theorem inserted_unchanged {fault : Fault InsertError}
    (did : Inserted key value now w (.error fault) v) :
    v.cache = w.cache := by
  cases did with
  | duplicate _ drops => exact drops_cache drops
  | unfit _ drops => exact drops_cache drops
  | refused _ _ drops => exact drops_cache drops

/-- In a sorted list the first entry that is not passed over is the earliest of
    those that would not be. -/
theorem earliest_free (sound : Sound w) (distinct : w.Distinct)
    (sorted : (w.cache.entries.oldestFirst.map (·.2.expiresAt)).Pairwise (· ≤ ·))
    {before after : List (Sigma fun _ : κ => CachedValue)} {other : κ} {found : CachedValue}
    (split : w.cache.entries.oldestFirst = before ++ ⟨victim,entry⟩ :: after)
    (busy : ∀ found ∈ before, Seen w found.2.slot) (here : w.cache.entries.peek other = some found)
    (free : ¬ w.Leased other) : entry.expiresAt ≤ found.expiresAt := by
  have mem := Store.peek_iff_mem.mp here
  rw [split] at mem sorted
  rw [map_append, map_cons] at sorted
  rcases mem_append.mp mem with passed | rest
  · exact absurd (leased_of_seen sound distinct here (busy _ passed)) free
  rcases mem_cons.mp rest with same | later
  · cases same
    exact le_rfl
  · have ordered := (pairwise_cons.mp (pairwise_append.mp sorted).2.1).1
    exact ordered _ (mem_map_of_mem later)

theorem evicted_cache {u : World κ ν} (here : u.cache.entries.peek victim = some entry)
    (drops : ReflTransGen Dropped (u.evict victim).2 v) :
    v.cache = { u.cache with entries := u.cache.entries.erase victim } := by
  rw [drops_cache drops, World.evict, here]
  rfl

theorem replaced_free (other : victim ≠ key)
    (gone : v.cache.entries.peek victim = none) (sound : Sound (v.insertNew key value expiresAt)) :
    ¬ (v.insertNew key value expiresAt).Leased victim := by
  intro leased
  obtain ⟨lease,outstanding,rfl⟩ := leased
  obtain ⟨⟨entry,here,_⟩,_⟩ := sound.backed lease outstanding
  rcases Store.of_peek_put here with ⟨same,_⟩ | old
  · exact other same
  · rw [gone] at old
    cases old

theorem inserted_admitted (sound : Sound w) (distinct : w.Distinct)
    (sorted : (w.cache.entries.oldestFirst.map (·.2.expiresAt)).Pairwise (· ≤ ·))
    (absent : w.cache.entries.peek key = none) (fits : now + w.cache.ttl ≤ w.cache.lastInstant)
    (sound' : Sound v) (did : Inserted key value now w result v) :
    Admitted key value now w result v := by
  cases did with
  | duplicate here _ =>
    rw [absent] at here
    cases here
  | unfit late _ =>
    rw [LeaseAwareTtlCache.expiryAt, if_pos fits] at late
    cases late
  | refused full busy drops =>
    refine .refused full ?_ (drops_cache drops)
    intro other entry here
    exact leased_of_seen sound distinct here (busy _ (Store.peek_iff_mem.mp here))
  | added _ room drops =>
    refine .added room ?_
    rw [← drops_cache drops] at absent room ⊢
    exact insertNew_gains absent room
  | @replaced t u v before after victim entry _ full split busy looked _ waited drops =>
    have here : w.cache.entries.peek victim = some entry := by
      refine Store.peek_iff_mem.mpr ?_
      rw [split]
      exact mem_append_right _ mem_cons_self
    have unmoved : u.cache = w.cache := drops_cache (looked.trans waited)
    have cache : v.cache = { w.cache with entries := w.cache.entries.erase victim } := by
      rw [evicted_cache (unmoved ▸ here) drops, unmoved]
    have gone : v.cache.entries.peek victim = none := by rw [cache, Store.peek_erase_same]
    have other : victim ≠ key := by
      rintro rfl
      rw [absent] at here
      cases here
    have room : v.cache.entries.isFull = false := by
      rw [cache]
      exact Store.isFull_erase (Store.mem_iff_peek.mpr (here ▸ rfl))
    have missing : v.cache.entries.peek key = none := by
      rw [cache, Store.peek_erase_of_ne other.symm, absent]
    refine .replaced full here (replaced_free other gone sound') ?_ ?_
    · exact fun other found => earliest_free sound distinct sorted split busy
    · have gains : Gains key value (now + w.cache.ttl) v.cache.entries.oldestFirst _ :=
        insertNew_gains missing room
      rwa [cache] at gains

theorem insert_alone_leases (key : κ) (value : ν) (now : Nat) (w : World κ ν) :
    (alone (insertEvictingAt key value now) w).2.leases = w.leases := by
  have ran : Section (fun _ _ : World κ ν => False) (insertEvictingAt key value now) w _ _ :=
    section_alone _ w
  have confined : (insertEvictingAt key value now).Confined (Function.onFun Eq World.leases) := by
    refine insertEvictingAt_confined ?_ (fun _ _ _ _ => rfl) key value now
    intro victim u
    unfold World.evict
    split <;> rfl
  have same : Function.onFun Eq World.leases w (alone (insertEvictingAt key value now) w).2 :=
    section_within (fun _ => rfl) (fun first second => first.trans second) (fun never => never.elim)
      confined ran
  exact same.symm

/-- An insertion of a new key into any cache there can be: alone it fails exactly
    if the cache is full and every entry leased; beside dropped leases, too, it is
    refused only then, and otherwise replaces at most one entry, the first to
    expire of the free ones. A failed insertion, of any key, changes nothing. -/
theorem insertion_replaces_earliest_free {capacity ttl lastInstant : Nat} {positive : 0 < capacity}
    {past : List (Request κ ν × Reply κ)}
    (history : History (World.new capacity positive ttl lastInstant) past w)
    (clock : (past.filterMap (·.1.time)).Pairwise (· ≤ ·)) :
    (∀ key value now, w.cache.entries.peek key = none → now + w.cache.ttl ≤ w.cache.lastInstant →
      ((alone (insertEvictingAt key value now) w).1 = .error (.error .allEntriesLeased) ↔
        w.cache.entries.isFull = true ∧ w.AllLeased) ∧
      (alone (insertEvictingAt key value now) w).2.leases = w.leases ∧
      ∀ result v, Section Dropped (insertEvictingAt key value now) w result v →
        Admitted key value now w result v) ∧
    ∀ key value now fault v, Section Dropped (insertEvictingAt key value now) w (.error fault) v →
      v.cache = w.cache := by
  obtain ⟨sound,distinct⟩ := history_sound history
  have sorted := (history_ordered history clock).2.2.sorted
  refine ⟨?_,fun key value now fault v ran => inserted_unchanged (inserted_sound sound ran).2⟩
  intro key value now absent fits
  have leases := insert_alone_leases key value now w
  have admitted : ∀ result v, Section Dropped (insertEvictingAt key value now) w result v →
      Admitted key value now w result v := by
    intro result v ran
    obtain ⟨sound',did⟩ := inserted_sound sound ran
    exact inserted_admitted sound distinct sorted absent fits sound' did
  refine ⟨?_,leases,admitted⟩
  have ran := admitted _ _ (section_alone (insertEvictingAt key value now) w)
  generalize (alone (insertEvictingAt key value now) w).1 = result at ran
  generalize (alone (insertEvictingAt key value now) w).2 = v at ran leases
  cases ran with
  | refused full leased _ => exact iff_of_true rfl ⟨full,leased⟩
  | added room _ => exact iff_of_false nofun fun all => by simp [room] at all
  | @replaced _ victim entry full here free _ _ =>
    refine iff_of_false nofun fun all => free ?_
    rw [World.Leased, leases]
    exact all.2 victim entry here

/-- Of the two expired sessions the leased one stays, older as it is. -/
theorem third_session_replaced :
    (alone (insertEvictingAt 4 5 12) threeResident).1 = .ok .reclaimedExpired ∧
      Admitted 4 5 12 threeResident (.ok .reclaimedExpired)
        (alone (insertEvictingAt 4 5 12) threeResident).2 ∧
      ¬ threeResident.AllLeased := by
  obtain ⟨past,history,clock⟩ := threeResident_history
  obtain ⟨inserts,_⟩ := insertion_replaces_earliest_free history clock
  obtain ⟨refused,_,admitted⟩ := inserts 4 5 12 (by decide +kernel) (by decide +kernel)
  have result : (alone (insertEvictingAt 4 5 12) threeResident).1 = .ok .reclaimedExpired := by
    decide +kernel
  refine ⟨result,?_,?_⟩
  · have ran := admitted _ _ (section_alone _ threeResident)
    rwa [result] at ran
  · intro leased
    have error := refused.mpr ⟨by decide +kernel,leased⟩
    rw [result] at error
    cases error

end OpenSecret.LeaseAware

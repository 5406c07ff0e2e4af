import OpenSecret.Caches.IdleExpiry

/-!
The session cache in time. A fresh deadline always comes with the most recent
place, so the deadlines grow from the least recently used entry on, and a scan
that stops at the first live entry has met every expired one.
-/
namespace OpenSecret.LeaseAware
open List
open Interleaving (Prog observe)
open Locking
open Recency (Store)
open Relation (ReflTransGen)

variable {κ ν : Type} [DecidableEq κ] {w v u : World κ ν} {request : Request κ ν} {reply : Reply κ}
  {times : List Nat} {time : Option Nat}

/-- A cache since its start: the calls under the mutex in their order, with leases
    dropped during them and in between. -/
inductive History (start : World κ ν) : List (Request κ ν × Reply κ) → World κ ν → Prop where
  | start : History start [] start
  | call {past : List (Request κ ν × Reply κ)} {w v : World κ ν} {request : Request κ ν}
      {reply : Reply κ} (before : History start past w)
      (ran : Section Dropped (serve request) w reply v) :
        History start (past ++ [(request,reply)]) v
  | drop {past : List (Request κ ν × Reply κ)} {w v : World κ ν} (before : History start past w)
      (dropped : Dropped w v) : History start past v

def World.Reclaimable (now : Nat) (key : κ) (w : World κ ν) : Prop :=
  ∃ entry, w.cache.entries.peek key = some entry ∧ entry.expiresAt ≤ now ∧ ¬ w.Leased key

/-- Entries may go, and one may become the most recent with a deadline counted
    from `time`. -/
structure Moves (time : Option Nat) (w v : World κ ν) : Prop where
  ttl : v.cache.ttl = w.cache.ttl
  capacity : v.cache.entries.capacity = w.cache.entries.capacity
  order : v.cache.entries.oldestFirst.Sublist w.cache.entries.oldestFirst ∨
    ∃ rest key slot now, time = some now ∧ rest.Sublist w.cache.entries.oldestFirst ∧
      v.cache.entries.oldestFirst = rest ++ [⟨key,⟨slot,now + w.cache.ttl⟩⟩]

theorem recedes_moves (recedes : Recedes w v) : Moves time w v :=
  ⟨recedes.ttl,recedes.capacity,.inl recedes.order⟩

theorem served_moves (served : Served request reply w v) : Moves request.time w v := by
  cases served with
  | receded recedes _ => exact recedes_moves recedes
  | @leased _ u key now entry here granted drops =>
    have cache : (u.takeLease key entry.slot).2.cache = w.cache :=
      (takeLease_cache key entry.slot).trans (drops_cache drops)
    exact ⟨by rw [cache],by rw [cache],.inl (by rw [cache])⟩
  | @renewed _ u key now entry here drops =>
    have recedes := drops_recedes drops
    have entries : (u.refresh key (now + w.cache.ttl)).cache.entries = _ :=
      Store.update_of_peek ((drops_cache drops).symm ▸ here)
    refine ⟨recedes.ttl,(congrArg Store.capacity entries).trans recedes.capacity,.inr ?_⟩
    refine ⟨_,key,entry.slot,now,rfl,?_,entries ▸ Store.oldestFirst_promote⟩
    exact (Store.oldestFirst_erase_sublist key).trans recedes.order
  | @added _ u key value now _ absent recedes =>
    obtain ⟨rest,entries,sub⟩ :=
      Store.oldestFirst_put u.cache.entries key ⟨u.slots.length,now + w.cache.ttl⟩
    refine ⟨recedes.ttl,Store.capacity_put.trans recedes.capacity,.inr ?_⟩
    exact ⟨rest,key,u.slots.length,now,rfl,sub.trans recedes.order,entries⟩

/-- Every deadline is one `ttl` after a time of the clock. -/
structure Ordered (times : List Nat) (w : World κ ν) : Prop where
  sorted : (w.cache.entries.oldestFirst.map (·.2.expiresAt)).Pairwise (· ≤ ·)
  dated : ∀ found ∈ w.cache.entries.oldestFirst, ∃ t ∈ times, found.2.expiresAt = t + w.cache.ttl

omit [DecidableEq κ] in
theorem moves_ordered (moves : Moves time w v) (clock : (times ++ time.toList).Pairwise (· ≤ ·))
    (ordered : Ordered times w) : Ordered (times ++ time.toList) v := by
  have dated : ∀ found ∈ w.cache.entries.oldestFirst,
      ∃ t ∈ times ++ time.toList, found.2.expiresAt = t + v.cache.ttl := by
    intro found mem
    obtain ⟨t,known,deadline⟩ := ordered.dated found mem
    exact ⟨t,mem_append_left _ known,by rw [moves.ttl, deadline]⟩
  rcases moves.order with sub | ⟨rest,key,slot,now,rfl,sub,order⟩
  · constructor
    · exact ordered.sorted.sublist (sub.map _)
    · exact fun found mem => dated found (sub.subset mem)
  have latest : ∀ deadline ∈ rest.map (·.2.expiresAt), deadline ≤ now + w.cache.ttl := by
    intro deadline mem
    obtain ⟨found,old,rfl⟩ := mem_map.mp mem
    obtain ⟨t,known,same⟩ := ordered.dated found (sub.subset old)
    have sooner : t ≤ now := (pairwise_append.mp clock).2.2 t known now mem_cons_self
    omega
  constructor
  · rw [order, map_append, pairwise_append]
    refine ⟨ordered.sorted.sublist (sub.map _),pairwise_singleton _ _,?_⟩
    intro deadline old fresh last
    rw [mem_singleton.mp last]
    exact latest deadline old
  · intro found mem
    rw [order] at mem
    rcases mem_append.mp mem with old | fresh
    · exact dated found (sub.subset old)
    · rw [mem_singleton.mp fresh, moves.ttl]
      exact ⟨now,mem_append_right _ mem_cons_self,rfl⟩

section
variable {capacity ttl lastInstant : Nat} {positive : 0 < capacity}
  {past : List (Request κ ν × Reply κ)}

variable {start : World κ ν}

theorem history_keeps {fact : World κ ν → Prop} {allowed : Request κ ν → Prop}
    (serves : ∀ {request reply w v}, allowed request → Section Dropped (serve request) w reply v →
      fact w → fact v)
    (drops : ∀ {w v}, Dropped w v → fact w → fact v) (history : History start past w)
    (calls : ∀ call ∈ past, allowed call.1) (first : fact start) : fact w := by
  induction history with
  | start => exact first
  | call _ ran ih =>
    have before := ih fun call made => calls call (mem_append_left _ made)
    exact serves (calls _ (mem_append_right _ mem_cons_self)) ran before
  | drop _ dropped ih => exact drops dropped (ih calls)

theorem history_sound (history : History (World.new capacity positive ttl lastInstant) past w) :
    Sound w ∧ w.Distinct := by
  have serves : ∀ {request : Request κ ν} {reply w v}, True →
    Section Dropped (serve request) w reply v →
      Sound w ∧ w.Distinct → Sound v ∧ v.Distinct :=
    fun _ ran kept => ⟨served_sound kept.1 ran,served_distinct kept.1 kept.2 ran⟩
  have drops : ∀ {w v : World κ ν}, Dropped w v → Sound w ∧ w.Distinct → Sound v ∧ v.Distinct :=
    fun dropped kept => ⟨dropped_sound dropped kept.1,dropped_distinct dropped kept.2⟩
  exact history_keeps serves drops history (fun _ _ => trivial)
    ⟨new_sound capacity positive ttl lastInstant,nodup_nil⟩

theorem history_ordered (history : History (World.new capacity positive ttl lastInstant) past w)
    (clock : (past.filterMap (·.1.time)).Pairwise (· ≤ ·)) :
    w.cache.ttl = ttl ∧ w.cache.entries.capacity = capacity ∧
      Ordered (past.filterMap (·.1.time)) w := by
  induction history with
  | start => exact ⟨rfl,rfl,List.Pairwise.nil,nofun⟩
  | @call past w v request reply before ran ih =>
    have times : (past ++ [(request,reply)]).filterMap (·.1.time) =
        past.filterMap (·.1.time) ++ request.time.toList := by
      rw [filterMap_append]
      cases read : request.time <;> simp [read]
    rw [times] at clock ⊢
    have moves := served_moves (served_cases (history_sound before).1 ran)
    obtain ⟨lives,bound,ordered⟩ := ih (pairwise_append.mp clock).1
    exact ⟨moves.ttl.trans lives,moves.capacity.trans bound,moves_ordered moves clock ordered⟩
  | drop _ dropped ih =>
    obtain ⟨lives,bound,sorted,dated⟩ := ih clock
    rw [← dropped_cache dropped] at lives bound sorted dated
    exact ⟨lives,bound,sorted,dated⟩

end

section
variable {now : Nat} {keys : List κ} {list : List (Sigma fun _ : κ => CachedValue)}

/-- The keys a scan of the list has collected by `v`, begun in `w`. -/
structure Finds (now : Nat) (list : List (Sigma fun _ : κ => CachedValue)) (w : World κ ν)
    (keys : List κ) (v : World κ ν) : Prop where
  drops : ReflTransGen Dropped w v
  order : keys.Sublist (list.map Sigma.fst)
  unheld : ∀ key ∈ keys, ∃ entry, ⟨key,entry⟩ ∈ list ∧ entry.expiresAt ≤ now ∧ v.Unheld entry.slot
  complete : ∀ found ∈ list, found.2.expiresAt ≤ now → found.1 ∈ keys ∨ Seen w found.2.slot

variable {slot : Nat} {key : κ}

omit [DecidableEq κ] in
theorem seen_before (drops : ReflTransGen Dropped w u) (seen : Seen u slot) : Seen w slot := by
  obtain ⟨v,later,external⟩ := seen
  exact ⟨v,drops.trans later,external⟩

omit [DecidableEq κ] in
theorem drops_finds (drops : ReflTransGen Dropped w u) (finds : Finds now list u keys v) :
    Finds now list w keys v := by
  refine ⟨drops.trans finds.drops,finds.order,finds.unheld,fun found mem expired => ?_⟩
  exact (finds.complete found mem expired).imp_right (seen_before drops)

omit [DecidableEq κ] in
theorem finds_cons {found : Sigma fun _ : κ => CachedValue} {leased : Bool}
    (expired : found.2.expiresAt ≤ now) (drops : ReflTransGen Dropped w u)
    (free : leased = false → u.Unheld found.2.slot) (held : leased = true → Seen w found.2.slot)
    (finds : Finds now list u keys v) :
    Finds now (found :: list) w (if leased then keys else found.1 :: keys) v := by
  obtain ⟨later,order,unheld,complete⟩ := drops_finds drops finds
  have old : ∀ key ∈ keys, ∃ entry, ⟨key,entry⟩ ∈ found :: list ∧ entry.expiresAt ≤ now ∧
      v.Unheld entry.slot := by
    intro key mem
    obtain ⟨entry,listed,rest⟩ := unheld key mem
    exact ⟨entry,mem_cons_of_mem _ listed,rest⟩
  cases leased with
  | true =>
    refine ⟨later,order.cons _,old,?_⟩
    intro other mem late
    rcases mem_cons.mp mem with rfl | listed
    · exact .inr (held rfl)
    · exact complete other listed late
  | false =>
    refine ⟨later,order.cons_cons _,?_,?_⟩
    · intro key mem
      rcases mem_cons.mp mem with rfl | collected
      · exact ⟨found.2,mem_cons_self,expired,drops_unheld finds.drops (free rfl)⟩
      · exact old key collected
    · intro other mem late
      rcases mem_cons.mp mem with rfl | listed
      · exact .inl mem_cons_self
      · exact (complete other listed late).imp_left (mem_cons_of_mem _)

/-- Where the scan stops, no later deadline is over either. -/
theorem collectExpired_finds (sorted : (list.map (·.2.expiresAt)).Pairwise (· ≤ ·))
    (sound : Sound w) (resident : ∀ found ∈ list, w.cache.entries.peek found.1 = some found.2) :
    soundness.Safe (Finds now list w) (collectExpired now list) w := by
  induction list generalizing w with
  | nil => exact ⟨sound,.refl,Sublist.refl _,nofun,nofun⟩
  | cons found rest ih =>
    have later := pairwise_cons.mp sorted
    unfold collectExpired
    split
    · rename_i live
      refine ⟨sound,.refl,nil_sublist _,nofun,fun other mem expired => ?_⟩
      have first : found.2.expiresAt ≤ other.2.expiresAt := by
        rcases mem_cons.mp mem with rfl | listed
        · exact le_rfl
        · exact later.1 _ (mem_map_of_mem listed)
      omega
    · rename_i dead
      have here := resident found mem_cons_self
      refine Regime.safe_bind (fun leased => ?_) (hasExternalLease_sees w sound .refl)
      intro u sound' checked
      obtain ⟨drops,held,alone⟩ := checked
      have cache := drops_cache drops
      have free : leased = false → u.Unheld found.2.slot := fun unleased =>
        unheld_of_strongCount sound' (cache ▸ here) (alone unleased)
      have scanned := ih later.2 sound' fun other listed =>
        cache ▸ resident other (mem_cons_of_mem _ listed)
      refine Regime.safe_bind (fun keys => Regime.triple_pure fun v _ finds => ?_) scanned
      exact finds_cons (Nat.le_of_not_lt dead) drops free held finds

theorem snapshot_safe (sorted : (w.cache.entries.oldestFirst.map (·.2.expiresAt)).Pairwise (· ≤ ·))
    (sound : Sound w) :
    soundness.Safe (Finds now w.cache.entries.oldestFirst w) (expiredUnleasedKeysAt now) w := by
  intro u drops
  have sound' := drops_sound drops sound
  refine ⟨sound',?_⟩
  have scanned : soundness.Safe (Finds now w.cache.entries.oldestFirst u)
      (collectExpired now w.cache.entries.oldestFirst) u := by
    refine collectExpired_finds sorted sound' fun found mem => ?_
    rw [drops_cache drops]
    exact Store.peek_iff_mem.mpr mem
  rw [← drops_cache drops] at scanned ⊢
  exact Regime.safe_mono (fun _ _ => drops_finds drops) scanned

theorem snapshot_finds (sorted : (w.cache.entries.oldestFirst.map (·.2.expiresAt)).Pairwise (· ≤ ·))
    (sound : Sound w) (ran : Section Dropped (expiredUnleasedKeysAt now) w keys v) :
    Sound v ∧ Finds now w.cache.entries.oldestFirst w keys v :=
  section_post (snapshot_safe sorted sound) ran

theorem unleased_of_unheld {entry : CachedValue} (sound : Sound w)
    (here : w.cache.entries.peek key = some entry) (unheld : w.Unheld entry.slot) :
    ¬ w.Leased key := by
  intro leased
  obtain ⟨lease,outstanding,rfl⟩ := leased
  obtain ⟨⟨found,there,slot⟩,_⟩ := sound.backed lease outstanding
  obtain rfl : found = entry := Option.some.inj (there.symm.trans here)
  exact unheld (slot ▸ mem_map_of_mem outstanding)

theorem finds_reclaimable (sound : Sound v) (finds : Finds now w.cache.entries.oldestFirst w keys v)
    (mem : key ∈ keys) : v.Reclaimable now key := by
  obtain ⟨entry,listed,expired,unheld⟩ := finds.unheld key mem
  have here : v.cache.entries.peek key = some entry := by
    rw [drops_cache finds.drops]
    exact Store.peek_iff_mem.mpr listed
  exact ⟨entry,here,expired,unleased_of_unheld sound here unheld⟩

theorem reclaimable_found (sound : Sound w) (distinct : w.Distinct)
    (finds : Finds now w.cache.entries.oldestFirst w keys v) (waits : w.Reclaimable now key) :
    key ∈ keys := by
  obtain ⟨entry,here,expired,free⟩ := waits
  rcases finds.complete ⟨key,entry⟩ (Store.peek_iff_mem.mp here) expired with found | seen
  · exact found
  · exact absurd (leased_of_seen sound distinct here seen) free

omit [DecidableEq κ] in
theorem snapshot_alone (now : Nat) (w : World κ ν) :
    (alone (expiredUnleasedKeysAt now) w).2 = w := by
  have ran : Section (fun _ _ : World κ ν => False) (expiredUnleasedKeysAt now) w _ _ :=
    section_alone _ w
  have same : w = (alone (expiredUnleasedKeysAt now) w).2 :=
    section_within (fun _ => rfl) (fun first second => first.trans second) (fun never => never.elim)
      (expiredUnleasedKeysAt_confined now _) ran
  exact same.symm

end

/-- Whatever is called and dropped, with a clock that does not go back: no key is
    twice in the cache, the capacity is kept and the deadlines grow with recency.
    So a snapshot is complete: left alone it returns the keys of exactly the entries
    that are expired and unleased, oldest first; while leases are being dropped it
    returns at least those that were so when it began and only such as are so when
    it ends. -/
theorem deadlines_grow_with_recency {capacity ttl lastInstant : Nat} {positive : 0 < capacity}
    {past : List (Request κ ν × Reply κ)}
    (history : History (World.new capacity positive ttl lastInstant) past w)
    (clock : (past.filterMap (·.1.time)).Pairwise (· ≤ ·)) :
    (w.cache.entries.oldestFirst.map Sigma.fst).Nodup ∧
      w.cache.entries.oldestFirst.length ≤ capacity ∧
      (w.cache.entries.oldestFirst.map (·.2.expiresAt)).Pairwise (· ≤ ·) ∧
      (∀ now key, key ∈ (alone (expiredUnleasedKeysAt now) w).1 ↔ w.Reclaimable now key) ∧
      ∀ now keys v, Section Dropped (expiredUnleasedKeysAt now) w keys v →
        keys.Sublist (w.cache.entries.oldestFirst.map Sigma.fst) ∧
          (∀ key, w.Reclaimable now key → key ∈ keys) ∧ ∀ key ∈ keys, v.Reclaimable now key := by
  obtain ⟨sound,distinct⟩ := history_sound history
  obtain ⟨_,rfl,ordered⟩ := history_ordered history clock
  have snapshot : ∀ now keys v, Section Dropped (expiredUnleasedKeysAt now) w keys v →
      keys.Sublist (w.cache.entries.oldestFirst.map Sigma.fst) ∧
        (∀ key, w.Reclaimable now key → key ∈ keys) ∧ ∀ key ∈ keys, v.Reclaimable now key := by
    intro now keys v ran
    obtain ⟨sound',finds⟩ := snapshot_finds ordered.sorted sound ran
    refine ⟨finds.order,?_,?_⟩
    · exact fun key waits => reclaimable_found sound distinct finds waits
    · exact fun key mem => finds_reclaimable sound' finds mem
  refine ⟨?_,?_,ordered.sorted,?_,snapshot⟩
  · rw [Store.oldestFirst, map_reverse, nodup_reverse]
    exact w.cache.entries.resident.nodupKeys
  · rw [Store.oldestFirst, length_reverse]
    exact w.cache.entries.bounded
  · intro now key
    obtain ⟨-,all,only⟩ := snapshot now _ _ (section_alone _ w)
    rw [snapshot_alone] at only
    exact ⟨only key,all key⟩

theorem history_inTurn {start : World κ ν} (requests : List (Request κ ν)) :
    ∀ {past : List (Request κ ν × Reply κ)} {w : World κ ν}, History start past w →
      ∃ later, later.map Prod.fst = requests ∧
        History start (past ++ later) (inTurn sessions requests w) := by
  induction requests with
  | nil =>
    intro past w before
    exact ⟨[],rfl,by rwa [append_nil]⟩
  | cons request rest ih =>
    intro past w before
    obtain ⟨later,same,history⟩ := ih (before.call (section_alone (serve request) w))
    rw [append_assoc] at history
    refine ⟨_,?_,history⟩
    rw [map_append, same]
    rfl

/-- Three sessions; the first one is touched again and the second one leased. -/
def threeSessions : List (Request Nat Nat) :=
  [.insert 1 7 0,.insert 2 8 1,.insert 3 9 2,.touch 1 3,.acquire 2 4]

def threeResident : World Nat Nat := inTurn sessions threeSessions (World.new 3 (by decide) 10 100)

theorem threeResident_history :
    ∃ past, History (World.new 3 (by decide) 10 100) past threeResident ∧
    (past.filterMap (·.1.time)).Pairwise (· ≤ ·) := by
  let empty : World Nat Nat := World.new 3 (by decide) 10 100
  obtain ⟨past,same,history⟩ := history_inTurn threeSessions (.start : History empty [] empty)
  refine ⟨past,history,?_⟩
  have read : past.filterMap (·.1.time) = threeSessions.filterMap Request.time := by
    rw [← same, filterMap_map]
    rfl
  rw [read]
  decide

theorem leased_session_passed_over :
    threeResident.cache.entries.oldestFirst = [⟨2,⟨1,11⟩⟩,⟨3,⟨2,12⟩⟩,⟨1,⟨0,13⟩⟩] ∧
      ¬ threeResident.Reclaimable 12 2 ∧
      ∃ v, Section Dropped (expiredUnleasedKeysAt 12) threeResident [3] v ∧ v.Reclaimable 12 3 := by
  obtain ⟨past,history,clock⟩ := threeResident_history
  obtain ⟨-,-,-,exactly,snapshot⟩ := deadlines_grow_with_recency history clock
  have keys : (alone (expiredUnleasedKeysAt 12) threeResident).1 = [3] := by decide +kernel
  have ran : Section Dropped (expiredUnleasedKeysAt 12) threeResident [3] _ :=
    keys ▸ section_alone _ threeResident
  refine ⟨by rfl,?_,_,ran,(snapshot 12 [3] _ ran).2.2 3 (mem_singleton_self 3)⟩
  intro waits
  have found := (exactly 12 2).mpr waits
  rw [keys] at found
  exact absurd found (by decide)

end OpenSecret.LeaseAware

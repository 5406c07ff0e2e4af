import OpenSecret.Caches.LeaseAware

/-!
The strong count of a slot is the number of its owners, so an entry that a scan
finds without external lease has none. No lease outlives the residence of its
entry, whatever the operations and the dropped leases do in between.
-/
namespace OpenSecret.LeaseAware
open List
open Interleaving (Prog observe transact confined_bind confined_transact)
open Locking
open Recency (Store)
open Relation (ReflTransGen)

variable {κ ν : Type} [DecidableEq κ] {w v u : World κ ν}

/-- The owners of slots: entries of the cache, leases and retired values. -/
def World.residents (w : World κ ν) : List Nat := w.cache.entries.resident.entries.map (·.2.slot)

def World.holders (w : World κ ν) : List Nat := w.residents ++ (w.leases.map (·.slot) ++ w.retired)

def World.outstanding (w : World κ ν) : List Nat := (w.leases.filter (!·.released)).map (·.slot)

def Counts (field : LeaseSlot ν → Nat) (slots : List (LeaseSlot ν)) (owners : List Nat) : Prop :=
  ∀ a slot, slots[a]? = some slot → field slot = owners.count a

def World.Backs (w : World κ ν) (lease : CacheLease κ ν) : Prop :=
  (∃ entry, w.cache.entries.peek lease.key = some entry ∧ entry.slot = lease.slot) ∧
    ∃ slot, w.slots[lease.slot]? = some slot ∧ slot.value = lease.value

structure Sound (w : World κ ν) : Prop where
  strong : Counts LeaseSlot.strong w.slots w.holders
  leases : Counts LeaseSlot.leases w.slots w.outstanding
  allocated : ∀ a ∈ w.holders, a < w.slots.length
  backed : ∀ lease ∈ w.leases, w.Backs lease

section
variable {field : LeaseSlot ν → Nat} {slots : List (LeaseSlot ν)} {owners others : List Nat}
  {f : LeaseSlot ν → LeaseSlot ν} {i : Nat}

theorem counts_perm (counts : Counts field slots owners) (perm : owners.Perm others) :
    Counts field slots others :=
  fun a slot at_ => (counts a slot at_).trans (perm.count_eq a)

theorem counts_modify (counts : Counts field slots owners)
    (here : ∀ slot, field slot = owners.count i → field (f slot) = others.count i)
    (elsewhere : ∀ a, a ≠ i → others.count a = owners.count a) :
    Counts field (slots.modify i f) others := by
  intro a slot at_
  rw [getElem?_modify] at at_
  obtain ⟨old,before,rfl⟩ := Option.map_eq_some_iff.mp at_
  split
  · rename_i same
    subst same
    exact here old (counts i old before)
  · rename_i other
    rw [counts a old before, elsewhere a (Ne.symm other)]

theorem counts_modify_same (counts : Counts field slots owners)
    (same : ∀ slot, field (f slot) = field slot) :
    Counts field (slots.modify i f) owners :=
  counts_modify counts (fun slot counted => (same slot).trans counted) (fun _ _ => rfl)

theorem counts_push (counts : Counts field slots owners) {fresh : LeaseSlot ν}
    (new : field fresh = others.count slots.length)
    (old : ∀ a, a < slots.length → others.count a = owners.count a) :
    Counts field (slots ++ [fresh]) others := by
  intro a slot at_
  rcases Nat.lt_trichotomy a slots.length with low | rfl | high
  · rw [getElem?_append_left low] at at_
    rw [counts a slot at_, old a low]
  · rw [getElem?_concat_length] at at_
    rw [← Option.some.inj at_, new]
  · rw [getElem?_eq_none (by simp; omega)] at at_
    cases at_

theorem counts_dropArc (counts : Counts LeaseSlot.strong slots owners)
    (gone : owners.Perm (i :: others)) :
    Counts LeaseSlot.strong (slots.modify i LeaseSlot.dropArc) others := by
  refine counts_modify (counts_perm counts gone) (fun slot counted => ?_) (fun a other => ?_)
  · rw [count_cons_self] at counted
    exact (congrArg (· - 1) counted).trans (Nat.add_sub_cancel _ 1)
  · exact (count_cons_of_ne (Ne.symm other)).symm

end

theorem backs_modify {i : Nat} {f : LeaseSlot ν → LeaseSlot ν} {lease : CacheLease κ ν}
    (keeps : ∀ slot, (f slot).value = slot.value) (sameCache : v.cache = w.cache)
    (modified : v.slots = w.slots.modify i f) (backs : w.Backs lease) : v.Backs lease := by
  obtain ⟨resident,slot,at_,value⟩ := backs
  have at' : v.slots[lease.slot]? = some (if i = lease.slot then f slot else slot) := by
    rw [modified, getElem?_modify, at_]
    rfl
  refine ⟨sameCache ▸ resident,_,at',?_⟩
  split
  · exact (keeps slot).trans value
  · exact value

theorem new_sound (capacity : Nat) (positive : 0 < capacity) (ttl lastInstant : Nat) :
    Sound (World.new capacity positive ttl lastInstant : World κ ν) :=
  ⟨nofun,nofun,nofun,nofun⟩

section
variable {before after : List (CacheLease κ ν)} {lease : CacheLease κ ν}

theorem release_sound (sound : Sound w) (outstanding : w.leases = before ++ lease :: after)
    (held : lease.released = false) :
    Sound { w with
      slots := w.slots.modify lease.slot LeaseSlot.release
      leases := before ++ { lease with released := true } :: after } where
  strong := by
    refine counts_perm (counts_modify_same sound.strong fun _ => rfl) ?_
    simp [World.holders, World.residents, outstanding]
  leases := by
    refine counts_modify sound.leases (fun slot counted => ?_) (fun a other => ?_)
    · simp only [World.outstanding, outstanding, filter_append, filter_cons, held, map_append,
        count_append, map_cons, count_cons_self, Bool.not_false, if_true] at counted
      simp [World.outstanding, LeaseSlot.release, counted]
    · simp [World.outstanding, outstanding, held, Ne.symm other]
  allocated := by
    have allocated := sound.allocated
    simpa [World.holders, World.residents, outstanding] using allocated
  backed := by
    intro other mem
    have backed := sound.backed
    rw [outstanding] at backed
    refine backs_modify (w := w) (f := LeaseSlot.release) (fun _ => rfl) rfl rfl ?_
    rcases mem_append.mp mem with old | last
    · exact backed other (mem_append_left _ old)
    · rcases mem_cons.mp last with rfl | old
      · exact backed lease (by simp)
      · exact backed other (by simp [old])

theorem free_sound (sound : Sound w) (outstanding : w.leases = before ++ lease :: after)
    (released : lease.released = true) :
    Sound { w with
      slots := w.slots.modify lease.slot LeaseSlot.dropArc
      leases := before ++ after } where
  strong := by
    refine counts_dropArc sound.strong ?_
    simp only [World.holders, World.residents, outstanding, map_append, map_cons]
    grind
  leases := by
    refine counts_perm (counts_modify_same sound.leases fun _ => rfl) ?_
    simp [World.outstanding, outstanding, released]
  allocated := by
    have allocated := sound.allocated
    simp only [World.holders, outstanding, mem_append, map_append, map_cons, mem_cons]
      at allocated
    grind [World.holders, World.residents]
  backed := by
    intro other mem
    refine backs_modify (w := w) (f := LeaseSlot.dropArc) (fun _ => rfl)
      rfl rfl (sound.backed other ?_)
    rw [outstanding]
    grind

theorem discard_sound {before after : List Nat} {slot : Nat} (sound : Sound w)
    (kept : w.retired = before ++ slot :: after) :
    Sound { w with
      slots := w.slots.modify slot LeaseSlot.dropArc
      retired := before ++ after } where
  strong := by
    refine counts_dropArc sound.strong ?_
    simp only [World.holders, World.residents, kept]
    grind
  leases := counts_modify_same sound.leases fun _ => rfl
  allocated := by
    have allocated := sound.allocated
    simp only [World.holders, kept, mem_append, mem_cons] at allocated
    grind [World.holders, World.residents]
  backed := fun other mem =>
    backs_modify (w := w) (f := LeaseSlot.dropArc) (fun _ => rfl)
      rfl rfl (sound.backed other mem)

theorem dropped_sound (dropped : Dropped w v) (sound : Sound w) : Sound v := by
  cases dropped with
  | release outstanding held => exact release_sound sound outstanding held
  | free outstanding released => exact free_sound sound outstanding released
  | discard kept => exact discard_sound sound kept

end

def soundness : Regime (Dropped : World κ ν → World κ ν → Prop) where
  invariant := Sound
  keeps := dropped_sound

section
variable {key : κ} {entry : CachedValue}

def World.Unheld (a : Nat) (w : World κ ν) : Prop := a ∉ w.leases.map (·.slot)

theorem residents_perm (here : w.cache.entries.peek key = some entry) :
    w.residents.Perm (entry.slot :: (w.erase key).residents) :=
  (Recency.entries_perm here).map _

theorem erase_backs (sound : Sound w) (here : w.cache.entries.peek key = some entry)
    (unheld : w.Unheld entry.slot) {lease : CacheLease κ ν} (mem : lease ∈ w.leases) :
    (w.erase key).Backs lease := by
  obtain ⟨⟨found,at_,slot⟩,bound⟩ := sound.backed lease mem
  have other : lease.key ≠ key := by
    rintro same
    rw [same, here] at at_
    cases at_
    exact unheld (mem_map.mpr ⟨lease,mem,slot.symm⟩)
  exact ⟨⟨found,(Store.peek_erase_of_ne other).trans at_,slot⟩,bound⟩

theorem evict_sound (sound : Sound w) (here : w.cache.entries.peek key = some entry)
    (unheld : w.Unheld entry.slot) : Sound (w.evict key).2 := by
  have evicted : (w.evict key).2 =
      { w.erase key with slots := w.slots.modify entry.slot LeaseSlot.dropArc } := by
    rw [World.evict, here]
  have gone := residents_perm here
  rw [evicted]
  refine ⟨?_,?_,?_,?_⟩
  · exact counts_dropArc sound.strong (gone.append_right _)
  · exact counts_modify_same sound.leases fun _ => rfl
  · intro a mem
    rw [length_modify]
    exact sound.allocated a ((gone.append_right _).mem_iff.mpr (mem_cons_of_mem _ mem))
  · exact fun lease mem => backs_modify (w := w.erase key) (f :=
      LeaseSlot.dropArc) (fun _ => rfl) rfl rfl
      (erase_backs sound here unheld mem)

theorem retire_sound (sound : Sound w) (here : w.cache.entries.peek key = some entry)
    (unheld : w.Unheld entry.slot) : Sound (w.retire key).2 := by
  have retired : (w.retire key).2 = { w.erase key with retired := entry.slot :: w.retired } := by
    rw [World.retire, here]
  have same : w.holders.Perm (w.retire key).2.holders := by
    refine ((residents_perm here).append_right _).trans ?_
    rw [retired]
    simp only [World.holders, World.residents, World.erase]
    grind
  refine ⟨?_,?_,?_,?_⟩
  · rw [retired] at same ⊢
    exact counts_perm sound.strong same
  · rw [retired]
    exact sound.leases
  · intro a mem
    rw [retired]
    exact sound.allocated a (same.mem_iff.mpr mem)
  · rw [retired]
    exact fun lease mem => erase_backs sound here unheld mem

theorem insertNew_sound (sound : Sound w) (absent : w.cache.entries.peek key = none)
    (room : w.cache.entries.isFull = false) (value : ν) (expiresAt : Nat) :
    Sound (w.insertNew key value expiresAt) := by
  have holders : (w.insertNew key value expiresAt).holders = w.slots.length :: w.holders := by
    have entries := AList.entries_insert_of_notMem (b := (⟨w.slots.length,expiresAt⟩ : CachedValue))
      (Store.not_mem_iff_peek.mpr absent)
    simp only [World.holders, World.residents, World.insertNew,
      Store.put_of_room (.inr room), Store.promote,
      entries, map_cons, cons_append]
  have fresh : w.slots.length ∉ w.holders :=
    fun mem => lt_irrefl _ (sound.allocated _ mem)
  have outstanding : w.slots.length ∉ w.outstanding := by
    refine fun mem => fresh (mem_append_right _ (mem_append_left _ ?_))
    exact (filter_sublist.map _).subset mem
  refine ⟨?_,?_,?_,?_⟩
  · rw [holders]
    refine counts_push sound.strong ?_ (fun a low => count_cons_of_ne (Nat.ne_of_gt low))
    rw [count_cons_self, count_eq_zero_of_not_mem fresh]
  · exact counts_push sound.leases (count_eq_zero_of_not_mem outstanding).symm fun _ _ => rfl
  · rw [holders]
    intro a mem
    have longer : (w.insertNew key value expiresAt).slots.length = w.slots.length + 1 :=
      length_append
    rcases mem_cons.mp mem with rfl | old
    · omega
    · have low := sound.allocated a old
      omega
  · intro lease mem
    obtain ⟨⟨found,at_,slot⟩,held,bound,same⟩ := sound.backed lease mem
    have other : lease.key ≠ key := by
      rintro same
      rw [same, absent] at at_
      cases at_
    refine ⟨⟨found,?_,slot⟩,held,?_,same⟩
    · exact (Store.peek_put room).trans ((if_neg other).trans at_)
    · exact (getElem?_append_left (List.getElem?_eq_some_iff.mp bound).1).trans bound

theorem takeLease_sound (sound : Sound w) (here : w.cache.entries.peek key = some entry) :
    Sound (w.takeLease key entry.slot).2 := by
  unfold World.takeLease
  split
  · exact sound
  rename_i slot at_
  split
  · refine ⟨?_,?_,?_,?_⟩
    · refine counts_modify sound.strong (fun s counted => ?_) (fun a other => ?_)
      · simp only [LeaseSlot.acquire, counted, World.holders,
          World.residents, map_cons, count_append,
          count_cons_self]
        omega
      · simp [World.holders, World.residents, count_append, Ne.symm other]
    · refine counts_modify sound.leases (fun s counted => ?_) (fun a other => ?_)
      · simp [LeaseSlot.acquire, counted, World.outstanding]
      · simp [World.outstanding, Ne.symm other]
    · intro a mem
      rw [length_modify]
      have low := (List.getElem?_eq_some_iff.mp at_).1
      have allocated := sound.allocated
      simp only [World.holders, World.residents, mem_append, map_cons, mem_cons] at mem allocated
      grind
    · intro lease mem
      refine backs_modify (w := w) (f := LeaseSlot.acquire) (fun _ => rfl) rfl rfl ?_
      rcases mem_cons.mp mem with rfl | old
      · exact ⟨⟨entry,here,rfl⟩,slot,at_,rfl⟩
      · exact sound.backed lease old
  · exact sound

theorem update_peek (here : w.cache.entries.peek key = some entry) (expiresAt : Nat) :
    (w.refresh key expiresAt).cache.entries.resident =
      w.cache.entries.resident.insert key { entry with expiresAt } := by
  rw [World.refresh, Store.update_of_peek here]
  rfl

theorem refresh_sound (sound : Sound w) (here : w.cache.entries.peek key = some entry)
    (expiresAt : Nat) :
    Sound (w.refresh key expiresAt) := by
  have resident := update_peek here expiresAt
  have same : w.holders.Perm (w.refresh key expiresAt).holders := by
    refine List.Perm.append_right _ ((residents_perm here).trans (.of_eq ?_))
    rw [World.residents, World.residents, resident, AList.entries_insert]
    rfl
  refine ⟨counts_perm sound.strong same,sound.leases,fun a mem =>
    sound.allocated a (same.mem_iff.mpr mem),?_⟩
  intro lease mem
  obtain ⟨⟨found,at_,slot⟩,bound⟩ := sound.backed lease mem
  refine ⟨?_,bound⟩
  rw [Store.peek, resident]
  by_cases same : lease.key = key
  · rw [same, here] at at_
    cases at_
    rw [same]
    exact ⟨_,AList.lookup_insert _,slot⟩
  · exact ⟨found,(AList.lookup_insert_ne same).trans at_,slot⟩

end

def World.Leased (w : World κ ν) (key : κ) : Prop := ∃ lease ∈ w.leases, lease.key = key

/-- Entries and leases may have gone; nothing is new and nothing has changed. -/
structure Onward (w v : World κ ν) : Prop where
  ttl : v.cache.ttl = w.cache.ttl
  entries : ∀ {key entry}, v.cache.entries.peek key = some entry →
    w.cache.entries.peek key = some entry
  leases : ∀ {key}, v.Leased key → w.Leased key

/-- The entries that are left stand in the order they had. -/
structure Recedes (w v : World κ ν) : Prop extends Onward w v where
  capacity : v.cache.entries.capacity = w.cache.entries.capacity
  order : v.cache.entries.oldestFirst.Sublist w.cache.entries.oldestFirst

omit [DecidableEq κ] in
theorem dropped_cache (dropped : Dropped w v) : v.cache = w.cache := by
  cases dropped <;> rfl

omit [DecidableEq κ] in
theorem dropped_unheld {a : Nat} (dropped : Dropped w v) (unheld : w.Unheld a) : v.Unheld a := by
  cases dropped with
  | release outstanding held =>
    rw [World.Unheld, outstanding] at unheld
    simpa [World.Unheld] using unheld
  | free outstanding released =>
    rw [World.Unheld, outstanding] at unheld
    exact fun mem => unheld (by grind)
  | discard kept => exact unheld

theorem onward_refl (w : World κ ν) : Onward w w := ⟨rfl,id,id⟩

theorem onward_trans (first : Onward w v) (second : Onward v u) : Onward w u :=
  ⟨second.ttl.trans first.ttl,first.entries ∘ second.entries,first.leases ∘ second.leases⟩

theorem dropped_onward (dropped : Dropped w v) : Onward w v := by
  have cache := dropped_cache dropped
  refine ⟨by rw [cache],by rw [cache]; exact id,?_⟩
  rintro key ⟨lease,mem,rfl⟩
  cases dropped with
  | @release before after gone outstanding held =>
    rw [World.Leased, outstanding]
    rcases mem_append.mp mem with old | last
    · exact ⟨lease,mem_append_left _ old,rfl⟩
    · rcases mem_cons.mp last with rfl | old
      · exact ⟨gone,by simp,rfl⟩
      · exact ⟨lease,by simp [old],rfl⟩
  | @free before after gone outstanding released =>
    rw [World.Leased, outstanding]
    exact ⟨lease,by grind,rfl⟩
  | discard kept => exact ⟨lease,mem,rfl⟩

theorem recedes_refl (w : World κ ν) : Recedes w w := ⟨onward_refl w,rfl,Sublist.refl _⟩

theorem recedes_trans (first : Recedes w v) (second : Recedes v u) : Recedes w u :=
  ⟨onward_trans first.toOnward second.toOnward,second.capacity.trans first.capacity,
    second.order.trans first.order⟩

theorem dropped_recedes (dropped : Dropped w v) : Recedes w v := by
  have cache := dropped_cache dropped
  exact ⟨dropped_onward dropped,by rw [cache],by rw [cache]⟩

theorem drops_recedes (drops : ReflTransGen Dropped w v) : Recedes w v := by
  induction drops with
  | refl => exact recedes_refl w
  | tail _ step ih => exact recedes_trans ih (dropped_recedes step)

omit [DecidableEq κ] in
theorem drops_cache (drops : ReflTransGen Dropped w v) : v.cache = w.cache := by
  induction drops with
  | refl => rfl
  | tail _ step ih => exact (dropped_cache step).trans ih

omit [DecidableEq κ] in
theorem takeLease_cache (key : κ) (slot : Nat) : (w.takeLease key slot).2.cache = w.cache := by
  unfold World.takeLease
  split
  · rfl
  · split <;> rfl

theorem erase_entries (gone : κ) {other : κ} {found : CachedValue}
    (here : (w.erase gone).cache.entries.peek other = some found) :
    w.cache.entries.peek other = some found := by
  rw [World.erase, Store.peek_erase] at here
  split at here
  · cases here
  · exact here

theorem evict_recedes (key : κ) (w : World κ ν) : Recedes w (w.evict key).2 := by
  unfold World.evict
  split
  · exact recedes_refl w
  · exact ⟨⟨rfl,erase_entries key,id⟩,rfl,Store.oldestFirst_erase_sublist key⟩

theorem retire_recedes (key : κ) (w : World κ ν) : Recedes w (w.retire key).2 := by
  unfold World.retire
  split
  · exact recedes_refl w
  · exact ⟨⟨rfl,erase_entries key,id⟩,rfl,Store.oldestFirst_erase_sublist key⟩

omit [DecidableEq κ] in
theorem drops_unheld (drops : ReflTransGen Dropped w v) {slot : Nat} (unheld : w.Unheld slot) :
    v.Unheld slot := by
  induction drops with
  | refl => exact unheld
  | tail _ step ih => exact dropped_unheld step ih

section
variable {s : World κ ν} {key : κ} {entry : CachedValue} {now expiresAt : Nat} {value : ν}

/-- What makes an entry look leased. -/
def World.External (w : World κ ν) (slot : Nat) : Prop :=
  w.isLeased slot = true ∨ w.strongCount slot ≠ 1

/-- Some lease was seen on the slot after `s`, with nothing but drops in between. -/
def Seen (s : World κ ν) (slot : Nat) : Prop := ∃ w, ReflTransGen Dropped s w ∧ w.External slot

theorem unheld_of_strongCount (sound : Sound w) (here : w.cache.entries.peek key = some entry)
    (alone : w.strongCount entry.slot = 1) : w.Unheld entry.slot := by
  have gone := (residents_perm here).append_right (w.leases.map (·.slot) ++ w.retired)
  have allocated := sound.allocated entry.slot (gone.mem_iff.mpr mem_cons_self)
  have counted := sound.strong entry.slot _ (getElem?_eq_getElem allocated)
  rw [World.strongCount, getElem?_eq_getElem allocated] at alone
  have total : w.holders.count entry.slot = _ := gone.count_eq entry.slot
  rw [cons_append, count_cons_self, count_append, count_append] at total
  simp only [Option.map_some, Option.getD_some] at alone
  exact count_eq_zero.mp (by omega)

theorem stable_drops : soundness.Stable (ReflTransGen Dropped s) :=
  fun _ _ _ dropped before => before.tail dropped

theorem readCache_sees : soundness.Triple (ReflTransGen Dropped s) (observe World.cache)
    (fun cache w => cache = s.cache ∧ ReflTransGen Dropped s w) :=
  Regime.triple_observe stable_drops fun _ _ drops => ⟨drops_cache drops,drops⟩

theorem hasExternalLease_sees : soundness.Triple (ReflTransGen Dropped s) (hasExternalLease entry)
    (fun leased w => ReflTransGen Dropped s w ∧ (leased = true → Seen s entry.slot) ∧
      (leased = false → w.strongCount entry.slot = 1)) := by
  have loaded : soundness.Triple (ReflTransGen Dropped s) (observe (World.isLeased entry.slot))
      (fun leased w => ReflTransGen Dropped s w ∧ (leased = true → Seen s entry.slot)) :=
    Regime.triple_observe stable_drops fun w _ drops =>
      ⟨drops,fun leased => ⟨w,drops,.inl leased⟩⟩
  refine Regime.triple_bind loaded fun leased => ?_
  cases leased with
  | true => exact Regime.triple_pure fun _ _ seen => ⟨seen.1,seen.2,nofun⟩
  | false =>
    refine Regime.triple_strengthen (fun _ _ seen => seen.1) ?_
    refine Regime.triple_observe stable_drops fun w _ drops =>
      ⟨drops,fun shared => ?_,fun alone => ?_⟩
    · exact ⟨w,drops,.inr (by simpa using shared)⟩
    · simpa using alone

theorem expiredAndUnleased_sees :
    soundness.Triple (ReflTransGen Dropped s) (expiredAndUnleased entry now)
    (fun expired w => ReflTransGen Dropped s w ∧
      (expired = false → now < entry.expiresAt ∨ Seen s entry.slot) ∧
      (expired = true → entry.expiresAt ≤ now ∧ w.strongCount entry.slot = 1)) := by
  unfold expiredAndUnleased
  split
  · rename_i dead
    refine Regime.triple_bind hasExternalLease_sees fun leased => ?_
    refine Regime.triple_pure fun _ _ seen =>
      ⟨seen.1,fun live => .inr (seen.2.1 ?_),fun free => ⟨dead,seen.2.2 ?_⟩⟩
    · simpa using live
    · simpa using free
  · rename_i live
    exact Regime.triple_pure fun _ _ drops => ⟨drops,fun _ => .inl (Nat.lt_of_not_le live),nofun⟩

/-- A scan for a victim passes over what it sees leased. -/
def Chosen (s : World κ ν) (list : List (Sigma fun _ : κ => CachedValue)) (victim : Option κ)
    (w : World κ ν) : Prop :=
  (victim = none ∧ ∀ found ∈ list, Seen s found.2.slot) ∨
  ∃ before key entry after, victim = some key ∧ list = before ++ ⟨key,entry⟩ :: after ∧
    (∀ found ∈ before, Seen s found.2.slot) ∧ w.strongCount entry.slot = 1

omit [DecidableEq κ] in
theorem chosen_cons {found : Sigma fun _ : κ => CachedValue}
    {list : List (Sigma fun _ : κ => CachedValue)} {victim : Option κ} (seen : Seen s found.2.slot)
    (chosen : Chosen s list victim w) :
    Chosen s (found :: list) victim w := by
  rcases chosen with ⟨none,busy⟩ | ⟨before,key,entry,after,some,split,busy,alone⟩
  · exact .inl ⟨none,forall_mem_cons.mpr ⟨seen,busy⟩⟩
  · refine .inr ⟨found :: before,key,entry,after,some,?_,forall_mem_cons.mpr ⟨seen,busy⟩,alone⟩
    rw [split]
    rfl

theorem findUnleased_sees (list : List (Sigma fun _ : κ => CachedValue)) :
    soundness.Triple (ReflTransGen Dropped s) (findUnleased list)
      (fun victim w => ReflTransGen Dropped s w ∧ Chosen s list victim w) := by
  induction list with
  | nil => exact Regime.triple_pure fun _ _ drops => ⟨drops,.inl ⟨rfl,nofun⟩⟩
  | cons found rest ih =>
    refine Regime.triple_bind hasExternalLease_sees fun leased => ?_
    cases leased with
    | true =>
      intro w sound looked
      obtain ⟨drops,seen,_⟩ := looked
      refine Regime.safe_mono (fun victim v scanned => ?_) (ih w sound drops)
      exact ⟨scanned.1,chosen_cons (seen rfl) scanned.2⟩
    | false =>
      refine Regime.triple_pure fun w _ looked => ⟨looked.1,.inr ?_⟩
      exact ⟨[],found.1,found.2,rest,rfl,rfl,nofun,looked.2.2 rfl⟩

/-- Nothing but drops since a state that `origin` allows. -/
def Since (origin : World κ ν → Prop) (w : World κ ν) : Prop :=
  ∃ t, origin t ∧ ReflTransGen Dropped t w

theorem stable_since {origin : World κ ν → Prop} : soundness.Stable (Since origin) := by
  intro w v _ dropped since
  obtain ⟨t,allowed,drops⟩ := since
  exact ⟨t,allowed,drops.tail dropped⟩

/-- An entry that was seen free is still free when it is taken out. -/
theorem removes {α : Type} {run : World κ ν → α × World κ ν}
    (here : s.cache.entries.peek key = some entry)
    (keeps : ∀ {u}, Sound u → u.cache.entries.peek key = some entry →
      u.Unheld entry.slot → Sound (run u).2) :
    soundness.Triple (fun w => ReflTransGen Dropped s w ∧ w.strongCount entry.slot = 1)
      (transact run)
      (fun a w => ∃ t u, ReflTransGen Dropped s t ∧ t.strongCount entry.slot = 1 ∧
        ReflTransGen Dropped t u ∧ a = (run u).1 ∧ w = (run u).2) := by
  have removed : soundness.Triple
      (Since fun t => Sound t ∧ ReflTransGen Dropped s t ∧ t.strongCount entry.slot = 1)
        (transact run)
      (fun a w => ∃ t u, ReflTransGen Dropped s t ∧ t.strongCount entry.slot = 1 ∧
        ReflTransGen Dropped t u ∧ a = (run u).1 ∧ w = (run u).2) := by
    refine Regime.triple_transact stable_since fun u sound since => ?_
    obtain ⟨t,⟨before,looked,free⟩,waited⟩ := since
    have there : t.cache.entries.peek key = some entry := by rwa [drops_cache looked]
    refine ⟨keeps sound ?_ ?_,t,u,looked,free,waited,rfl,rfl⟩
    · rwa [drops_cache waited]
    · exact drops_unheld waited (unheld_of_strongCount before there free)
  exact Regime.triple_strengthen (fun w sound looked => ⟨w,⟨sound,looked⟩,.refl⟩) removed

/-- What `acquire_at` and `touch_at` share: an expired entry without lease is
    dropped, any other goes on to `rest`. -/
theorem expiry_does {α : Type} {a : α} {rest : Prog (World κ ν) α} {post : α → World κ ν → Prop}
    (here : s.cache.entries.peek key = some entry) (gone : ∀ w, Recedes s w → post a w)
    (goesOn : now < entry.expiresAt ∨ Seen s entry.slot →
      soundness.Triple (ReflTransGen Dropped s) rest post) :
    soundness.Triple (ReflTransGen Dropped s)
      (do if ← expiredAndUnleased entry now then
            let _ ← transact (World.evict key)
            pure a
          else rest) post := by
  refine Regime.triple_bind expiredAndUnleased_sees fun expired => ?_
  intro w sound seen
  obtain ⟨drops,live,free⟩ := seen
  cases expired with
  | true =>
    refine Regime.triple_bind (removes here evict_sound) (fun _ => ?_) w sound ⟨drops,(free rfl).2⟩
    refine Regime.triple_pure fun x _ evicted => gone x ?_
    obtain ⟨t,u,looked,_,waited,_,rfl⟩ := evicted
    exact recedes_trans (drops_recedes (looked.trans waited)) (evict_recedes key u)
  | false => exact goesOn (live rfl) w sound drops

omit [DecidableEq κ] in
theorem expiryAt_eq {cache : LeaseAwareTtlCache κ}
    (fits : cache.expiryAt now = some expiresAt) : expiresAt = now + cache.ttl := by
  unfold LeaseAwareTtlCache.expiryAt at fits
  split at fits
  · exact (Option.some.inj fits).symm
  · cases fits

theorem acquireAt_does : soundness.Triple (ReflTransGen Dropped s) (acquireAt key now)
    (fun leased w => leased = false ∧ Recedes s w ∨
      leased = true ∧ ∃ entry u, s.cache.entries.peek key = some entry ∧
        (now < entry.expiresAt ∨ Seen s entry.slot) ∧ ReflTransGen Dropped s u ∧
        w = (u.takeLease key entry.slot).2) := by
  refine Regime.triple_bind readCache_sees fun cache => ?_
  split
  · exact Regime.triple_pure fun _ _ read => .inl ⟨rfl,drops_recedes read.2⟩
  rename_i entry here
  intro w sound read
  obtain ⟨rfl,drops⟩ := read
  refine expiry_does here (fun _ gone => .inl ⟨rfl,gone⟩) (fun live => ?_) w sound drops
  refine Regime.triple_transact stable_drops fun u sound quiet => ?_
  refine ⟨takeLease_sound sound (by rwa [drops_cache quiet]),?_⟩
  cases taken : (u.takeLease key entry.slot).1 with
  | true => exact .inr ⟨rfl,entry,u,here,live,quiet,rfl⟩
  | false =>
    refine .inl ⟨rfl,?_⟩
    have same : (u.takeLease key entry.slot).2 = u := by
      unfold World.takeLease at taken ⊢
      split
      · rfl
      · split <;> simp_all
    rw [same]
    exact drops_recedes quiet

theorem touchAt_does : soundness.Triple (ReflTransGen Dropped s) (touchAt key now)
    (fun result w => result ≠ .ok true ∧ Recedes s w ∨ result = .ok true ∧ ∃ entry u,
      s.cache.entries.peek key = some entry ∧ (now < entry.expiresAt ∨ Seen s entry.slot) ∧
        ReflTransGen Dropped s u ∧ w = u.refresh key (now + s.cache.ttl)) := by
  refine Regime.triple_bind readCache_sees fun cache => ?_
  split
  · exact Regime.triple_pure fun _ _ read => .inl ⟨by simp,drops_recedes read.2⟩
  rename_i entry here
  intro w sound read
  obtain ⟨rfl,drops⟩ := read
  refine expiry_does here (fun _ gone => .inl ⟨by simp,gone⟩) (fun live => ?_) w sound drops
  split
  · exact Regime.triple_pure fun _ _ drops => .inl ⟨by simp,drops_recedes drops⟩
  · rename_i expiresAt fits
    obtain rfl := expiryAt_eq fits
    have moves : soundness.Triple (ReflTransGen Dropped s)
        (change (World.refresh key (now + s.cache.ttl)))
        (fun _ w => ∃ u, ReflTransGen Dropped s u ∧ w = u.refresh key (now + s.cache.ttl)) :=
      Regime.triple_transact stable_drops fun u sound quiet =>
        ⟨refresh_sound sound (by rwa [drops_cache quiet]) _,u,quiet,rfl⟩
    refine Regime.triple_bind moves fun _ => Regime.triple_pure fun x _ refreshed => ?_
    obtain ⟨u,quiet,rfl⟩ := refreshed
    exact .inr ⟨rfl,entry,u,here,live,quiet,rfl⟩

/-- The ways an insertion can go, from the moment the mutex is locked in `s`. -/
inductive Inserted (key : κ) (value : ν) (now : Nat) (s : World κ ν) :
    Outcome InsertError InsertOutcome → World κ ν → Prop where
  | duplicate {w : World κ ν} (here : (s.cache.entries.peek key).isSome = true)
      (drops : ReflTransGen Dropped s w) :
        Inserted key value now s (.error (.error .duplicateKey)) w
  | unfit {w : World κ ν} (late : s.cache.expiryAt now = none) (drops : ReflTransGen Dropped s w) :
      Inserted key value now s (.error .panicked) w
  | refused {w : World κ ν} (full : s.cache.entries.isFull = true)
      (busy : ∀ found ∈ s.cache.entries.oldestFirst, Seen s found.2.slot)
      (drops : ReflTransGen Dropped s w) :
      Inserted key value now s (.error (.error .allEntriesLeased)) w
  | added {u : World κ ν} (absent : s.cache.entries.peek key = none)
      (room : s.cache.entries.isFull = false) (drops : ReflTransGen Dropped s u) :
      Inserted key value now s (.ok .inserted) (u.insertNew key value (now + s.cache.ttl))
  | replaced {t u v : World κ ν} {before after : List (Sigma fun _ : κ => CachedValue)} {victim : κ}
      {entry : CachedValue} (absent : s.cache.entries.peek key = none)
      (full : s.cache.entries.isFull = true)
      (split : s.cache.entries.oldestFirst = before ++ ⟨victim,entry⟩ :: after)
      (busy : ∀ found ∈ before, Seen s found.2.slot) (looked : ReflTransGen Dropped s t)
      (free : t.strongCount entry.slot = 1) (waited : ReflTransGen Dropped t u)
      (drops : ReflTransGen Dropped (u.evict victim).2 v) :
      Inserted key value now s
        (.ok (if entry.expiresAt ≤ now then .reclaimedExpired else .evictedLeastRecentlyUsed))
        (v.insertNew key value (now + s.cache.ttl))

theorem insertNew_does (absent : s.cache.entries.peek key = none)
    (room : s.cache.entries.isFull = false) :
    soundness.Triple (ReflTransGen Dropped s) (change (World.insertNew key value expiresAt))
      (fun _ w => ∃ u, ReflTransGen Dropped s u ∧ w = u.insertNew key value expiresAt) := by
  refine Regime.triple_transact stable_drops fun u sound drops =>
    ⟨insertNew_sound sound ?_ ?_ _ _,u,drops,rfl⟩
  · rwa [drops_cache drops]
  · rwa [drops_cache drops]

theorem insertEvictingAt_does :
    soundness.Triple (ReflTransGen Dropped s) (insertEvictingAt key value now)
      (Inserted key value now s) := by
  refine Regime.triple_bind readCache_sees fun cache => ?_
  intro w sound read
  obtain ⟨rfl,drops⟩ := read
  suffices soundness.Triple (ReflTransGen Dropped s) _ _ from this w sound drops
  split
  · rename_i here
    exact Regime.triple_pure fun _ _ quiet => .duplicate here quiet
  rename_i free
  have absent : s.cache.entries.peek key = none := by simpa using free
  split
  · rename_i late
    exact Regime.triple_pure fun _ _ quiet => .unfit late quiet
  rename_i expiresAt fits
  obtain rfl := expiryAt_eq fits
  split
  · rename_i full
    refine Regime.triple_bind (findUnleased_sees _) fun victim => ?_
    intro u sound scanned
    obtain ⟨quiet,chosen⟩ := scanned
    rcases chosen with ⟨rfl,busy⟩ | ⟨before,victim,entry,after,rfl,split,busy,alone⟩
    · exact ⟨sound,.refused full busy quiet⟩
    have here : s.cache.entries.peek victim = some entry := by
      refine Store.peek_iff_mem.mpr ?_
      rw [split]
      exact mem_append_right _ mem_cons_self
    refine Regime.triple_bind (removes here evict_sound) (fun evicted => ?_) u sound ⟨quiet,alone⟩
    intro x sound evicted
    obtain ⟨t,u,looked,free,waited,rfl,rfl⟩ := evicted
    have cache := drops_cache (looked.trans waited)
    have entries : (u.evict victim).2.cache.entries = s.cache.entries.erase victim := by
      rw [World.evict, cache, here, World.erase, cache]
    have gone : (u.evict victim).2.cache.entries.peek key = none := by
      rw [entries, Store.peek_erase]
      split
      · rfl
      · exact absent
    have room : (u.evict victim).2.cache.entries.isFull = false := by
      rw [entries]
      exact Store.isFull_erase (Store.mem_iff_peek.mpr (Option.isSome_of_mem here))
    have evicted : (u.evict victim).1 = some entry := by rw [World.evict, cache, here]
    rw [evicted]
    refine Regime.triple_bind (insertNew_does gone room) (fun _ => Regime.triple_pure ?_)
      _ sound .refl
    intro w _ inserted
    obtain ⟨v,drops,rfl⟩ := inserted
    exact .replaced absent full split busy looked free waited drops
  · rename_i notFull
    have room : s.cache.entries.isFull = false := by simpa using notFull
    refine Regime.triple_bind (insertNew_does absent room) fun _ =>
      Regime.triple_pure fun v _ inserted => ?_
    obtain ⟨u,quiet,rfl⟩ := inserted
    exact .added absent room quiet

omit [DecidableEq κ] in
theorem hasExternalLease_confined (rel : World κ ν → World κ ν → Prop) (entry : CachedValue) :
    (hasExternalLease entry : Prog (World κ ν) Bool).Confined rel := by
  refine confined_bind.mpr ⟨confined_transact fun _ => .inl rfl,fun leased _ => ?_⟩
  cases leased with
  | true => trivial
  | false => exact confined_transact fun _ => .inl rfl

omit [DecidableEq κ] in
theorem expiredUnleasedKeysAt_confined (now : Nat) (rel : World κ ν → World κ ν → Prop) :
    (expiredUnleasedKeysAt now : Prog (World κ ν) (List κ)).Confined rel := by
  have scans : ∀ list, (collectExpired now list : Prog (World κ ν) (List κ)).Confined rel := by
    intro list
    induction list with
    | nil => trivial
    | cons found rest ih =>
      unfold collectExpired
      split
      · trivial
      · exact confined_bind.mpr ⟨hasExternalLease_confined rel _,fun _ _ =>
          confined_bind.mpr ⟨ih,fun _ _ => trivial⟩⟩
  exact confined_bind.mpr ⟨confined_transact fun _ => .inl rfl,fun _ _ => scans _⟩

theorem retireExpiredCandidatesAt_keeps (now : Nat) (keys : List κ) :
    soundness.Keeps (retireExpiredCandidatesAt now keys : Prog (World κ ν) _) := by
  induction keys with
  | nil => exact Regime.triple_pure fun _ _ _ => trivial
  | cons key rest ih =>
    intro s sound _
    refine Regime.triple_bind readCache_sees (fun cache => ?_) s sound .refl
    intro w sound read
    obtain ⟨rfl,drops⟩ := read
    split
    · exact ih w sound trivial
    rename_i entry here
    refine Regime.triple_bind expiredAndUnleased_sees (fun expired => ?_) w sound drops
    intro v sound seen
    cases expired with
    | true =>
      refine Regime.triple_bind (removes here retire_sound) (fun slot => ?_)
        v sound ⟨seen.1,(seen.2.2 rfl).2⟩
      cases slot with
      | none => exact Regime.triple_pure fun _ _ _ => trivial
      | some slot => exact fun x sound _ => Regime.keeps_map ih x sound trivial
    | false => exact ih v sound trivial

theorem serve_keeps (request : Request κ ν) : soundness.Keeps (serve request) := by
  cases request with
  | insert key value now =>
    exact Regime.keeps_map fun w sound _ =>
      Regime.safe_mono (fun _ _ _ => trivial) (insertEvictingAt_does w sound .refl)
  | acquire key now =>
    exact Regime.keeps_map fun w sound _ =>
      Regime.safe_mono (fun _ _ _ => trivial) (acquireAt_does w sound .refl)
  | touch key now =>
    exact Regime.keeps_map fun w sound _ =>
      Regime.safe_mono (fun _ _ _ => trivial) (touchAt_does w sound .refl)
  | snapshot now =>
    exact Regime.keeps_map (Regime.keeps_of_confined (expiredUnleasedKeysAt_confined now _))
  | retire keys now => exact Regime.keeps_map (retireExpiredCandidatesAt_keeps now keys)

end

/-- As long as a lease is not dropped, its key is resident on the slot of the
    lease, with the value it was acquired for: in every state of every run, the
    middle of an insertion or of a maintenance batch included. -/
theorem leased_key_stays_resident {capacity : Nat} {positive : 0 < capacity} {ttl lastInstant : Nat}
    {c : Config (World κ ν) (Request κ ν) (Reply κ)}
    (run : Run sessions ⟨World.new capacity positive ttl lastInstant,none⟩ c)
    {lease : CacheLease κ ν} (outstanding : lease ∈ c.shared.leases) :
    (∃ entry, c.shared.cache.entries.peek lease.key = some entry ∧ entry.slot = lease.slot) ∧
      ∃ slot, c.shared.slots[lease.slot]? = some slot ∧ slot.value = lease.value := by
  have sound : Sound c.shared :=
    run_invariant (R := soundness) serve_keeps (new_sound capacity positive ttl lastInstant) run
  exact sound.backed lease outstanding

/-- A full cache of one leased session, long expired, while another client wants
    its place and the maintenance task its removal. -/
def pressed : World Nat Nat :=
  inTurn sessions [.insert 1 7 0,.acquire 1 5,.insert 2 8 20,.retire [1] 20]
    (World.new 1 Nat.one_pos 10 100)

theorem pressed_session_stays_resident :
    pressed.leases = [⟨0,1,7,false⟩] ∧
      (∃ entry, pressed.cache.entries.peek 1 = some entry ∧ entry.slot = 0) ∧
      ∃ slot, pressed.slots[0]? = some slot ∧ slot.value = 7 := by
  have held : pressed.leases = [⟨0,1,7,false⟩] := rfl
  have run : Run sessions ⟨World.new 1 Nat.one_pos 10 100,none⟩ ⟨pressed,none⟩ := run_inTurn _ _
  have outstanding : (⟨0,1,7,false⟩ : CacheLease Nat Nat) ∈ pressed.leases := by
    rw [held]
    exact mem_singleton_self _
  exact ⟨held,leased_key_stays_resident run outstanding⟩

end OpenSecret.LeaseAware

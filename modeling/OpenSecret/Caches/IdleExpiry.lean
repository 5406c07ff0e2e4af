import OpenSecret.Caches.LeaseSafety
import Mathlib.Data.List.Nodup

/-!
What one call under the session mutex does to the expiry times and the leases,
with leases being dropped meanwhile. Only a touch moves an expiry time, and a
lease on an expired session is granted only next to another one.
-/
namespace OpenSecret.LeaseAware
open List
open Interleaving (Prog observe transact confined_bind confined_transact)
open Locking
open Recency (Store)
open Relation (ReflTransGen)

variable {κ ν : Type} [DecidableEq κ] {w v u : World κ ν} {key : κ} {entry : CachedValue}

def World.Distinct (w : World κ ν) : Prop := (w.residents ++ w.retired).Nodup

theorem erase_residents (w : World κ ν) (key : κ) : (w.erase key).residents.Sublist w.residents :=
  (kerase_sublist key _).map _

theorem evict_distinct (key : κ) (distinct : w.Distinct) : (w.evict key).2.Distinct := by
  unfold World.evict
  split
  · exact distinct
  · exact ((erase_residents w key).append_right _).nodup distinct

theorem retire_distinct (key : κ) (distinct : w.Distinct) : (w.retire key).2.Distinct := by
  unfold World.retire
  split
  · exact distinct
  · rename_i entry here
    have moved :
      (w.residents ++ w.retired).Perm ((w.erase key).residents ++ (entry.slot :: w.retired)) :=
      ((residents_perm here).append_right _).trans perm_middle.symm
    exact moved.nodup distinct

theorem insertNew_distinct (key : κ) (value : ν) (expiresAt : Nat) (sound : Sound w)
    (distinct : w.Distinct) : (w.insertNew key value expiresAt).Distinct := by
  obtain ⟨rest,entries,sub⟩ := Store.entries_put w.cache.entries key ⟨w.slots.length,expiresAt⟩
  have residents : (w.insertNew key value expiresAt).residents =
      w.slots.length :: rest.map (·.2.slot) := by
    simp [World.residents, World.insertNew, entries]
  have owned : (rest.map (·.2.slot) ++ w.retired).Sublist (w.residents ++ w.retired) :=
    (sub.map _).append_right _
  rw [World.Distinct, residents, cons_append, nodup_cons]
  refine ⟨fun mem => ?_,owned.nodup distinct⟩
  refine lt_irrefl _ (sound.allocated w.slots.length ?_)
  have here := owned.subset mem
  simp only [World.holders, mem_append] at here ⊢
  tauto

omit [DecidableEq κ] in
theorem takeLease_distinct (key : κ) (slot : Nat) (distinct : w.Distinct) :
    (w.takeLease key slot).2.Distinct := by
  unfold World.takeLease
  split
  · exact distinct
  · split <;> exact distinct

theorem refresh_distinct (key : κ) (expiresAt : Nat) (distinct : w.Distinct) :
    (w.refresh key expiresAt).Distinct := by
  cases here : w.cache.entries.peek key with
  | none =>
    have absent : key ∉ w.cache.entries.resident := Store.not_mem_iff_peek.mpr here
    have same : w.refresh key expiresAt = w := by
      simp only [World.refresh, Store.update, dif_neg absent]
    rwa [same]
  | some entry =>
    have residents : w.residents.Perm (w.refresh key expiresAt).residents := by
      refine (residents_perm here).trans (.of_eq ?_)
      rw [World.residents, World.residents, update_peek here expiresAt, AList.entries_insert]
      rfl
    exact (residents.append_right _).nodup distinct

omit [DecidableEq κ] in
theorem dropped_distinct (dropped : Dropped w v) (distinct : w.Distinct) : v.Distinct := by
  cases dropped with
  | release => exact distinct
  | free => exact distinct
  | @discard before after slot kept =>
    rw [World.Distinct, kept] at distinct
    refine List.Sublist.nodup ?_ distinct
    exact ((sublist_cons_self slot after).append_left before).append_left _

section
variable {request : Request κ ν} {reply : Reply κ}

theorem entry_of_slot {other : κ} {found : CachedValue} (distinct : w.Distinct)
    (here : w.cache.entries.peek key = some entry) (there : w.cache.entries.peek other = some found)
    (slot : found.slot = entry.slot) : other = key ∧ found = entry := by
  have nodup : w.residents.Nodup := distinct.of_append_left
  have one : (⟨other,found⟩ : Sigma fun _ : κ => CachedValue) = ⟨key,entry⟩ :=
    inj_on_of_nodup_map nodup (AList.mem_lookup_iff.mp there) (AList.mem_lookup_iff.mp here) slot
  cases one
  exact ⟨rfl,rfl⟩

theorem leased_of_slot (sound : Sound w) (distinct : w.Distinct)
    (here : w.cache.entries.peek key = some entry) (held : entry.slot ∈ w.leases.map (·.slot)) :
    w.Leased key := by
  obtain ⟨lease,mem,same⟩ := mem_map.mp held
  obtain ⟨⟨found,there,slot⟩,_⟩ := sound.backed lease mem
  exact ⟨lease,mem,(entry_of_slot distinct here there (slot.trans same)).1⟩

/-- Besides the entry itself only leases own the slot of an entry. -/
theorem leased_of_external (sound : Sound w) (distinct : w.Distinct)
    (here : w.cache.entries.peek key = some entry) (external : w.External entry.slot) :
    w.Leased key := by
  refine leased_of_slot sound distinct here ?_
  have resident : entry.slot ∈ w.residents := (residents_perm here).mem_iff.mpr mem_cons_self
  have allocated := sound.allocated entry.slot (mem_append_left _ resident)
  have at_ := getElem?_eq_getElem allocated
  rcases external with leased | shared
  · have counted := sound.leases entry.slot _ at_
    rw [World.isLeased, at_, Option.any_some] at leased
    have some : 0 < w.outstanding.count entry.slot := by
      rw [← counted]
      simpa [Nat.pos_iff_ne_zero] using leased
    exact (filter_sublist.map _).subset (count_pos_iff.mp some)
  · have counted := sound.strong entry.slot _ at_
    rw [World.strongCount, at_, Option.map_some, Option.getD_some] at shared
    have owned : w.residents.count entry.slot + w.retired.count entry.slot = 1 := by
      rw [← count_append]
      exact count_eq_one_of_mem distinct (mem_append_left _ resident)
    rw [World.holders, count_append, count_append] at counted
    exact count_pos_iff.mp (by omega)

omit [DecidableEq κ] in
theorem drops_distinct (drops : ReflTransGen Dropped w v) (distinct : w.Distinct) : v.Distinct := by
  induction drops with
  | refl => exact distinct
  | tail _ step ih => exact dropped_distinct step ih

theorem drops_sound (drops : ReflTransGen Dropped w v) (sound : Sound w) : Sound v := by
  induction drops with
  | refl => exact sound
  | tail _ step ih => exact dropped_sound step ih

/-- A lease that a call has seen was there when the call began. -/
theorem leased_of_seen (sound : Sound w) (distinct : w.Distinct)
    (here : w.cache.entries.peek key = some entry) (seen : Seen w entry.slot) : w.Leased key := by
  obtain ⟨v,drops,external⟩ := seen
  refine (drops_recedes drops).leases ?_
  exact leased_of_external (drops_sound drops sound) (drops_distinct drops distinct)
    (by rwa [drops_cache drops]) external

/-- What a call does: entries stay as they are, or are touched, or are new; a
    lease is new only if the session was live or leased. -/
structure Effect (request : Request κ ν) (reply : Reply κ) (w v : World κ ν) : Prop where
  ttl : v.cache.ttl = w.cache.ttl
  entries : ∀ {key entry}, v.cache.entries.peek key = some entry →
    w.cache.entries.peek key = some entry ∨
    (∃ now old, request = .touch key now ∧ reply = .touched (.ok true) ∧
      w.cache.entries.peek key = some old ∧ entry = ⟨old.slot,now + w.cache.ttl⟩) ∨
    (∃ value now, request = .insert key value now ∧ w.cache.entries.peek key = none ∧
      entry.expiresAt = now + w.cache.ttl)
  leases : ∀ {key}, v.Leased key → w.Leased key ∨
    ∃ now entry, request = .acquire key now ∧ w.cache.entries.peek key = some entry ∧
      now < entry.expiresAt
  acquired : ∀ {key now}, request = .acquire key now → reply = .acquired true →
    ∃ entry, w.cache.entries.peek key = some entry ∧ (now < entry.expiresAt ∨ w.Leased key)

theorem onward_effect (onward : Onward w v)
    (refused : ∀ {key now}, request = .acquire key now → reply ≠ .acquired true) :
    Effect request reply w v :=
  ⟨onward.ttl,fun here => .inl (onward.entries here),fun leased => .inl (onward.leases leased),
    fun asked granted => absurd granted (refused asked)⟩

variable {now : Nat} {rel : World κ ν → World κ ν → Prop}

theorem acquired_effect (sound : Sound w) (distinct : w.Distinct)
    (here : w.cache.entries.peek key = some entry)
    (granted : now < entry.expiresAt ∨ Seen w entry.slot) (drops : ReflTransGen Dropped w u) :
    Effect (.acquire key now) (.acquired true) w (u.takeLease key entry.slot).2 := by
  have allowed : now < entry.expiresAt ∨ w.Leased key :=
    granted.imp_right (leased_of_seen sound distinct here)
  have cache : (u.takeLease key entry.slot).2.cache = w.cache :=
    (takeLease_cache key entry.slot).trans (drops_cache drops)
  have taken : ∀ {other}, (u.takeLease key entry.slot).2.Leased other →
      u.Leased other ∨ other = key := by
    intro other leased
    unfold World.takeLease at leased
    split at leased
    · exact .inl leased
    · split at leased
      · obtain ⟨lease,mem,rfl⟩ := leased
        rcases mem_cons.mp mem with rfl | old
        · exact .inr rfl
        · exact .inl ⟨lease,old,rfl⟩
      · exact .inl leased
  refine ⟨by rw [cache],fun there => .inl (by rwa [cache] at there),fun leased =>
    ?_,fun asked _ => ?_⟩
  · rcases taken leased with old | rfl
    · exact .inl ((drops_recedes drops).leases old)
    · exact allowed.symm.imp_right fun live => ⟨now,entry,rfl,here,live⟩
  · cases asked
    exact ⟨entry,here,allowed⟩

theorem refreshed_effect (here : w.cache.entries.peek key = some entry)
    (drops : ReflTransGen Dropped w u) :
    Effect (.touch key now) (.touched (.ok true)) w (u.refresh key (now + w.cache.ttl)) := by
  have cache := drops_cache drops
  have onward := drops_recedes drops
  refine ⟨onward.ttl,fun {other found} there => ?_,fun leased =>
    .inl (onward.leases leased),nofun⟩
  have resident := update_peek (w := u) (by rwa [cache]) (now + w.cache.ttl)
  rw [Store.peek, resident] at there
  by_cases same : other = key
  · rw [same, AList.lookup_insert] at there
    rw [same]
    exact .inr (.inl ⟨now,entry,rfl,rfl,here,(Option.some.inj there).symm⟩)
  · rw [AList.lookup_insert_ne same] at there
    exact .inl (onward.entries there)

theorem inserted_effect {value : ν} (absent : w.cache.entries.peek key = none)
    (onward : Recedes w u) :
    Effect (.insert key value now) reply w (u.insertNew key value (now + w.cache.ttl)) := by
  refine ⟨onward.ttl,fun {other found} there => ?_,fun leased =>
    .inl (onward.leases leased),nofun⟩
  rcases Store.of_peek_put there with ⟨rfl,rfl⟩ | old
  · exact .inr (.inr ⟨value,now,rfl,absent,rfl⟩)
  · exact .inl (onward.entries old)

omit [DecidableEq κ] in
theorem expiredAndUnleased_confined (rel : World κ ν → World κ ν → Prop) (entry : CachedValue)
    (now : Nat) :
    (expiredAndUnleased entry now : Prog (World κ ν) Bool).Confined rel := by
  unfold expiredAndUnleased
  split
  · exact confined_bind.mpr ⟨hasExternalLease_confined rel entry,fun _ _ => trivial⟩
  · trivial

theorem retireExpiredCandidatesAt_confined (retires : ∀ key w, rel w (w.retire key).2) (now : Nat)
    (keys : List κ) :
    (retireExpiredCandidatesAt now keys : Prog (World κ ν) _).Confined rel := by
  induction keys with
  | nil => trivial
  | cons key rest ih =>
    refine confined_bind.mpr ⟨confined_transact fun _ => .inl rfl,fun cache _ => ?_⟩
    split
    · exact ih
    refine confined_bind.mpr ⟨expiredAndUnleased_confined rel _ now,fun expired _ => ?_⟩
    cases expired with
    | false => exact ih
    | true =>
      refine confined_bind.mpr ⟨confined_transact fun w => .inr (retires key w),fun slot _ => ?_⟩
      cases slot with
      | none => trivial
      | some slot => exact confined_bind.mpr ⟨ih,fun _ _ => trivial⟩

omit [DecidableEq κ] in
theorem findUnleased_confined (rel : World κ ν → World κ ν → Prop)
    (list : List (Sigma fun _ : κ => CachedValue)) :
    (findUnleased list : Prog (World κ ν) (Option κ)).Confined rel := by
  induction list with
  | nil => trivial
  | cons found rest ih =>
    refine confined_bind.mpr ⟨hasExternalLease_confined rel _,fun leased _ => ?_⟩
    cases leased with
    | true => exact ih
    | false => trivial

/-- The ways a call can go: entries and leases may have gone, or the call leases
    an entry, renews it or adds one. -/
inductive Served : Request κ ν → Reply κ → World κ ν → World κ ν → Prop where
  | receded {request : Request κ ν} {reply : Reply κ} {w v : World κ ν} (recedes : Recedes w v)
      (refused : ∀ {key now}, request = .acquire key now → reply ≠ .acquired true) :
      Served request reply w v
  | leased {w u : World κ ν} {key : κ} {now : Nat} {entry : CachedValue}
      (here : w.cache.entries.peek key = some entry)
      (granted : now < entry.expiresAt ∨ Seen w entry.slot) (drops : ReflTransGen Dropped w u) :
      Served (.acquire key now) (.acquired true) w (u.takeLease key entry.slot).2
  | renewed {w u : World κ ν} {key : κ} {now : Nat} {entry : CachedValue}
      (here : w.cache.entries.peek key = some entry) (drops : ReflTransGen Dropped w u) :
      Served (.touch key now) (.touched (.ok true)) w (u.refresh key (now + w.cache.ttl))
  | added {w u : World κ ν} {key : κ} {value : ν} {now : Nat} {reply : Reply κ}
      (absent : w.cache.entries.peek key = none) (recedes : Recedes w u) :
      Served (.insert key value now) reply w (u.insertNew key value (now + w.cache.ttl))

theorem served_of_triple (does : soundness.Triple (ReflTransGen Dropped w) (serve request)
    (fun reply v => Served request reply w v)) (sound : Sound w)
    (ran : Section Dropped (serve request) w reply v) : Served request reply w v :=
  (section_post (does w sound .refl) ran).2

theorem served_cases (sound : Sound w) (ran : Section Dropped (serve request) w reply v) :
    Served request reply w v := by
  cases request with
  | insert key value now =>
    refine served_of_triple ?_ sound ran
    refine Regime.triple_bind insertEvictingAt_does fun result =>
      Regime.triple_pure fun v _ did => ?_
    cases did with
    | duplicate _ drops => exact .receded (drops_recedes drops) nofun
    | unfit _ drops => exact .receded (drops_recedes drops) nofun
    | refused _ _ drops => exact .receded (drops_recedes drops) nofun
    | added absent _ drops => exact .added absent (drops_recedes drops)
    | @replaced t u v before after victim entry absent _ _ _ looked _ waited drops =>
      refine .added absent (recedes_trans (drops_recedes (looked.trans waited)) ?_)
      exact recedes_trans (evict_recedes victim u) (drops_recedes drops)
  | acquire key now =>
    refine served_of_triple ?_ sound ran
    refine Regime.triple_bind acquireAt_does fun leased => Regime.triple_pure fun v _ did => ?_
    rcases did with ⟨rfl,recedes⟩ | ⟨rfl,entry,u,here,granted,drops,rfl⟩
    · exact .receded recedes nofun
    · exact .leased here granted drops
  | touch key now =>
    refine served_of_triple ?_ sound ran
    refine Regime.triple_bind touchAt_does fun result => Regime.triple_pure fun v _ did => ?_
    rcases did with ⟨_,recedes⟩ | ⟨rfl,entry,u,here,_,drops,rfl⟩
    · exact .receded recedes nofun
    · exact .renewed here drops
  | snapshot now =>
    refine .receded (section_within recedes_refl recedes_trans dropped_recedes ?_ ran) nofun
    exact confined_bind.mpr ⟨expiredUnleasedKeysAt_confined now _,fun _ _ => trivial⟩
  | retire keys now =>
    refine .receded (section_within recedes_refl recedes_trans dropped_recedes ?_ ran) nofun
    exact confined_bind.mpr ⟨retireExpiredCandidatesAt_confined retire_recedes now keys,
      fun _ _ => trivial⟩

theorem insertEvictingAt_confined (evicts : ∀ key w, rel w (w.evict key).2)
    (inserts : ∀ key value expiresAt w, rel w (w.insertNew key value expiresAt)) (key : κ)
    (value : ν) (now : Nat) : (insertEvictingAt key value now).Confined rel := by
  refine confined_bind.mpr ⟨confined_transact fun _ => .inl rfl,fun cache _ => ?_⟩
  split
  · trivial
  split
  · trivial
  rename_i expiresAt _
  have adds : (change (World.insertNew key value expiresAt)).Confined rel :=
    confined_transact fun w => .inr (inserts key value expiresAt w)
  split
  · refine confined_bind.mpr ⟨findUnleased_confined rel _,fun victim _ => ?_⟩
    cases victim with
    | none => trivial
    | some evictionKey =>
      refine confined_bind.mpr ⟨confined_transact fun w =>
        .inr (evicts evictionKey w),fun evicted _ => ?_⟩
      cases evicted with
      | none => trivial
      | some old => exact confined_bind.mpr ⟨adds,fun _ _ => trivial⟩
  · exact confined_bind.mpr ⟨adds,fun _ _ => trivial⟩

structure Allows (rel : World κ ν → World κ ν → Prop) : Prop where
  evict : ∀ key w, rel w (w.evict key).2
  retire : ∀ key w, rel w (w.retire key).2
  insertNew : ∀ key value expiresAt w, rel w (w.insertNew key value expiresAt)
  takeLease : ∀ key slot w, rel w (w.takeLease key slot).2
  refresh : ∀ key expiresAt w, rel w (w.refresh key expiresAt)

theorem serve_confined (allows : Allows rel) (request : Request κ ν) :
    (serve request).Confined rel := by
  have reads : ∀ {α : Type} (view : World κ ν → α), (observe view).Confined rel :=
    fun _ => confined_transact fun _ => .inl rfl
  have changes : ∀ {f : World κ ν → World κ ν}, (∀ w, rel w (f w)) → (change f).Confined rel :=
    fun moves => confined_transact fun w => .inr (moves w)
  have evicts : ∀ key, (transact (World.evict key) : Prog (World κ ν) _).Confined rel :=
    fun key => confined_transact fun w => .inr (allows.evict key w)
  cases request with
  | insert key value now =>
    exact confined_bind.mpr ⟨insertEvictingAt_confined allows.evict allows.insertNew key value now,
      fun _ _ => trivial⟩
  | acquire key now =>
    refine confined_bind.mpr ⟨confined_bind.mpr ⟨reads _,fun cache _ => ?_⟩,fun _ _ => trivial⟩
    split
    · trivial
    refine confined_bind.mpr ⟨expiredAndUnleased_confined rel _ now,fun expired _ => ?_⟩
    cases expired with
    | true => exact confined_bind.mpr ⟨evicts key,fun _ _ => trivial⟩
    | false => exact confined_transact fun w => .inr (allows.takeLease key _ w)
  | touch key now =>
    refine confined_bind.mpr ⟨confined_bind.mpr ⟨reads _,fun cache _ => ?_⟩,fun _ _ => trivial⟩
    split
    · trivial
    refine confined_bind.mpr ⟨expiredAndUnleased_confined rel _ now,fun expired _ => ?_⟩
    cases expired with
    | true => exact confined_bind.mpr ⟨evicts key,fun _ _ => trivial⟩
    | false =>
      simp only [Bool.false_eq_true, if_false]
      split
      · trivial
      · exact confined_bind.mpr ⟨changes (allows.refresh key _),fun _ _ => trivial⟩
  | snapshot now =>
    exact confined_bind.mpr ⟨expiredUnleasedKeysAt_confined now _,fun _ _ => trivial⟩
  | retire keys now =>
    exact confined_bind.mpr ⟨retireExpiredCandidatesAt_confined allows.retire now keys,
      fun _ _ => trivial⟩

theorem served_sound (sound : Sound w) (ran : Section Dropped (serve request) w reply v) :
    Sound v :=
  (section_post (serve_keeps request w sound trivial) ran).1

theorem served_distinct (sound : Sound w) (distinct : w.Distinct)
    (ran : Section Dropped (serve request) w reply v) : v.Distinct := by
  have confined : (serve request).Confined fun w v : World κ ν => Sound w →
    w.Distinct → v.Distinct :=
    serve_confined
      ⟨fun key _ _ => evict_distinct key,fun key _ _ => retire_distinct key,
        fun key value expiresAt _ => insertNew_distinct key value expiresAt,
        fun key slot _ _ => takeLease_distinct key slot,
        fun key expiresAt _ _ => refresh_distinct key expiresAt⟩ request
  exact section_keeps (R := soundness) confined (fun _ _ _ => dropped_distinct) sound
    (serve_keeps request w sound trivial) ran distinct

theorem served_effect (sound : Sound w) (distinct : w.Distinct)
    (ran : Section Dropped (serve request) w reply v) : Effect request reply w v := by
  cases served_cases sound ran with
  | receded recedes refused => exact onward_effect recedes.toOnward refused
  | leased here granted drops => exact acquired_effect sound distinct here granted drops
  | renewed here drops => exact refreshed_effect here drops
  | added absent recedes => exact inserted_effect absent recedes

end

end OpenSecret.LeaseAware

import OpenSecret.Caches.ExpiryOrder

/-!
`secret_cache_maintenance.rs`: expired sessions are collected under one lock and
retired in batches under later ones, while requests go on. A batch looks at every
candidate again, so a stale list does no harm; and an expired session that nobody
holds cannot come back to life before its batch.
-/
namespace OpenSecret.LeaseAware
open List
open Interleaving (Prog observe transact confined_bind confined_transact)
open Locking
open Recency (Store)
open Relation (ReflTransGen)

def sessionRetirementBatchSize : Nat := 4096

/-- `slice::chunks`, for a positive size. -/
def chunks {α : Type} (size : Nat) : List α → List (List α)
  | [] => []
  | first :: rest => (first :: rest.take (size - 1)) :: chunks size (rest.drop (size - 1))
  termination_by list => list.length
  decreasing_by
    rw [length_drop, length_cons]
    omega

theorem chunks_flatten {α : Type} (size : Nat) (list : List α) :
    (chunks size list).flatten = list := by
  induction list using chunks.induct size with
  | case1 => rw [chunks, flatten_nil]
  | case2 first rest ih => rw [chunks, flatten_cons, ih, cons_append, take_append_drop]

variable {κ ν : Type} [DecidableEq κ] {w v u : World κ ν} {key : κ}
  {entry : CachedValue} {now : Nat}
  {request : Request κ ν} {reply : Reply κ}

/-- If the call reads the clock, it reads `now` or later. -/
def Request.After (now : Nat) (request : Request κ ν) : Prop := ∀ t, request.time = some t → now ≤ t

omit [DecidableEq κ] in
theorem retire_after (batch : List κ) (at_ : Nat) :
    (Request.retire batch at_ : Request κ ν).After now := by
  intro t never
  cases never

/-- The batches that are left of a purge. Between two of them the mutex is free;
    the calls made then read the clock after the purge did. The list is of the
    batches with the states in which they begin. -/
inductive Batches (now : Nat) : List (List κ) → World κ ν → List (List κ × World κ ν) →
    World κ ν → Prop where
  | done {w : World κ ν} : Batches now [] w [] w
  | batch {w u v x : World κ ν} {batch : List κ} {rest : List (List κ)} {reply : Reply κ}
      {begun : List (List κ × World κ ν)} {between : List (Request κ ν × Reply κ)}
      (meanwhile : History w between u) (later : ∀ call ∈ between, call.1.After now)
      (ran : Section Dropped (serve (.retire batch now)) u reply v)
        (goesOn : Batches now rest v begun x) :
      Batches now (batch :: rest) w ((batch,u) :: begun) x

/-- `purge_expired_secret_state` on the sessions, from the lock for the snapshot in
    `w` to the end of the last batch in `x`. -/
def PurgeExpired (now : Nat) (w : World κ ν) (begun : List (List κ × World κ ν)) (x : World κ ν) :
    Prop :=
  ∃ keys v, Section Dropped (serve (.snapshot now)) w (.snapshot keys) v ∧
    Batches now (chunks sessionRetirementBatchSize keys) v begun x

/-- A step after the snapshot in `w` takes away only what was there then, as it was
    then, and is expired and unleased now. -/
def Spares (now : Nat) (w : World κ ν) (t u : World κ ν) : Prop :=
  ∀ key entry, t.cache.entries.peek key = some entry → u.cache.entries.peek key = some entry ∨
    entry.expiresAt ≤ now ∧ ¬ t.Leased key ∧ w.cache.entries.peek key = some entry

def Retires (now : Nat) (t u : World κ ν) : Prop :=
  ∀ key entry, t.cache.entries.peek key = some entry → u.cache.entries.peek key = some entry ∨
    entry.expiresAt ≤ now ∧ ¬ t.Leased key

theorem retires_refl (now : Nat) (t : World κ ν) : Retires now t t := fun _ _ here => .inl here

theorem retire_retires (sound : Sound w) (here : w.cache.entries.peek key = some entry)
    (unheld : w.Unheld entry.slot) (expired : entry.expiresAt ≤ now) :
    Retires now w (w.retire key).2 := by
  intro other found there
  by_cases same : other = key
  · rw [same] at there ⊢
    obtain rfl : entry = found := Option.some.inj (here.symm.trans there)
    exact .inr ⟨expired,unleased_of_unheld sound here unheld⟩
  · left
    rw [World.retire, here]
    exact (Store.peek_erase_of_ne same).trans there

theorem retireExpiredCandidatesAt_retires (now : Nat) (keys : List κ) (sound : Sound w) :
    EachStep Dropped (Retires now) (retireExpiredCandidatesAt now keys) w := by
  induction keys generalizing w with
  | nil => trivial
  | cons key rest ih =>
    refine eachStep_bind (readCache_sees w sound .refl)
      (eachStep_of_confined (retires_refl now) (confined_transact fun _ => .inl rfl)) ?_
    intro cache t sound read
    obtain ⟨rfl,read⟩ := read
    split
    · exact ih sound
    rename_i entry here
    refine eachStep_bind (expiredAndUnleased_sees t sound read)
      (eachStep_of_confined (retires_refl now) (expiredAndUnleased_confined _ entry now)) ?_
    intro expired u sound seen
    cases expired with
    | false => exact ih sound
    | true =>
      obtain ⟨looked,_,seen⟩ := seen
      obtain ⟨dead,alone⟩ := seen rfl
      have there : u.cache.entries.peek key = some entry := by rwa [drops_cache looked]
      have unheld := unheld_of_strongCount sound there alone
      refine eachStep_bind (removes here retire_sound u sound ⟨looked,alone⟩) ?_ ?_
      · intro v drops
        refine ⟨retire_retires (drops_sound drops sound) ?_ (drops_unheld drops unheld)
          dead,trivial⟩
        rwa [drops_cache drops]
      · intro slot v sound _
        cases slot with
        | none => trivial
        | some slot =>
          exact eachStep_bind (retireExpiredCandidatesAt_keeps now rest v sound trivial) (ih sound)
            fun _ _ _ _ => trivial

theorem live_not_reclaimable (sound : Sound w) (distinct : w.Distinct)
    (here : w.cache.entries.peek key = some entry)
    (live : now < entry.expiresAt ∨ Seen w entry.slot) :
    ¬ w.Reclaimable now key := by
  intro due
  obtain ⟨found,there,expired,free⟩ := due
  obtain rfl : entry = found := Option.some.inj (here.symm.trans there)
  rcases live with early | seen
  · omega
  · exact free (leased_of_seen sound distinct here seen)

/-- From `w` to `v` nothing is added, and of the keys what could be reclaimed is
    gone. -/
structure Retired (now : Nat) (keys : List κ) (w v : World κ ν) : Prop where
  recedes : Recedes w v
  gone : ∀ key ∈ keys, w.Reclaimable now key → v.cache.entries.peek key = none

theorem recedes_absent (recedes : Recedes w v) (absent : w.cache.entries.peek key = none) :
    v.cache.entries.peek key = none := by
  cases here : v.cache.entries.peek key with
  | none => rfl
  | some entry =>
    have old := recedes.entries here
    rw [absent] at old
    cases old

theorem recedes_reclaimable (recedes : Recedes w v) (due : w.Reclaimable now key) :
    v.cache.entries.peek key = none ∨ v.Reclaimable now key := by
  obtain ⟨entry,here,expired,free⟩ := due
  cases there : v.cache.entries.peek key with
  | none => exact .inl rfl
  | some found =>
    obtain rfl : entry = found := Option.some.inj (here.symm.trans (recedes.entries there))
    exact .inr ⟨entry,there,expired,fun leased => free (recedes.leases leased)⟩

theorem retired_cons {rest : List κ} (recedes : Recedes w u)
    (first : w.Reclaimable now key → u.cache.entries.peek key = none)
    (retired : Retired now rest u v) :
    Retired now (key :: rest) w v := by
  refine ⟨recedes_trans recedes retired.recedes,?_⟩
  intro other mem due
  rcases mem_cons.mp mem with rfl | listed
  · exact recedes_absent retired.recedes (first due)
  · rcases recedes_reclaimable recedes due with gone | still
    · exact recedes_absent retired.recedes gone
    · exact retired.gone other listed still

theorem retire_absent (key : κ) (w : World κ ν) :
    (w.retire key).2.cache.entries.peek key = none := by
  unfold World.retire
  split
  · assumption
  · exact Store.peek_erase_same

theorem retireExpiredCandidatesAt_retired (now : Nat) (keys : List κ) (sound : Sound w)
    (distinct : w.Distinct) :
    soundness.Safe (fun _ => Retired now keys w) (retireExpiredCandidatesAt now keys) w := by
  induction keys generalizing w with
  | nil => exact ⟨sound,recedes_refl w,nofun⟩
  | cons key rest ih =>
    refine Regime.safe_bind (fun cache => ?_) (readCache_sees w sound .refl)
    intro t sound_t read
    obtain ⟨rfl,read⟩ := read
    split
    · rename_i absent
      refine Regime.safe_mono (fun _ v retired => ?_) (ih sound_t (drops_distinct read distinct))
      exact retired_cons (drops_recedes read) (fun _ => drops_cache read ▸ absent) retired
    rename_i entry here
    refine Regime.safe_bind (fun expired => ?_) (expiredAndUnleased_sees t sound_t read)
    intro u sound_u seen
    obtain ⟨looked,live,free⟩ := seen
    have distinct_u : u.Distinct := drops_distinct looked distinct
    have recedes := drops_recedes looked
    cases expired with
    | false =>
      refine Regime.safe_mono (fun _ v retired => ?_) (ih sound_u distinct_u)
      refine retired_cons recedes (fun due => absurd due ?_) retired
      exact live_not_reclaimable sound distinct here (live rfl)
    | true =>
      refine Regime.safe_bind (fun slot => ?_)
        (removes here retire_sound u sound_u ⟨looked,(free rfl).2⟩)
      intro x sound_x done
      obtain ⟨t,y,before,_,waited,rfl,rfl⟩ := done
      have drops := before.trans waited
      have taken : (y.retire key).1 = some entry.slot := by
        rw [World.retire, drops_cache drops, here]
      have distinct_x := retire_distinct key (drops_distinct drops distinct)
      rw [taken]
      refine Regime.safe_bind (fun _ => Regime.triple_pure fun v _ retired => ?_)
        (ih sound_x distinct_x)
      exact retired_cons (recedes_trans (drops_recedes drops) (retire_recedes key y))
        (fun _ => retire_absent key y) retired

section

def Grows (w v : World κ ν) : Prop := w.slots.length ≤ v.slots.length

omit [DecidableEq κ] in
theorem drops_slots (drops : ReflTransGen Dropped w v) : v.slots.length = w.slots.length := by
  induction drops with
  | refl => rfl
  | tail _ step ih =>
    rw [← ih]
    cases step <;> exact length_modify _ _ _

theorem evict_slots (key : κ) (w : World κ ν) : (w.evict key).2.slots.length = w.slots.length := by
  unfold World.evict
  split
  · rfl
  · exact length_modify _ _ _

theorem grows_allows : Allows (Grows : World κ ν → World κ ν → Prop) := by
  constructor
  · exact fun key w => le_of_eq (evict_slots key w).symm
  · intro key w
    unfold World.retire
    split <;> exact le_rfl
  · intro key value expiresAt w
    simp [Grows, World.insertNew]
  · intro key slot w
    unfold World.takeLease
    split
    · exact le_rfl
    · split
      · exact le_of_eq (length_modify _ _ _).symm
      · exact le_rfl
  · exact fun _ _ _ => le_rfl

theorem served_grows (ran : Section Dropped (serve request) w reply v) : Grows w v :=
  section_within (fun _ => le_rfl) le_trans
    (fun dropped => le_of_eq (drops_slots (.single dropped)).symm)
    (serve_confined grows_allows request) ran

variable {value : ν} {between : List (Request κ ν × Reply κ)}

theorem inserted_fresh {result : Outcome InsertError InsertOutcome} {found : CachedValue}
    (did : Inserted key value now w result v) (absent : w.cache.entries.peek key = none)
    (here : v.cache.entries.peek key = some found) : w.slots.length ≤ found.slot := by
  have unchanged : v.cache = w.cache → w.slots.length ≤ found.slot := by
    intro same
    rw [same, absent] at here
    cases here
  have stored : ∀ {x : World κ ν} {expiresAt : Nat}, v = x.insertNew key value expiresAt →
      x.slots.length = w.slots.length → w.slots.length ≤ found.slot := by
    intro x expiresAt made same
    rw [made, World.insertNew, Store.peek_put_same] at here
    cases here
    exact le_of_eq same.symm
  cases did with
  | duplicate _ drops => exact unchanged (drops_cache drops)
  | unfit _ drops => exact unchanged (drops_cache drops)
  | refused _ _ drops => exact unchanged (drops_cache drops)
  | added _ _ drops => exact stored rfl (drops_slots drops)
  | @replaced t u x _ _ victim _ _ _ _ _ looked _ waited drops =>
    have slots : x.slots.length = w.slots.length := by
      rw [drops_slots drops, evict_slots, drops_slots (looked.trans waited)]
    exact stored rfl slots

theorem served_inserted (sound : Sound w)
    (ran : Section Dropped (serve (.insert key value now)) w reply v) :
    ∃ result, Inserted key value now w result v := by
  have does : soundness.Triple (ReflTransGen Dropped w) (serve (.insert key value now))
      (fun _ v => ∃ result, Inserted key value now w result v) :=
    Regime.triple_bind insertEvictingAt_does fun result => Regime.triple_pure fun _ _ did =>
      ⟨result,did⟩
  exact (section_post (does w sound .refl) ran).2

theorem served_touched (sound : Sound w)
    (ran : Section Dropped (serve (.touch key now)) w (.touched (.ok true)) v) :
    ∃ entry, w.cache.entries.peek key = some entry ∧
      (now < entry.expiresAt ∨ Seen w entry.slot) := by
  have does : soundness.Triple (ReflTransGen Dropped w) (serve (.touch key now))
      (fun reply _ => reply = .touched (.ok true) → ∃ entry, w.cache.entries.peek key = some entry ∧
        (now < entry.expiresAt ∨ Seen w entry.slot)) := by
    refine Regime.triple_bind touchAt_does fun result =>
      Regime.triple_pure fun _ _ did touched => ?_
    obtain rfl : result = .ok true := Reply.touched.inj touched
    rcases did with ⟨refused,_⟩ | ⟨_,entry,u,here,granted,_⟩
    · exact absurd rfl refused
    · exact ⟨entry,here,granted⟩
  exact (section_post (does w sound .refl) ran).2 rfl

/-- An entry on a slot that was in use before a call was there before, on the same
    slot and with another deadline only if the call touched it. -/
theorem served_old_slot {found : CachedValue} (sound : Sound w) (distinct : w.Distinct)
    (ran : Section Dropped (serve request) w reply v) (here : v.cache.entries.peek key = some found)
    (old : found.slot < w.slots.length) :
    w.cache.entries.peek key = some found ∨ ∃ now before, request = .touch key now ∧
      reply = .touched (.ok true) ∧ w.cache.entries.peek key = some before ∧
        before.slot = found.slot := by
  rcases (served_effect sound distinct ran).entries here with same | touched | inserted
  · exact .inl same
  · obtain ⟨now,before,asked,answered,there,rfl⟩ := touched
    exact .inr ⟨now,before,asked,answered,there,rfl⟩
  · obtain ⟨value,now,rfl,absent,_⟩ := inserted
    obtain ⟨result,did⟩ := served_inserted sound ran
    have fresh := inserted_fresh did absent here
    omega

/-- With the clock at `now` or later, what is expired at `now` is not new. -/
theorem served_expired (sound : Sound w) (distinct : w.Distinct)
    (ran : Section Dropped (serve request) w reply v) (later : request.After now)
    (positive : 0 < w.cache.ttl) (here : v.cache.entries.peek key = some entry)
    (expired : entry.expiresAt ≤ now) : w.cache.entries.peek key = some entry := by
  rcases (served_effect sound distinct ran).entries here with same | touched | inserted
  · exact same
  · obtain ⟨at_,before,rfl,_,_,rfl⟩ := touched
    have := later at_ rfl
    simp only at expired
    omega
  · obtain ⟨value,at_,rfl,_,deadline⟩ := inserted
    have := later at_ rfl
    omega

/-- A state since the snapshot: what is expired at `now` was there in `origin`. -/
structure Aged (now : Nat) (origin w : World κ ν) : Prop where
  sound : Sound w
  distinct : w.Distinct
  positive : 0 < w.cache.ttl
  old : ∀ {key entry}, w.cache.entries.peek key = some entry → entry.expiresAt ≤ now →
    origin.cache.entries.peek key = some entry

variable {origin : World κ ν}

theorem served_aged (aged : Aged now origin w) (later : request.After now)
    (ran : Section Dropped (serve request) w reply v) : Aged now origin v where
  sound := served_sound aged.sound ran
  distinct := served_distinct aged.sound aged.distinct ran
  positive := (served_effect aged.sound aged.distinct ran).ttl ▸ aged.positive
  old here expired :=
    aged.old (served_expired aged.sound aged.distinct ran later aged.positive here expired) expired

theorem dropped_aged (aged : Aged now origin w) (dropped : Dropped w v) : Aged now origin v := by
  have cache := dropped_cache dropped
  refine ⟨dropped_sound dropped aged.sound,dropped_distinct dropped aged.distinct,?_,?_⟩
  · rw [cache]
    exact aged.positive
  · rw [cache]
    exact aged.old

/-- The entry can only go: nobody holds it, and no other is on its slot. -/
structure Spent (key : κ) (entry : CachedValue) (w : World κ ν) : Prop where
  allocated : entry.slot < w.slots.length
  only : ∀ {other found}, w.cache.entries.peek other = some found → found.slot = entry.slot →
    other = key ∧ found = entry
  free : w.cache.entries.peek key = some entry → ¬ w.Leased key

theorem spent_untouched {time : Nat} (aged : Aged now origin w) (spent : Spent key entry w)
    (expired : entry.expiresAt ≤ time) (here : w.cache.entries.peek key = some entry)
    (ran : Section Dropped (serve (.touch key time)) w (.touched (.ok true)) v) : False := by
  obtain ⟨found,there,granted⟩ := served_touched aged.sound ran
  obtain rfl : entry = found := Option.some.inj (here.symm.trans there)
  rcases granted with live | seen
  · omega
  · exact spent.free here (leased_of_seen aged.sound aged.distinct here seen)

theorem served_spent (aged : Aged now origin w) (later : request.After now)
    (expired : entry.expiresAt ≤ now) (ran : Section Dropped (serve request) w reply v)
    (spent : Spent key entry w) :
    Spent key entry v ∧ (v.cache.entries.peek key = some entry →
      w.cache.entries.peek key = some entry) := by
  have back : v.cache.entries.peek key = some entry → w.cache.entries.peek key = some entry :=
    fun here =>
    served_expired aged.sound aged.distinct ran later aged.positive here expired
  refine ⟨⟨lt_of_lt_of_le spent.allocated (served_grows ran),?_,?_⟩,back⟩
  · intro other found here slot
    rcases served_old_slot aged.sound aged.distinct ran here
      (slot ▸ spent.allocated) with same | touched
    · exact spent.only same slot
    · obtain ⟨time,before,rfl,rfl,there,old⟩ := touched
      obtain ⟨rfl,rfl⟩ := spent.only there (old.trans slot)
      exact (spent_untouched aged spent (le_trans expired (later time rfl)) there ran).elim
  · intro here leased
    rcases (served_effect aged.sound aged.distinct ran).leases leased with held | acquired
    · exact spent.free (back here) held
    · obtain ⟨time,found,rfl,there,live⟩ := acquired
      obtain rfl : entry = found := Option.some.inj ((back here).symm.trans there)
      have late := later time rfl
      omega

theorem dropped_spent (dropped : Dropped w v) (spent : Spent key entry w) : Spent key entry v := by
  have cache := dropped_cache dropped
  refine ⟨?_,?_,?_⟩
  · rw [drops_slots (.single dropped)]
    exact spent.allocated
  · rw [cache]
    exact spent.only
  · rw [cache]
    exact fun here leased => spent.free here ((dropped_onward dropped).leases leased)

theorem history_aged (meanwhile : History w between u)
    (later : ∀ call ∈ between, call.1.After now) (aged : Aged now origin w) :
    Aged now origin u := by
  refine history_keeps (fun later ran aged => ?_) (fun dropped aged => ?_) meanwhile later aged
  · exact served_aged aged later ran
  · exact dropped_aged aged dropped

/-- Since `w` the entry can only have gone. -/
def Fated (now : Nat) (origin : World κ ν) (key : κ) (entry : CachedValue) (w u : World κ ν) :
    Prop :=
  Aged now origin u ∧ Spent key entry u ∧
    (u.cache.entries.peek key = some entry → w.cache.entries.peek key = some entry)

theorem history_spent (meanwhile : History w between u) (later : ∀ call ∈ between, call.1.After now)
    (aged : Aged now origin w) (expired : entry.expiresAt ≤ now) (spent : Spent key entry w) :
    Spent key entry u ∧ (u.cache.entries.peek key = some entry →
      w.cache.entries.peek key = some entry) := by
  have serves : ∀ {request : Request κ ν} {reply x y}, request.After now →
      Section Dropped (serve request) x reply y → Fated now origin key entry w x →
      Fated now origin key entry w y := by
    intro request reply x y later ran kept
    obtain ⟨aged,spent,back⟩ := kept
    obtain ⟨spent',back'⟩ := served_spent aged later expired ran spent
    exact ⟨served_aged aged later ran,spent',back ∘ back'⟩
  have drops : ∀ {x y : World κ ν}, Dropped x y → Fated now origin key entry w x →
      Fated now origin key entry w y := by
    intro x y dropped kept
    obtain ⟨aged,spent,back⟩ := kept
    exact ⟨dropped_aged aged dropped,dropped_spent dropped spent,
      fun here => back (dropped_cache dropped ▸ here)⟩
  exact (history_keeps serves drops meanwhile later ⟨aged,spent,id⟩).2

end

section
variable {origin x : World κ ν} {batch : List κ} {batches : List (List κ)}
  {begun : List (List κ × World κ ν)}

theorem batch_spares (aged : Aged now origin u) (batch : List κ) :
    EachStep Dropped (Spares now origin) (serve (.retire batch now)) u := by
  have retires : EachStep Dropped (Retires now) (serve (.retire batch now)) u :=
    eachStep_bind (retireExpiredCandidatesAt_keeps now batch u aged.sound trivial)
      (retireExpiredCandidatesAt_retires now batch aged.sound) fun _ _ _ _ => trivial
  have confined : (serve (.retire batch now)).Confined (Recedes : World κ ν → World κ ν → Prop) :=
    confined_bind.mpr ⟨retireExpiredCandidatesAt_confined retire_recedes now batch,
      fun _ _ => trivial⟩
  refine eachStep_mono ?_
    (eachStep_reaching confined recedes_trans dropped_recedes retires (recedes_refl u))
  intro s t step key entry here
  obtain ⟨retires,recedes⟩ := step
  rcases retires key entry here with stays | ⟨expired,free⟩
  · exact .inl stays
  · exact .inr ⟨expired,free,aged.old (recedes.entries here) expired⟩

theorem snapshot_aged (sound : Sound w) (distinct : w.Distinct) (lives : 0 < w.cache.ttl)
    (ran : Section Dropped (serve (.snapshot now)) w reply v) : Aged now w v := by
  have aged : Aged now w w := ⟨sound,distinct,lives,fun here _ => here⟩
  refine served_aged aged ?_ ran
  intro t never
  cases never

theorem snapshot_spent (sound : Sound w) (distinct : w.Distinct) (lives : 0 < w.cache.ttl)
    (ran : Section Dropped (serve (.snapshot now)) w reply v)
    (here : w.cache.entries.peek key = some entry) (expired : entry.expiresAt ≤ now)
    (free : ¬ w.Leased key) : Spent key entry v := by
  have aged : Aged now w w := ⟨sound,distinct,lives,fun here _ => here⟩
  have resident : entry.slot ∈ w.residents := (residents_perm here).mem_iff.mpr mem_cons_self
  have spent : Spent key entry w :=
    ⟨sound.allocated _ (mem_append_left _ resident),entry_of_slot distinct here,fun _ => free⟩
  refine (served_spent aged ?_ expired ran spent).1
  intro t never
  cases never

theorem snapshot_listed {keys : List κ} (sound : Sound w) (distinct : w.Distinct)
    (sorted : (w.cache.entries.oldestFirst.map (·.2.expiresAt)).Pairwise (· ≤ ·))
    (ran : Section Dropped (serve (.snapshot now)) w (.snapshot keys) v)
    (due : w.Reclaimable now key) :
    key ∈ keys := by
  have safe : soundness.Safe (fun reply v => ∀ keys, reply = .snapshot keys →
      Finds now w.cache.entries.oldestFirst w keys v) (serve (.snapshot now)) w := by
    refine Regime.safe_bind (f := fun keys => pure (Reply.snapshot keys)) (fun found => ?_)
      (snapshot_safe sorted sound)
    refine Regime.triple_pure fun v _ finds keys same => ?_
    cases same
    exact finds
  exact reclaimable_found sound distinct ((section_post safe ran).2 keys rfl) due

theorem batch_retires (aged : Aged now origin u) (expired : entry.expiresAt ≤ now)
    (spent : Spent key entry u) (ran : Section Dropped (serve (.retire batch now)) u reply v)
    (here : v.cache.entries.peek key = some entry) :
    u.cache.entries.peek key = some entry ∧ key ∉ batch := by
  have before := (served_spent aged (retire_after _ _) expired ran spent).2 here
  refine ⟨before,fun listed => ?_⟩
  have retired : soundness.Safe (fun _ => Retired now batch u) (serve (.retire batch now)) u :=
    Regime.safe_bind (f := fun slots => pure (Reply.retired slots))
      (fun _ => Regime.triple_pure fun _ _ retired => retired)
      (retireExpiredCandidatesAt_retired now batch aged.sound aged.distinct)
  have gone := (section_post retired ran).2.gone key listed ⟨entry,before,expired,spent.free before⟩
  rw [gone] at here
  cases here

theorem batches_spare (ran : Batches now batches w begun x) (aged : Aged now origin w) :
    ∀ start ∈ begun, EachStep Dropped (Spares now origin) (serve (.retire start.1 now))
      start.2 := by
  induction ran with
  | done => exact nofun
  | batch meanwhile later ran _ ih =>
    have aged := history_aged meanwhile later aged
    intro start mem
    rcases mem_cons.mp mem with rfl | rest
    · exact batch_spares aged _
    · exact ih (served_aged aged (retire_after _ _) ran) start rest

theorem batches_retire (ran : Batches now batches w begun x) (aged : Aged now origin w)
    (expired : entry.expiresAt ≤ now) (spent : Spent key entry w) :
    Spent key entry x ∧ (x.cache.entries.peek key = some entry →
      w.cache.entries.peek key = some entry ∧ key ∉ batches.flatten) := by
  induction ran with
  | done => exact ⟨spent,fun here => ⟨here,not_mem_nil⟩⟩
  | batch meanwhile later ran _ ih =>
    obtain ⟨spent,earlier⟩ := history_spent meanwhile later aged expired spent
    have aged := history_aged meanwhile later aged
    obtain ⟨kept,spared⟩ := ih (served_aged aged (retire_after _ _) ran)
      (served_spent aged (retire_after _ _) expired ran spent).1
    refine ⟨kept,fun here => ?_⟩
    obtain ⟨after,unlisted⟩ := spared here
    obtain ⟨before,passed⟩ := batch_retires aged expired spent ran after
    refine ⟨earlier before,fun listed => ?_⟩
    rcases mem_append.mp (flatten_cons ▸ listed) with first | rest
    · exact passed first
    · exact unlisted rest

end

/-- Whatever the requests do between the snapshot and the batches: a batch takes
    away an entry only if at that moment it is expired and unleased, and if it is
    the entry of the snapshot, neither inserted nor touched since. And every entry
    that was expired and unleased at the snapshot is gone at the end. -/
theorem stale_snapshot_harmless {capacity ttl lastInstant : Nat} {positive : 0 < capacity}
    {past : List (Request κ ν × Reply κ)} {begun : List (List κ × World κ ν)} {x : World κ ν}
    (history : History (World.new capacity positive ttl lastInstant) past w)
    (clock : (past.filterMap (·.1.time)).Pairwise (· ≤ ·)) (lives : 0 < ttl)
    (purge : PurgeExpired now w begun x) :
    (∀ start ∈ begun, EachStep Dropped (Spares now w) (serve (.retire start.1 now)) start.2) ∧
      ∀ key entry, w.cache.entries.peek key = some entry → entry.expiresAt ≤ now → ¬ w.Leased key →
        ∀ other found, x.cache.entries.peek other = some found → found.slot ≠ entry.slot := by
  obtain ⟨sound,distinct⟩ := history_sound history
  obtain ⟨settings,_,ordered⟩ := history_ordered history clock
  have sorted := ordered.sorted
  have lives : 0 < w.cache.ttl := by
    rw [settings]
    exact lives
  obtain ⟨keys,v,snapshot,batches⟩ := purge
  have aged := snapshot_aged sound distinct lives snapshot
  constructor
  · exact batches_spare batches aged
  intro key entry here expired free other found there slot
  have spent := snapshot_spent sound distinct lives snapshot here expired free
  obtain ⟨kept,unlisted⟩ := batches_retire batches aged expired spent
  obtain ⟨rfl,rfl⟩ := kept.only there slot
  refine (unlisted there).2 ?_
  rw [chunks_flatten]
  exact snapshot_listed sound distinct sorted snapshot ⟨found,here,expired,free⟩

/-- After the snapshot a late request finds the third session expired, and a new
    session takes its key. -/
def keyReused : World Nat Nat := inTurn sessions [.acquire 3 12,.insert 3 6 12] threeResident

theorem reused_key_survives_purge :
    ∃ begun x, PurgeExpired 12 threeResident begun x ∧ x.cache.entries.peek 3 = some ⟨3,22⟩ ∧
      (∀ start ∈ begun, EachStep Dropped (Spares 12 threeResident)
        (serve (.retire start.1 12)) start.2) ∧
      ∀ other found, x.cache.entries.peek other = some found → found.slot ≠ 2 := by
  obtain ⟨past,history,clock⟩ := threeResident_history
  obtain ⟨between,same,meanwhile⟩ :=
    history_inTurn [.acquire 3 12,.insert 3 6 12] (.start : History threeResident [] threeResident)
  have later : ∀ call ∈ between, call.1.After 12 := by
    intro call made t read
    have asked : call.1 ∈ [.acquire 3 12,.insert 3 6 12] := same ▸ mem_map_of_mem made
    rcases mem_pair.mp asked with first | second
    · rw [first] at read
      cases read
      exact Nat.le_refl 12
    · rw [second] at read
      cases read
      exact Nat.le_refl 12
  have snapshot :
    Section Dropped (serve (.snapshot 12)) threeResident (.snapshot [3]) threeResident :=
    section_alone (serve (.snapshot 12)) threeResident
  have purge : PurgeExpired 12 threeResident [([3],keyReused)]
      (alone (serve (.retire [3] 12)) keyReused).2 := by
    refine ⟨[3],threeResident,snapshot,?_⟩
    have pieces : chunks sessionRetirementBatchSize [3] = [[3]] := by simp [chunks]
    rw [pieces]
    exact .batch meanwhile later (section_alone _ keyReused) .done
  obtain ⟨spares,gone⟩ := stale_snapshot_harmless history clock (by decide) purge
  refine ⟨_,_,purge,by decide +kernel,spares,?_⟩
  refine gone 3 ⟨2,12⟩ (by decide +kernel) (Nat.le_refl 12) ?_
  intro leased
  obtain ⟨lease,outstanding,third⟩ := leased
  have leases : threeResident.leases = [⟨1,2,8,false⟩] := rfl
  rw [leases] at outstanding
  rw [mem_singleton.mp outstanding] at third
  exact absurd third (by decide)

end OpenSecret.LeaseAware

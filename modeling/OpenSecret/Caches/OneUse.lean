import OpenSecret.Caches.BoundedTtl
import OpenSecret.Foundation.Registry
import Mathlib.Data.List.TakeWhile

/-!
An ephemeral key is used once. The cache is followed through a whole history: an
entry stands for the latest insertion of its key, and it goes away only by a take,
by expiry or by an insertion that needs its place.
-/
namespace OpenSecret.BoundedTtl
open List
open Recency (Store)
open Registry Traces

variable {κ ν : Type} [DecidableEq κ] {zeroize : ν → ν} {cache after : BoundedTtlCache κ ν}
  {key other : κ} {value : ν} {now : Nat}

def victim (cache : BoundedTtlCache κ ν) (key : κ) : Option κ :=
  if (cache.entries.peek key).isNone && cache.entries.isFull then
    cache.entries.oldest.map (·.1)
  else
    none

theorem peek_put_erase {store : Store κ (TimedEntry ν)} {gone : κ} {entry : TimedEntry ν}
    (mem : gone ∈ store.resident) :
    ((store.erase gone).put key entry).peek other =
      if other = key then some entry else if other = gone then none else store.peek other := by
  rw [Store.peek_put (Store.isFull_erase mem), Store.peek_erase]

theorem insertEvictingAt_spec {outcome : InsertOutcome}
    (inserted : insertEvictingAt cache key value now = .ok (outcome,after)) :
    after.ttl = cache.ttl ∧ after.entries.capacity = cache.entries.capacity ∧
      ∀ other, after.entries.peek other =
        if other = key then some ⟨value,now + cache.ttl⟩
        else if victim cache key = some other then none
        else cache.entries.peek other := by
  unfold insertEvictingAt at inserted
  split at inserted
  · dsimp only [Store.pop] at inserted
    split at inserted
    · rename_i entry rest popped
      obtain ⟨here,rfl⟩ := Prod.mk.inj popped
      cases inserted
      have mem : key ∈ cache.entries.resident :=
        Store.mem_iff_peek.mpr (Option.isSome_of_mem here)
      refine ⟨rfl,Store.capacity_put,fun other => ?_⟩
      rw [peek_put_erase mem, victim, here]
      grind
    · rename_i _ _ popped
      have absent := (Prod.mk.inj popped).1
      split at inserted
      · rename_i full
        cases last : cache.entries.oldest with
        | none =>
          rw [Store.popBack, last] at inserted
          cases inserted
        | some oldest =>
          rw [Store.popBack_of_oldest last] at inserted
          cases inserted
          refine ⟨rfl,Store.capacity_put,fun other => ?_⟩
          rw [peek_put_erase (Store.mem_of_oldest last), victim, absent, full, last]
          grind
      · rename_i room
        cases inserted
        refine ⟨rfl,Store.capacity_put,fun other => ?_⟩
        rw [Store.peek_put (by simpa using room), victim, absent]
        grind
  · cases inserted

theorem takeLiveAt_spec (cache : BoundedTtlCache κ ν) (key : κ) (now : Nat) :
    (takeLiveAt cache key now).1 =
      (cache.entries.peek key).bind (fun entry => if entry.expiresAt ≤ now
        then none else some entry.value) ∧
    (takeLiveAt cache key now).2.ttl = cache.ttl ∧
    (takeLiveAt cache key now).2.entries.capacity = cache.entries.capacity ∧
    ∀ other, (takeLiveAt cache key now).2.entries.peek other =
      if other = key then none else cache.entries.peek other := by
  dsimp only [takeLiveAt, Store.pop]
  cases here : cache.entries.peek key with
  | none => exact ⟨rfl,rfl,rfl,by grind⟩
  | some entry => exact ⟨rfl,rfl,rfl,Store.peek_erase key⟩

theorem popOldest_spec (zeroize : ν → ν) (count : Nat) (store : Store κ (TimedEntry ν))
    (enough : count ≤ store.oldestFirst.length) :
    ∃ retired left, popOldest zeroize count store = .ok (retired,left) ∧
      left.oldestFirst = store.oldestFirst.drop count ∧ left.capacity = store.capacity := by
  induction count generalizing store with
  | zero => exact ⟨[],store,rfl,rfl,rfl⟩
  | succ count ih =>
    cases last : store.oldest with
    | none =>
      rw [Store.oldest_eq_head, head?_eq_none_iff] at last
      rw [last] at enough
      cases enough
    | some oldest =>
      have order := Store.oldestFirst_erase last
      rw [order, length_cons] at enough
      obtain ⟨retired,left,popped,rest,capacity⟩ := ih (store.erase oldest.1) (by omega)
      refine ⟨{ oldest.2 with value := zeroize oldest.2.value } :: retired,left,?_,?_,capacity⟩
      · rw [popOldest, Store.popBack_of_oldest last]
        dsimp only
        rw [popped]
        rfl
      · rw [rest, order, drop_succ_cons]

theorem drop_length_takeWhile {α : Type} (p : α → Bool) (list : List α) :
    list.drop (list.takeWhile p).length = list.dropWhile p :=
  (congrArg _ takeWhile_append_dropWhile.symm).trans drop_left

/-- A retirement never panics; it takes the expired entries up to the first live
    one. -/
theorem retireExpiredAt_spec (zeroize : ν → ν) (cache : BoundedTtlCache κ ν) (now : Nat) :
    ∃ retired after, retireExpiredAt zeroize cache now = .ok (retired,after) ∧
      after.ttl = cache.ttl ∧ after.entries.capacity = cache.entries.capacity ∧
      after.entries.oldestFirst =
        cache.entries.oldestFirst.dropWhile fun entry => entry.2.expiresAt ≤ now := by
  obtain ⟨retired,left,popped,rest,capacity⟩ :=
    popOldest_spec zeroize (expiredCount cache.entries now)
    cache.entries (takeWhile_sublist _).length_le
  refine ⟨retired,{ cache with entries := left },?_,rfl,capacity,?_⟩
  · rw [retireExpiredAt, popped]
    rfl
  · rw [rest, expiredCount, drop_length_takeWhile]

theorem retireExpiredAt_peek {retired : List (TimedEntry ν)} {entry : TimedEntry ν}
    (retires : retireExpiredAt zeroize cache now = .ok (retired,after)) :
    (after.entries.peek key = some entry → cache.entries.peek key = some entry) ∧
      (cache.entries.peek key = some entry → now < entry.expiresAt →
        after.entries.peek key = some entry) := by
  obtain ⟨_,_,same,_,_,rest⟩ := retireExpiredAt_spec zeroize cache now
  cases retires.symm.trans same
  simp only [Store.peek_iff_mem, rest]
  refine ⟨fun mem => (dropWhile_sublist _).subset mem,fun mem live => ?_⟩
  rw [← takeWhile_append_dropWhile (p := fun entry => entry.2.expiresAt ≤ now)
    (l := cache.entries.oldestFirst)] at mem
  rcases mem_append.mp mem with expired | kept
  · have expired := mem_takeWhile_imp expired
    simp only [decide_eq_true_eq] at expired
    omega
  · exact kept

abbrev Event (κ ν : Type) := BoundedTtlCache κ ν × Operation κ ν

def Inserts (e : Event κ ν) (key : κ) (value : ν) (now : Nat) : Prop :=
  e.2 = .insert key value now ∧ ∃ result, insertEvictingAt e.1 key value now = .ok result

def Takes (e : Event κ ν) (key : κ) (now : Nat) : Prop := e.2 = .take key now

def Returns (e : Event κ ν) (key : κ) (value : ν) (now : Nat) : Prop :=
  Takes e key now ∧ (takeLiveAt e.1 key now).1 = some value

def Evicts (e : Event κ ν) (key : κ) : Prop :=
  ∃ inserted value now, Inserts e inserted value now ∧ victim e.1 inserted = some key

section
variable {e : Event κ ν} {entry : TimedEntry ν}

theorem perform_keeps (zeroize : ν → ν) (e : Event κ ν) :
    (perform zeroize e.1 e.2).2.ttl = e.1.ttl ∧
      (perform zeroize e.1 e.2).2.entries.capacity = e.1.entries.capacity := by
  obtain ⟨cache,op⟩ := e
  cases op with
  | insert key value now =>
    dsimp only [perform]
    split
    · rename_i inserted
      obtain ⟨ttl,capacity,_⟩ := insertEvictingAt_spec inserted
      exact ⟨ttl,capacity⟩
    · exact ⟨rfl,rfl⟩
  | take key now =>
    obtain ⟨_,ttl,capacity,_⟩ := takeLiveAt_spec cache key now
    exact ⟨ttl,capacity⟩
  | retire now =>
    obtain ⟨retired,after,retires,ttl,capacity,_⟩ := retireExpiredAt_spec zeroize cache now
    dsimp only [perform]
    rw [retires]
    exact ⟨ttl,capacity⟩

theorem perform_inserts (zeroize : ν → ν) (inserts : Inserts e key value now) :
    ∃ outcome, insertEvictingAt e.1 key value now = .ok (outcome,(perform zeroize e.1 e.2).2) := by
  obtain ⟨op,⟨outcome,after⟩,inserted⟩ := inserts
  rw [op, perform, inserted]
  exact ⟨outcome,rfl⟩

theorem peek_of_inserts (inserts : Inserts e key value now) :
    (perform zeroize e.1 e.2).2.entries.peek key = some ⟨value,now + e.1.ttl⟩ := by
  obtain ⟨_,inserted⟩ := perform_inserts zeroize inserts
  rw [(insertEvictingAt_spec inserted).2.2, if_pos rfl]

theorem perform_held (held : (perform zeroize e.1 e.2).2.entries.peek key = some entry) :
    (∃ now, Inserts e key entry.value now ∧ entry.expiresAt = now + e.1.ttl) ∨
      e.1.entries.peek key = some entry ∧ (∀ value now, ¬ Inserts e key value now) ∧
        ∀ now, ¬ Takes e key now := by
  obtain ⟨cache,op⟩ := e
  cases op with
  | insert inserted value now =>
    dsimp only [perform] at held
    split at held
    · rename_i outcome after same
      rw [(insertEvictingAt_spec same).2.2] at held
      split at held
      · rename_i here
        cases held
        exact .inl ⟨now,⟨here ▸ rfl,_,here ▸ same⟩,rfl⟩
      · rename_i elsewhere
        refine .inr ⟨?_,fun _ _ inserts => ?_,fun _ takes => ?_⟩
        · split at held
          · cases held
          · exact held
        · cases inserts.1
          exact elsewhere rfl
        · cases takes
    · rename_i fault failed
      refine .inr ⟨held,fun _ _ inserts => ?_,fun _ takes => ?_⟩
      · obtain ⟨op,_,inserts⟩ := inserts
        cases op
        cases failed.symm.trans inserts
      · cases takes
  | take taken now =>
    refine .inr ?_
    have peek := (takeLiveAt_spec cache taken now).2.2.2 key
    rw [show (takeLiveAt cache taken now).2.entries.peek key = some entry from held] at peek
    split at peek
    · cases peek
    · rename_i elsewhere
      refine ⟨peek.symm,fun _ _ inserts => ?_,fun _ takes => ?_⟩
      · cases inserts.1
      · cases takes
        exact elsewhere rfl
  | retire now =>
    obtain ⟨retired,after,retires,_⟩ := retireExpiredAt_spec zeroize cache now
    dsimp only [perform] at held
    rw [retires] at held
    refine .inr ⟨(retireExpiredAt_peek retires).1 held,fun _ _ inserts => ?_,fun _ takes => ?_⟩
    · cases inserts.1
    · cases takes

theorem perform_kept (here : e.1.entries.peek key = some entry) (live : e.2.now < entry.expiresAt)
    (noInsert : ∀ value now, ¬ Inserts e key value now)
    (noReturn : ∀ value now, ¬ Returns e key value now) (noEvict : ¬ Evicts e key) :
    (perform zeroize e.1 e.2).2.entries.peek key = some entry := by
  obtain ⟨cache,op⟩ := e
  cases op with
  | insert inserted value now =>
    dsimp only [perform]
    split
    · rename_i outcome after same
      have inserts : Inserts (cache,Operation.insert inserted value now) inserted value now :=
        ⟨rfl,_,same⟩
      rw [(insertEvictingAt_spec same).2.2, if_neg, if_neg, here]
      · exact fun evicted => noEvict ⟨inserted,value,now,inserts,evicted⟩
      · rintro rfl
        exact noInsert value now inserts
    · exact here
  | take taken now =>
    obtain ⟨answer,_,_,peek⟩ := takeLiveAt_spec cache taken now
    refine (peek key).trans ((if_neg ?_).trans here)
    rintro rfl
    refine noReturn entry.value now ⟨rfl,?_⟩
    rw [answer, here]
    exact if_neg (not_le.mpr live)
  | retire now =>
    obtain ⟨retired,after,retires,_⟩ := retireExpiredAt_spec zeroize cache now
    dsimp only [perform]
    rw [retires]
    exact (retireExpiredAt_peek retires).2 here live

def rules (ttl : Nat) : Rules (Event κ ν) κ (TimedEntry ν) where
  writes e key entry := ∃ now, Inserts e key entry.value now ∧ entry.expiresAt = now + ttl
  clears e key := ∃ now, Takes e key now
  spares e key entry := e.2.now < entry.expiresAt ∧ (∀ value now, ¬ Inserts e key value now) ∧
    (∀ value now, ¬ Returns e key value now) ∧ ¬ Evicts e key

theorem perform_step (zeroize : ν → ν) (e : Event κ ν) :
    (rules e.1.ttl).Step e e.1.entries.peek (perform zeroize e.1 e.2).2.entries.peek := by
  constructor
  · rintro key ⟨value,_⟩ ⟨now,inserts,rfl⟩
    exact peek_of_inserts inserts
  · intro key entry held
    rcases perform_held held with new | ⟨here,noInsert,noTake⟩
    · exact .inl new
    · exact .inr ⟨here,fun _ ⟨now,inserts,_⟩ => noInsert _ now inserts,fun ⟨now,takes⟩ =>
        noTake now takes⟩
  · rintro key entry here ⟨live,noInsert,noReturn,noEvict⟩
    exact perform_kept here live noInsert noReturn noEvict

end

structure Tracks (capacity ttl : Nat) (history : List (Event κ ν))
    (cache : BoundedTtlCache κ ν) : Prop where
  sameTtl : cache.ttl = ttl
  sameCapacity : cache.entries.capacity = capacity
  told : (rules ttl).Tells history cache.entries.peek

def step (zeroize : ν → ν) (cache : BoundedTtlCache κ ν) (op : Operation κ ν) :
    Option (BoundedTtlCache κ ν) :=
  some (perform zeroize cache op).2

section
variable {capacity ttl lastInstant : Nat} {positive : 0 < capacity} {history : List (Event κ ν)}
  {i p : Nat} {e d : Event κ ν} {inserted taken : Nat}

def Hands (history : List (Event κ ν)) (i p : Nat) : Prop :=
  ∃ e d key value inserted taken, i < p ∧ history[i]? = some e ∧ Inserts e key value inserted ∧
    history[p]? = some d ∧ Returns d key value taken ∧
    Between history i p fun e => ∀ value now, ¬ Inserts e key value now

section
variable (run : Plays (step zeroize) (.new capacity positive ttl lastInstant) history cache)
include run

theorem tracks_of_plays : Tracks capacity ttl history cache := by
  refine plays_invariant (Tracks capacity ttl) ⟨rfl,rfl,Rules.tells_nil _⟩ ?_ run
  rintro earlier cache op _ ⟨rfl,rfl,told⟩ ⟨⟩
  obtain ⟨sameTtl,sameCapacity⟩ := perform_keeps zeroize (cache,op)
  exact ⟨sameTtl,sameCapacity,Rules.tells_concat told (perform_step zeroize (cache,op))⟩

theorem tracks_at (here : history[p]? = some d) : Tracks capacity ttl (history.take p) d.1 :=
  tracks_of_plays (plays_take run here)

theorem returns_latest (here : history[p]? = some d) (returns : Returns d key value taken) :
    ∃ i e inserted, i < p ∧ history[i]? = some e ∧ Inserts e key value inserted ∧
      taken < inserted + ttl ∧
      Between history i p fun e => (∀ value now, ¬ Inserts e key value now) ∧
        ∀ now, ¬ Takes e key now := by
  have answer := (takeLiveAt_spec d.1 key taken).1
  rw [returns.2] at answer
  obtain ⟨entry,resident,live⟩ := Option.bind_eq_some_iff.mp answer.symm
  split at live
  · cases live
  rename_i unexpired
  cases live
  obtain ⟨i,e,before,at_,⟨inserted,inserts,expires⟩,since⟩ :=
    Rules.tells_latest (tracks_at run here).told resident
  refine ⟨i,e,inserted,before,at_,inserts,by omega,fun j f later sooner there => ?_⟩
  obtain ⟨unwritten,uncleared⟩ := since j f later sooner there
  exact ⟨fun value now inserts => unwritten ⟨value,now + ttl⟩ ⟨now,inserts,rfl⟩,fun now takes =>
    uncleared ⟨now,takes⟩⟩

theorem hands_not_again {q : Nat} (first : Hands history i p) (second : Hands history i q) :
    ¬ p < q := by
  intro sooner
  obtain ⟨e,d,key,value,inserted,taken,after,ins,inserts,here,returns,between⟩ := first
  obtain ⟨_,d',key',_,_,taken',after',ins',inserts',here',returns',between'⟩ := second
  cases ins.symm.trans ins'
  cases inserts.1.symm.trans inserts'.1
  obtain ⟨k,f,_,before,at_,insertsF,_,quiet⟩ := returns_latest run here' returns'
  -- The latest insertion before `q` is the one at `i`, and the take at `p` came after it.
  rcases Nat.lt_trichotomy k i with earlier | rfl | later
  · exact (quiet i e earlier after' ins).1 _ _ inserts
  · exact (quiet p d after sooner here).2 _ returns.1
  · exact between' k f later before at_ _ _ insertsF

theorem take_returns (clock : (history.map (·.2.now)).Pairwise (· ≤ ·)) (before : i < p)
    (ins : history[i]? = some e) (inserts : Inserts e key value inserted)
    (here : history[p]? = some d) (takes : Takes d key taken)
    (quiet : Between history i p fun e => (∀ value now, ¬ Inserts e key value now) ∧
      (∀ value now, ¬ Returns e key value now) ∧ ¬ Evicts e key)
    (live : taken < inserted + ttl) : Returns d key value taken := by
  have spared : Between history i p fun e => (rules ttl).spares e key ⟨value,inserted + ttl⟩ := by
    intro j f later sooner at_
    refine ⟨?_,quiet j f later sooner at_⟩
    have ordered := clock_le clock sooner at_ here
    rw [takes] at ordered
    exact lt_of_le_of_lt ordered live
  have resident :=
    Rules.tells_stands (tracks_at run here).told before ins ⟨inserted,inserts,rfl⟩ spared
  refine ⟨takes,?_⟩
  rw [(takeLiveAt_spec d.1 key taken).1, resident]
  exact if_neg (not_le.mpr live)

end

/-- Over every sequence of calls with a clock that never runs back: a take returns
    the value of the latest insertion for its key, while that is younger than the
    TTL, and returns it once; it does return it unless it was taken, expired or
    evicted before. The cache never outgrows its capacity. -/
theorem ephemeral_secret_used_once
    (run : Plays (step zeroize) (.new capacity positive ttl lastInstant) history cache)
    (clock : (history.map (·.2.now)).Pairwise (· ≤ ·)) :
    (∀ p d key value taken, history[p]? = some d → Returns d key value taken →
      ∃ i e inserted, i < p ∧ history[i]? = some e ∧ Inserts e key value inserted ∧
        taken - inserted < ttl ∧ inserted ≤ taken ∧
        Between history i p fun e => ∀ value now, ¬ Inserts e key value now) ∧
    (∀ i p q, Hands history i p → Hands history i q → p = q) ∧
    (∀ i p e d key value inserted taken, i < p → history[i]? = some e →
      Inserts e key value inserted →
      history[p]? = some d → Takes d key taken →
      (Between history i p fun e => (∀ value now, ¬ Inserts e key value now) ∧
        (∀ value now, ¬ Returns e key value now) ∧ ¬ Evicts e key) →
      taken - inserted < ttl → Returns d key value taken) ∧
    cache.entries.resident.entries.length ≤ capacity := by
  refine ⟨?_,?_,?_,?_⟩
  · intro p d key value taken here returns
    obtain ⟨i,e,inserted,before,ins,inserts,live,quiet⟩ := returns_latest run here returns
    have ordered := clock_le clock before ins here
    rw [inserts.1, returns.1] at ordered
    change inserted ≤ taken at ordered
    exact ⟨i,e,inserted,before,ins,inserts,by omega,ordered,fun j f later sooner at_ =>
      (quiet j f later sooner at_).1⟩
  · intro i p q first second
    have notSooner := hands_not_again run first second
    have notLater := hands_not_again run second first
    omega
  · intro i p e d key value inserted taken before ins inserts here takes quiet young
    exact take_returns run clock before ins inserts here takes quiet (by omega)
  · have tracks := tracks_of_plays run
    exact tracks.sameCapacity ▸ cache.entries.bounded

/-- Two handshakes on a cache of one entry, the second one after the first key was
    taken. -/
def handshakes : List (Event Nat Nat) × BoundedTtlCache Nat Nat :=
  play (step fun _ => 0) [.insert 1 7 0,.take 1 4,.insert 2 8 5,.take 1 6]
    (.new 1 Nat.one_pos 5 100)

theorem handshake_key_used_once :
    (∃ d, handshakes.1[1]? = some d ∧ Returns d 1 7 4) ∧
      (∀ i p q, Hands handshakes.1 i p → Hands handshakes.1 i q → p = q) ∧
      handshakes.2.entries.resident.entries.length ≤ 1 := by
  have run : Plays (step fun _ => 0) (.new 1 Nat.one_pos 5 100) handshakes.1 handshakes.2 :=
    plays_play _ _ _
  have clock : (handshakes.1.map (·.2.now)).Pairwise (· ≤ ·) := by decide
  obtain ⟨_,once,returned,bounded⟩ := ephemeral_secret_used_once run clock
  refine ⟨⟨_,rfl,?_⟩,once,bounded⟩
  exact returned 0 1 _ _ 1 7 0 4 Nat.one_pos rfl ⟨rfl,_,rfl⟩ rfl rfl (fun j _ low high => by omega)
    (by decide)

end

end OpenSecret.BoundedTtl

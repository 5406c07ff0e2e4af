import OpenSecret.Encrypt
import OpenSecret.Foundation.Registry

/-!
`OAuthStateStore` of `oauth.rs`: the states of pending logins, by their CSRF token.
Each operation holds the mutex from its first look at the map to its end, so a run
is a sequence of operations. Expired states go when an operation comes by; a login
is completed by the latest state stored under its token, once, and in time.
-/
namespace OpenSecret.OauthStates
open Framing Registry Traces

structure OAuthState where
  csrfToken : Text
  clientId : Uuid
  deriving DecidableEq

structure StoredOAuthState where
  state : OAuthState
  expiresAt : Nat
  deriving DecidableEq

inductive OAuthStateCapacityError where
  | capacityReached
  deriving DecidableEq, Repr

/-- `lastInstant` is the last `Instant` of the platform. -/
structure OAuthStateStore where
  entries : AList fun _ : Text => StoredOAuthState
  ttl : Nat
  capacity : Nat
  lastInstant : Nat

namespace OAuthStateStore

/-- A capacity of zero panics. -/
def withLimits (ttl capacity lastInstant : Nat) (_ : 0 < capacity) : OAuthStateStore :=
  ⟨∅,ttl,capacity,lastInstant⟩

def retainLive (store : OAuthStateStore) (now : Nat) : OAuthStateStore :=
  { store with entries := retain (fun stored => now < stored.expiresAt) store.entries }

def storeAt (store : OAuthStateStore) (csrfToken : Text) (state : OAuthState) (now : Nat) :
    Outcome OAuthStateCapacityError Unit × OAuthStateStore :=
  let inner := store.retainLive now
  if csrfToken ∉ inner.entries ∧ inner.capacity ≤ inner.entries.entries.length then
    (.error (.error .capacityReached),inner)
  else if now + inner.ttl ≤ inner.lastInstant then
    (.ok (),{ inner with entries := inner.entries.insert csrfToken ⟨state,now + inner.ttl⟩ })
  else
    (.error .panicked,inner)

def consumeAt (store : OAuthStateStore) (state : OAuthState) (now : Nat) : Bool × OAuthStateStore :=
  let inner := store.retainLive now
  let found := (inner.entries.lookup state.csrfToken).any fun stored => stored.state = state
  if found then
    (true,{ inner with entries := inner.entries.erase state.csrfToken })
  else
    (false,inner)

def live (store : OAuthStateStore) (now : Nat) (token : Text) : Option StoredOAuthState :=
  (store.entries.lookup token).filter fun stored => now < stored.expiresAt

variable {store : OAuthStateStore} {token other : Text} {state : OAuthState} {now : Nat}

theorem lookup_retainLive : (store.retainLive now).entries.lookup token = store.live now token :=
  lookup_retain

theorem storeAt_refused : (store.storeAt token state now).1 = .error (.error .capacityReached) ↔
    store.live now token = none ∧ store.capacity ≤
      (store.retainLive now).entries.entries.length := by
  rw [← lookup_retainLive, AList.lookup_eq_none]
  dsimp only [storeAt]
  split
  · rename_i full
    exact iff_of_true rfl full
  · rename_i room
    refine iff_of_false ?_ room
    split <;> nofun

theorem storeAt_ok (stored : (store.storeAt token state now).1 = .ok ()) :
    (store.storeAt token state now).2.entries =
      (store.retainLive now).entries.insert token ⟨state,now + store.ttl⟩ := by
  dsimp only [storeAt] at stored ⊢
  split
  · rename_i full
    rw [if_pos full] at stored
    cases stored
  · rename_i room
    rw [if_neg room] at stored
    split
    · rfl
    · rename_i late
      rw [if_neg late] at stored
      cases stored

theorem storeAt_failed (failed : (store.storeAt token state now).1 ≠ .ok ()) :
    (store.storeAt token state now).2 = store.retainLive now := by
  dsimp only [storeAt] at failed ⊢
  split
  · rfl
  · rename_i room
    rw [if_neg room] at failed
    split
    · rename_i fits
      rw [if_pos fits] at failed
      exact absurd rfl failed
    · rfl

theorem consumeAt_true : (store.consumeAt state now).1 = true ↔
    ∃ stored, store.live now state.csrfToken = some stored ∧ stored.state = state := by
  have matching :
    ((store.retainLive now).entries.lookup state.csrfToken).any (·.state = state) = true ↔
      ∃ stored, store.live now state.csrfToken = some stored ∧ stored.state = state := by
    rw [lookup_retainLive, Option.any_eq_true]
    simp
  dsimp only [consumeAt]
  split
  · rename_i found
    exact iff_of_true rfl (matching.mp found)
  · rename_i missing
    exact iff_of_false nofun (mt matching.mpr missing)

theorem consumeAt_used (used : (store.consumeAt state now).1 = true) :
    (store.consumeAt state now).2.entries =
      (store.retainLive now).entries.erase state.csrfToken := by
  dsimp only [consumeAt] at used ⊢
  split
  · rfl
  · rename_i missing
    rw [if_neg missing] at used
    cases used

theorem consumeAt_refused (refused : (store.consumeAt state now).1 = false) :
    (store.consumeAt state now).2 = store.retainLive now := by
  dsimp only [consumeAt] at refused ⊢
  split
  · rename_i found
    rw [if_pos found] at refused
    cases refused
  · rfl

end OAuthStateStore

inductive Operation where
  | store (csrfToken : Text) (state : OAuthState) (now : Nat)
  | consume (state : OAuthState) (now : Nat)

def Operation.now : Operation → Nat
  | .store _ _ now => now
  | .consume _ now => now

def perform (store : OAuthStateStore) : Operation → OAuthStateStore
  | .store csrfToken state now => (store.storeAt csrfToken state now).2
  | .consume state now => (store.consumeAt state now).2

def step (store : OAuthStateStore) (op : Operation) :
    Option OAuthStateStore := some (perform store op)

abbrev Event := OAuthStateStore × Operation

def Stores (e : Event) (token : Text) (state : OAuthState) (now : Nat) : Prop :=
  e.2 = .store token state now ∧ (e.1.storeAt token state now).1 = .ok ()

def Consumes (e : Event) (state : OAuthState) (now : Nat) : Prop :=
  e.2 = .consume state now ∧ (e.1.consumeAt state now).1 = true

section
variable {e : Event} {token : Text} {state : OAuthState} {stored : StoredOAuthState} {now : Nat}

def rules (ttl : Nat) : Rules Event Text StoredOAuthState where
  writes e token stored := ∃ now, Stores e token stored.state now ∧ stored.expiresAt = now + ttl
  clears e token := ∃ state now, Consumes e state now ∧ state.csrfToken = token
  spares e token stored := e.2.now < stored.expiresAt ∧ (∀ state now, ¬ Stores e token state now) ∧
    ∀ state now, Consumes e state now → state.csrfToken ≠ token

theorem live_eq_some : e.1.live now token = some stored ↔
    e.1.entries.lookup token = some stored ∧ now < stored.expiresAt := by
  simp [OAuthStateStore.live, Option.filter_eq_some_iff]

theorem perform_limits (e : Event) : (perform e.1 e.2).ttl = e.1.ttl ∧
    (perform e.1 e.2).capacity = e.1.capacity ∧ (perform e.1 e.2).lastInstant =
      e.1.lastInstant := by
  obtain ⟨store,op⟩ := e
  cases op with
  | store token state now =>
    dsimp only [perform, OAuthStateStore.storeAt]
    split
    · exact ⟨rfl,rfl,rfl⟩
    · split <;> exact ⟨rfl,rfl,rfl⟩
  | consume state now =>
    dsimp only [perform, OAuthStateStore.consumeAt]
    split <;> exact ⟨rfl,rfl,rfl⟩

/-- What an operation leaves: it stores, or it uses a state up, or it only lets
    expired states go. -/
theorem perform_cases (e : Event) :
    (∃ token state now, Stores e token state now ∧
      (perform e.1 e.2).entries =
        (e.1.retainLive e.2.now).entries.insert token ⟨state,now + e.1.ttl⟩) ∨
    (∃ state now, Consumes e state now ∧
      (perform e.1 e.2).entries = (e.1.retainLive e.2.now).entries.erase state.csrfToken) ∨
    (∀ token state now, ¬ Stores e token state now) ∧ (∀ state now, ¬ Consumes e state now) ∧
      (perform e.1 e.2).entries = (e.1.retainLive e.2.now).entries := by
  obtain ⟨store,op⟩ := e
  cases op with
  | store token state now =>
    by_cases stored : (store.storeAt token state now).1 = .ok ()
    · exact .inl ⟨token,state,now,⟨rfl,stored⟩,OAuthStateStore.storeAt_ok stored⟩
    · refine .inr (.inr ⟨?_,nofun,congrArg _ (OAuthStateStore.storeAt_failed stored)⟩)
      intro token state now stores
      cases stores.1
      exact stored stores.2
  | consume state now =>
    cases used : (store.consumeAt state now).1 with
    | true => exact .inr (.inl ⟨state,now,⟨rfl,used⟩,OAuthStateStore.consumeAt_used used⟩)
    | false =>
      refine .inr (.inr ⟨nofun,?_,congrArg _ (OAuthStateStore.consumeAt_refused used)⟩)
      intro state now consumes
      cases consumes.1
      exact absurd (used.symm.trans consumes.2) nofun

theorem perform_bounded (bounded : e.1.entries.entries.length ≤ e.1.capacity) :
    (perform e.1 e.2).entries.entries.length ≤ e.1.capacity := by
  have less : (e.1.retainLive e.2.now).entries.entries.length ≤ e.1.capacity :=
    le_trans length_retain_le bounded
  rcases perform_cases e with ⟨token,state,now,stores,entries⟩ | ⟨state,
    now,_,entries⟩ | ⟨_,_,entries⟩
  · rw [entries]
    refine length_insert_le ?_ less
    obtain ⟨op,stored⟩ := stores
    rw [op]
    by_contra full
    rw [not_or, not_lt] at full
    have refused : (e.1.storeAt token state now).1 = _ := OAuthStateStore.storeAt_refused.mpr
      ⟨OAuthStateStore.lookup_retainLive ▸ AList.lookup_eq_none.mpr full.1,full.2⟩
    rw [refused] at stored
    cases stored
  · rw [entries]
    exact le_trans (Recency.length_erase_le _ _) less
  · rw [entries]
    exact less

theorem lookup_live {found : StoredOAuthState} (there : e.1.live now token = some found) :
    e.1.entries.lookup token = some found := (live_eq_some.mp there).1

variable {entries : AList fun _ : Text => StoredOAuthState}

theorem step_of_stores (stores : Stores e token state now)
    (left : entries = (e.1.retainLive e.2.now).entries.insert token ⟨state,now + e.1.ttl⟩) :
    (rules e.1.ttl).Step e e.1.entries.lookup entries.lookup := by
  have only : ∀ {k s t}, Stores e k s t → k = token ∧ s = state ∧ t = now := by
    intro k s t other
    cases stores.1.symm.trans other.1
    exact ⟨rfl,rfl,rfl⟩
  constructor
  · intro k stored wrote
    obtain ⟨_,stores',expires⟩ := wrote
    obtain ⟨rfl,same,rfl⟩ := only stores'
    rw [left, AList.lookup_insert, ← same, ← expires]
  · intro k stored found
    rw [left] at found
    by_cases here : k = token
    · rw [here, AList.lookup_insert] at found
      cases found
      exact .inl ⟨now,here ▸ stores,rfl⟩
    · rw [AList.lookup_insert_ne here, OAuthStateStore.lookup_retainLive] at found
      refine .inr ⟨lookup_live found,?_,?_⟩
      · rintro b ⟨_,stores',_⟩
        exact here (only stores').1
      · rintro ⟨s,t,consumes,_⟩
        cases stores.1.symm.trans consumes.1
  · intro k stored stood spared
    obtain ⟨live,unstored,_⟩ := spared
    have elsewhere : k ≠ token := fun here => unstored state now (here ▸ stores)
    rw [left, AList.lookup_insert_ne elsewhere, OAuthStateStore.lookup_retainLive]
    exact live_eq_some.mpr ⟨stood,live⟩

theorem step_of_consumes (consumes : Consumes e state now)
    (left : entries = (e.1.retainLive e.2.now).entries.erase state.csrfToken) :
    (rules e.1.ttl).Step e e.1.entries.lookup entries.lookup := by
  have unstored : ∀ {k s t}, ¬ Stores e k s t := by
    intro k s t stores
    cases consumes.1.symm.trans stores.1
  constructor
  · rintro k stored ⟨_,stores,_⟩
    exact absurd stores unstored
  · intro k stored found
    have elsewhere : k ≠ state.csrfToken := by
      rintro rfl
      rw [left, AList.lookup_erase] at found
      cases found
    rw [left, AList.lookup_erase_ne elsewhere, OAuthStateStore.lookup_retainLive] at found
    refine .inr ⟨lookup_live found,?_,?_⟩
    · rintro b ⟨_,stores,_⟩
      exact unstored stores
    · rintro ⟨s,t,consumes',rfl⟩
      cases consumes.1.symm.trans consumes'.1
      exact elsewhere rfl
  · intro k stored stood spared
    obtain ⟨live,_,unused⟩ := spared
    rw [left, AList.lookup_erase_ne (unused state now consumes).symm,
      OAuthStateStore.lookup_retainLive]
    exact live_eq_some.mpr ⟨stood,live⟩

theorem perform_step (e : Event) :
    (rules e.1.ttl).Step e e.1.entries.lookup (perform e.1 e.2).entries.lookup := by
  rcases perform_cases e with ⟨token,state,now,stores,left⟩ | ⟨state,now,consumes,left⟩ |
    ⟨unstored,unused,left⟩
  · exact step_of_stores stores left
  · exact step_of_consumes consumes left
  rw [left]
  constructor
  · rintro k stored ⟨now,stores,_⟩
    exact absurd stores (unstored k stored.state now)
  · intro k stored found
    rw [OAuthStateStore.lookup_retainLive] at found
    refine .inr ⟨lookup_live found,?_,?_⟩
    · rintro b ⟨now,stores,_⟩
      exact unstored k b.state now stores
    · rintro ⟨state,now,consumes,_⟩
      exact unused state now consumes
  · intro k stored stood spared
    rw [OAuthStateStore.lookup_retainLive]
    exact live_eq_some.mpr ⟨stood,spared.1⟩

end

section
variable {ttl capacity lastInstant : Nat} {positive : 0 < capacity} {history : List Event}
  {store : OAuthStateStore} {i p q : Nat} {e d : Event}

structure Tracks (ttl capacity : Nat) (history : List Event) (store : OAuthStateStore) : Prop where
  sameTtl : store.ttl = ttl
  sameCapacity : store.capacity = capacity
  bounded : store.entries.entries.length ≤ capacity
  told : (rules ttl).Tells history store.entries.lookup

theorem tracks_concat (tracks : Tracks ttl capacity history e.1) :
    Tracks ttl capacity (history ++ [e]) (perform e.1 e.2) := by
  obtain ⟨rfl,rfl,bounded,told⟩ := tracks
  obtain ⟨sameTtl,sameCapacity,_⟩ := perform_limits e
  exact ⟨sameTtl,sameCapacity,perform_bounded bounded,Rules.tells_concat told (perform_step e)⟩

/-- The latest successful store under the token of a state, seen from position `p`. -/
def LatestStore (history : List Event) (p i : Nat) (state : OAuthState) (stored : Nat) : Prop :=
  i < p ∧ (∃ e, history[i]? = some e ∧ Stores e state.csrfToken state stored) ∧
    Between history i p fun f => ∀ other now, ¬ Stores f state.csrfToken other now

theorem latestStore_unique {state other : OAuthState} {stored now j : Nat}
    (first : LatestStore history p i state stored) (second : LatestStore history p j other now)
    (same : other.csrfToken = state.csrfToken) : i = j ∧ state = other := by
  obtain ⟨sooner,⟨e,here,stores⟩,between⟩ := first
  obtain ⟨sooner',⟨e',here',stores'⟩,between'⟩ := second
  rw [same] at stores' between'
  rcases Nat.lt_trichotomy i j with earlier | rfl | later
  · exact absurd stores' (between j e' earlier sooner' here' other now)
  · cases here.symm.trans here'
    cases stores.1.symm.trans stores'.1
    exact ⟨rfl,rfl⟩
  · exact absurd stores (between' i e later sooner here state stored)

def Uses (history : List Event) (i p : Nat) : Prop :=
  ∃ state stored now d, LatestStore history p i state stored ∧
    history[p]? = some d ∧ Consumes d state now

section
variable (run : Plays step (.withLimits ttl capacity lastInstant positive) history store)
include run

theorem tracks_of_plays : Tracks ttl capacity history store := by
  have fresh : Tracks ttl capacity [] (.withLimits ttl capacity lastInstant positive) := by
    refine ⟨rfl,rfl,Nat.zero_le capacity,?_⟩
    have none : (OAuthStateStore.withLimits ttl capacity lastInstant positive).entries.lookup =
        fun _ => Option.none := funext AList.lookup_empty
    rw [none]
    exact Rules.tells_nil _
  refine plays_invariant (Tracks ttl capacity) fresh ?_ run
  intro earlier store op after tracks moved
  cases moved
  exact tracks_concat (e := (store,op)) tracks

theorem tracks_at (here : history[p]? = some d) : Tracks ttl capacity (history.take p) d.1 :=
  tracks_of_plays (plays_take run here)

theorem consumes_latest {state : OAuthState} {now : Nat} (here : history[p]? = some d)
    (consumes : Consumes d state now) :
    ∃ i e stored, i < p ∧ history[i]? = some e ∧ Stores e state.csrfToken state stored ∧
      now < stored + ttl ∧ Between history i p fun f =>
        (∀ other now, ¬ Stores f state.csrfToken other now) ∧
        ∀ other now, Consumes f other now → other.csrfToken ≠ state.csrfToken := by
  obtain ⟨entry,live,same⟩ := OAuthStateStore.consumeAt_true.mp consumes.2
  obtain ⟨stood,inTime⟩ := live_eq_some.mp live
  obtain ⟨i,e,sooner,at_,⟨stored,stores,expires⟩,between⟩ :=
    Rules.tells_latest (tracks_at run here).told stood
  refine ⟨i,e,stored,sooner,at_,same ▸ stores,expires ▸ inTime,?_⟩
  intro j f later before there
  obtain ⟨unwritten,uncleared⟩ := between j f later before there
  constructor
  · intro other now stores
    exact unwritten ⟨other,now + ttl⟩ ⟨now,stores,rfl⟩
  · intro other now consumes token
    exact uncleared ⟨other,now,consumes,token⟩

theorem consume_succeeds {state : OAuthState} {stored now : Nat}
    (clock : (history.map (·.2.now)).Pairwise (· ≤ ·)) (here : history[p]? = some d)
    (op : d.2 = .consume state now) (latest : LatestStore history p i state stored)
    (inTime : now < stored + ttl)
    (unused : Between history i p fun f => ∀ now, ¬ Consumes f state now) :
    Consumes d state now := by
  obtain ⟨sooner,⟨e,at_,stores⟩,unwritten⟩ := latest
  have spared : Between history i p fun f =>
      (rules ttl).spares f state.csrfToken ⟨state,stored + ttl⟩ := by
    intro j f later before there
    refine ⟨?_,unwritten j f later before there,?_⟩
    · have ordered := clock_le clock before there here
      rw [op] at ordered
      exact lt_of_le_of_lt ordered inTime
    · -- What a call in between consumes under this token is the state itself.
      intro other time consumes same
      obtain ⟨k,g,written,before',there',stores',_,quiet⟩ := consumes_latest run there consumes
      have earlier : LatestStore history j i state stored :=
        ⟨later,⟨e,at_,stores⟩,fun m h low high =>
        unwritten m h low (lt_trans high before)⟩
      have other' : LatestStore history j k other written :=
        ⟨before',⟨g,there',stores'⟩,fun m h low high here =>
        (quiet m h low high here).1⟩
      obtain ⟨_,rfl⟩ := latestStore_unique earlier other' same
      exact unused j f later before there time consumes
  have stood := Rules.tells_stands (tracks_at run here).told sooner at_ ⟨stored,stores,rfl⟩ spared
  exact ⟨op,OAuthStateStore.consumeAt_true.mpr ⟨_,live_eq_some.mpr ⟨stood,inTime⟩,rfl⟩⟩

theorem uses_not_again (first : Uses history i p) (second : Uses history i q) : ¬ p < q := by
  intro sooner
  obtain ⟨state,stored,now,d,⟨before,⟨e,at_,stores⟩,_⟩,here,consumes⟩ := first
  obtain ⟨state',stored',_,_,latest',here',consumes'⟩ := second
  obtain ⟨before',⟨e',at',stores'⟩,_⟩ := id latest'
  cases at_.symm.trans at'
  obtain rfl : state = state' := by
    have same := stores.1.symm.trans stores'.1
    injection same
  obtain ⟨k,g,written,sooner',there,storesG,_,quiet⟩ := consumes_latest run here' consumes'
  obtain ⟨rfl,_⟩ := latestStore_unique latest'
    ⟨sooner',⟨g,there,storesG⟩,fun m h low high here => (quiet m h low high here).1⟩ rfl
  exact (quiet p d before sooner here).2 state now consumes rfl

end

/-- Over every sequence of operations with a clock that never runs back: a consume
    succeeds exactly for the state stored last under its token, in time and not yet
    consumed; so a stored state is used at most once. A consume that fails leaves
    every live state, a store is refused exactly when its token is new and the live
    states fill the store, and the store never outgrows its capacity. -/
theorem oauth_state_used_once
    (run : Plays step (.withLimits ttl capacity lastInstant positive) history store)
    (clock : (history.map (·.2.now)).Pairwise (· ≤ ·)) :
    (∀ (p : Nat) (before : OAuthStateStore) (state : OAuthState) (now : Nat),
      history[p]? = some (before,.consume state now) →
      ((before.consumeAt state now).1 = true ↔ ∃ i stored, LatestStore history p i state stored ∧
        now < stored + ttl ∧ Between history i p fun f => ∀ now, ¬ Consumes f state now)) ∧
    (∀ i p q, Uses history i p → Uses history i q → p = q) ∧
    (∀ (p : Nat) (before : OAuthStateStore) (state : OAuthState) (now : Nat),
      history[p]? = some (before,.consume state now) →
      (before.consumeAt state now).1 = false →
      ∀ token, (before.consumeAt state now).2.entries.lookup token = before.live now token) ∧
    (∀ (p : Nat) (before : OAuthStateStore) (token : Text) (state : OAuthState) (now : Nat),
      history[p]? = some (before,.store token state now) →
      ((before.storeAt token state now).1 = .error (.error .capacityReached) ↔
        before.live now token = none ∧ capacity ≤ (before.retainLive now).entries.entries.length)) ∧
    store.entries.entries.length ≤ capacity := by
  refine ⟨?_,?_,?_,?_,(tracks_of_plays run).bounded⟩
  · intro p before state now here
    constructor
    · intro used
      obtain ⟨i,e,stored,sooner,at_,stores,inTime,quiet⟩ := consumes_latest run here ⟨rfl,used⟩
      refine ⟨i,stored,⟨sooner,⟨e,at_,stores⟩,?_⟩,inTime,?_⟩
      · intro j f low high there
        exact (quiet j f low high there).1
      · intro j f low high there now consumes
        exact (quiet j f low high there).2 state now consumes rfl
    · rintro ⟨i,stored,latest,inTime,unused⟩
      exact (consume_succeeds run clock here rfl latest inTime unused).2
  · intro i p q first second
    have notSooner := uses_not_again run first second
    have notLater := uses_not_again run second first
    omega
  · intro p before state now _ refused token
    rw [OAuthStateStore.consumeAt_refused refused]
    exact OAuthStateStore.lookup_retainLive
  · intro p before token state now here
    have same := (tracks_at run here).sameCapacity
    rw [← same]
    exact OAuthStateStore.storeAt_refused

def begun (client : UInt8) : OAuthState := ⟨['t'],.filled 16 client⟩

/-- In a full store, a login is answered for another client, then completed and replayed. -/
def login : List Event × OAuthStateStore :=
  play step [.store ['t'] (begun 1) 0,.store ['u'] ⟨['u'],.filled 16 1⟩ 1,.consume (begun 2) 2,
    .consume (begun 1) 3,.consume (begun 1) 4] (.withLimits 10 1 100 Nat.one_pos)

theorem replayed_login_refused :
    (∃ before, login.1[3]? = some (before,.consume (begun 1) 3) ∧
      (before.consumeAt (begun 1) 3).1 = true) ∧
      (∀ i p q, Uses login.1 i p → Uses login.1 i q → p = q) ∧
        login.2.entries.entries.length ≤ 1 := by
  have run : Plays step (.withLimits 10 1 100 Nat.one_pos) login.1 login.2 := plays_play _ _ _
  have clock : (login.1.map (·.2.now)).Pairwise (· ≤ ·) := by decide
  obtain ⟨exactly,once,_,_,bounded⟩ := oauth_state_used_once run clock
  refine ⟨⟨_,rfl,?_⟩,once,bounded⟩
  refine (exactly 3 _ _ 3 rfl).mpr ⟨0,0,⟨by decide,⟨_,rfl,rfl,by decide +kernel⟩,?_⟩,by decide,?_⟩
  · intro j f low high there
    obtain rfl | rfl : j = 1 ∨ j = 2 := by omega
    all_goals
      cases there
      nofun
  · intro j f low high there
    obtain rfl | rfl : j = 1 ∨ j = 2 := by omega
    all_goals
      cases there
      nofun

end

end OpenSecret.OauthStates

import OpenSecret.Caches.RequestPath

/-!
Idle sessions end. Over every history of requests, key exchanges, maintenance and
dropped leases, an expired session is acquired only under leases that reach back
before its expiry, and only an admitted request puts the expiry off.
-/
namespace OpenSecret.LeaseAware
open List
open Interleaving (Prog)
open Locking (section_within section_mono)
open Traces (Timeline timeline_invariant)

variable {α β : Type} {codec : Codec} {request : SessionRequest}
  {held : List SessionLease} {id : Uuid}

/-- Whatever the answers, every touch is allowed by the leases held at that point
    of the path. -/
def Path.Safe (allowed : List SessionLease → Uuid → Prop) (post : α → List SessionLease → Prop) :
    Path α → List SessionLease → Prop
  | .done a, held => post a held
  | .acquire id next, held => (next none).Safe allowed post held ∧
    ∀ lease : SessionLease, lease.key = id →
      (next (some lease.value)).Safe allowed post (lease :: held)
  | .touch id next, held => allowed held id ∧ ∀ touched, (next touched).Safe allowed post held
  | .release next, held => next.Safe allowed post held.tail

theorem safe_bind {allowed : List SessionLease → Uuid → Prop} {mid : α → List SessionLease → Prop}
    {post : β → List SessionLease → Prop} {p : Path α} {f : α → Path β}
    (safe : p.Safe allowed mid held)
    (rest : ∀ a after, mid a after → (f a).Safe allowed post after) :
    (p >>= f).Safe allowed post held := by
  induction p generalizing held with
  | done a => exact rest a held safe
  | acquire id next ih => exact ⟨ih none safe.1,fun lease key => ih _ (safe.2 lease key)⟩
  | touch id next ih => exact ⟨safe.1,fun touched => ih touched (safe.2 touched)⟩
  | release next ih => exact ih safe

/-- The request holds a lease on this session, and it is bodyless or its body
    decrypts under the key of that very session. -/
def SessionRequest.Admits (codec : Codec) (request : SessionRequest) (held : List SessionLease)
    (id : Uuid) : Prop :=
  request.sessionId = some id ∧ ∃ lease ∈ held, lease.key = id ∧
    (request.bodyless = true ∨ request.Decrypts codec lease.value)

theorem admits_cons {lease : SessionLease} (admits : request.Admits codec held id) :
    request.Admits codec (lease :: held) id := by
  obtain ⟨named,other,mem,key,proof⟩ := admits
  exact ⟨named,other,mem_cons_of_mem _ mem,key,proof⟩

theorem safe_acquireSession {allowed : List SessionLease → Uuid → Prop} :
    (acquireSession id).Safe allowed (fun result after => match result with
      | .error _ => after = held
      | .ok session => ∃ lease : SessionLease, lease.key = id ∧ lease.value = session ∧
        after = lease :: held) held :=
  ⟨rfl,fun lease key => ⟨lease,key,rfl,rfl⟩⟩

theorem safe_touchSession (admits : request.Admits codec held id) :
    (touchSession id).Safe (request.Admits codec) (fun _ after => after = held) held :=
  ⟨admits,fun _ => rfl⟩

theorem safe_encryptSessionData {data : Framing.Bytes} {nonce : Nonce}
    (admits : request.Admits codec held id) :
    (encryptSessionData codec id data nonce).Safe (request.Admits codec)
      (fun _ after => after = held) held := by
  refine safe_bind safe_acquireSession fun acquired after leased => ?_
  cases acquired with
  | error e => exact leased
  | ok session =>
    obtain ⟨lease,_,_,rfl⟩ := leased
    dsimp only
    split
    · rfl
    · refine safe_bind (safe_touchSession (admits_cons admits)) fun touched after same => ?_
      rw [same]
      rfl

theorem safe_handler (handler : Handler) (admits : request.Admits codec held id) :
    (handler.run codec id).Safe (request.Admits codec) (fun _ _ => True) held := by
  induction handler with
  | respond => trivial
  | encrypt data nonce next ih =>
    refine safe_bind (safe_encryptSessionData admits) fun result after same => ?_
    rw [same]
    exact ih result

theorem safe_decryptSessionData {session : SessionState} {encrypted : Framing.Text}
    (admits : ∀ plaintext, openSessionData codec session encrypted = .ok plaintext →
      request.Admits codec held id) :
    (decryptSessionData codec id session encrypted).Safe (request.Admits codec)
      (fun result after => after = held ∧ ∀ plaintext, result = .ok plaintext →
        request.Admits codec held id) held := by
  unfold decryptSessionData
  cases opened : openSessionData codec session encrypted with
  | error e => exact ⟨rfl,nofun⟩
  | ok plaintext =>
    have admitted := admits plaintext opened
    refine safe_bind (safe_touchSession admitted) fun touched after same => ?_
    cases touched with
    | error e => exact ⟨same,nofun⟩
    | ok _ => exact ⟨same,fun _ _ => admitted⟩

theorem safe_decryptRequest (codec : Codec) (request : SessionRequest) :
    (decryptRequest codec request).Safe (request.Admits codec) (fun _ _ => True) [] := by
  unfold decryptRequest
  split
  · trivial
  rename_i id named
  split
  · rename_i bodyless
    refine safe_bind safe_acquireSession fun acquired after leased => ?_
    cases acquired with
    | error e => trivial
    | ok session =>
      obtain ⟨lease,key,_,rfl⟩ := leased
      have admits : request.Admits codec [lease] id :=
        ⟨named,lease,mem_singleton_self _,key,.inl bodyless⟩
      refine safe_bind (safe_touchSession admits) fun touched after same => ?_
      cases touched with
      | error e => trivial
      | ok _ =>
        rw [same]
        exact safe_handler _ admits
  split
  · trivial
  rename_i bytes read
  split
  · trivial
  rename_i encrypted parsed
  refine safe_bind safe_acquireSession fun acquired after leased => ?_
  cases acquired with
  | error e => trivial
  | ok session =>
    obtain ⟨lease,key,rfl,rfl⟩ := leased
    have admits : ∀ plaintext, openSessionData codec lease.value encrypted = .ok plaintext →
        request.Admits codec [lease] id := fun plaintext opened =>
      ⟨named,lease,mem_singleton_self _,key,.inr ⟨bytes,encrypted,plaintext,read,parsed,opened⟩⟩
    refine safe_bind (safe_decryptSessionData admits) fun result after decrypted => ?_
    cases result with
    | error e => trivial
    | ok plaintext =>
      obtain ⟨rfl,admitted⟩ := decrypted
      dsimp only
      split
      · exact safe_handler _ (admitted plaintext rfl)
      · trivial

section
variable {c d : Service} {label : Label} {call : Request Uuid SessionState} {reply : Reply Uuid}
  {w : World Uuid SessionState} {ttl : Nat}

theorem calls_section (ran : c.Calls call reply w) :
    Locking.Section Dropped (serve call) c.world reply w :=
  section_mono (fun dropped => dropped.1) ran

def Outlasts (held : List SessionLease) (w v : World Uuid SessionState) : Prop :=
  held.Subperm w.leases → held.Subperm v.leases

theorem outlasts_allows (held : List SessionLease) : Allows (Outlasts held) := by
  refine ⟨fun key w owned => ?_,fun key w owned => ?_,fun _ _ _ _ => id,fun key slot w owned => ?_,
    fun _ _ _ => id⟩
  · unfold World.evict
    split <;> exact owned
  · unfold World.retire
    split <;> exact owned
  · unfold World.takeLease
    split
    · exact owned
    · split
      · exact owned.trans (sublist_cons_self _ _).subperm
      · exact owned

theorem calls_owned (owned : c.held.Subperm c.world.leases) (ran : c.Calls call reply w) :
    c.held.Subperm w.leases := by
  have outlasts : Outlasts c.held c.world w :=
    section_within (fun _ => id) (fun first second => second ∘ first) (fun dropped _ => dropped.2)
      (serve_confined (outlasts_allows c.held) call) ran
  exact outlasts owned

theorem step_calls (step : Step codec c label d) :
    (label = .silent ∧ d.clock = c.clock ∧
      (d.world = c.world ∨ DroppedBeside c.held c.world d.world)) ∨
    ∃ caller call reply, label = .called caller call reply ∧ c.Calls call reply d.world ∧
      c.clock ≤ d.clock ∧ ∀ now, call.time = some now → d.clock = now := by
  cases step with
  | arrive => exact .inl ⟨rfl,rfl,.inl rfl⟩
  | acquire running later ran =>
    exact .inr ⟨_,_,_,rfl,ran,later,fun _ read => Option.some.inj read⟩
  | refuse running later ran =>
    exact .inr ⟨_,_,_,rfl,ran,later,fun _ read => Option.some.inj read⟩
  | touch running later ran => exact .inr ⟨_,_,_,rfl,ran,later,fun _ read => Option.some.inj read⟩
  | panic running later ran => exact .inr ⟨_,_,_,rfl,ran,later,fun _ read => Option.some.inj read⟩
  | release => exact .inl ⟨rfl,rfl,.inl rfl⟩
  | leave => exact .inl ⟨rfl,rfl,.inl rfl⟩
  | store later ran => exact .inr ⟨_,_,_,rfl,ran,later,fun _ read => Option.some.inj read⟩
  | maintain maintenance ran =>
    refine .inr ⟨_,_,_,rfl,ran,le_rfl,fun now read => ?_⟩
    rw [maintenance] at read
    cases read
  | drop dropped => exact .inl ⟨rfl,rfl,.inr dropped⟩

theorem step_owned (step : Step codec c label d) (owned : c.held.Subperm c.world.leases) :
    d.held.Subperm d.world.leases := by
  cases step with
  | arrive => simpa [Service.held] using owned
  | @acquire before after request held id next now w lease running later ran key new =>
    refine Subperm.trans (List.Perm.subperm ?_) new
    simp only [Service.held, running, flatMap_append, flatMap_cons]
    exact perm_middle
  | refuse running later ran =>
    have outlasts := calls_owned owned ran
    simpa [Service.held, running] using outlasts
  | touch running later ran =>
    have outlasts := calls_owned owned ran
    simpa [Service.held, running] using outlasts
  | panic running later ran =>
    refine Subperm.trans (List.Sublist.subperm ?_) (calls_owned owned ran)
    simp [Service.held, running]
  | release running =>
    refine Subperm.trans (List.Sublist.subperm ?_) owned
    simp only [Service.held, running, flatMap_append, flatMap_cons]
    exact ((tail_sublist _).append_right _).append_left _
  | leave running =>
    refine Subperm.trans (List.Sublist.subperm ?_) owned
    simp [Service.held, running]
  | store later ran =>
    have outlasts := calls_owned owned ran
    exact outlasts
  | maintain maintenance ran =>
    have outlasts := calls_owned owned ran
    exact outlasts
  | drop dropped => exact dropped.2

theorem step_touch {caller : Option SessionRequest} {key : Uuid} {now : Nat}
    (step : Step codec c (.called caller (.touch key now) reply) d) :
    ∃ request held next, caller = some request ∧ ⟨request,held,.touch key next⟩ ∈ c.clients := by
  cases step with
  | touch running => exact ⟨_,_,_,rfl,running ▸ mem_append_right _ mem_cons_self⟩
  | panic running => exact ⟨_,_,_,rfl,running ▸ mem_append_right _ mem_cons_self⟩
  | maintain maintenance => cases maintenance

def Service.Admitting (codec : Codec) (c : Service) : Prop :=
  ∀ client ∈ c.clients, client.rest.Safe (client.request.Admits codec) (fun _ _ => True) client.held

theorem admitting_replace {before after : List Client} {old new : Client}
    (admitting : c.Admitting codec) (running : c.clients = before ++ old :: after)
    (moved : new.rest.Safe (new.request.Admits codec) (fun _ _ => True) new.held) :
    ∀ client ∈ before ++ new :: after,
      client.rest.Safe (client.request.Admits codec) (fun _ _ => True) client.held := by
  intro client mem
  rcases mem_append.mp mem with old | last
  · exact admitting client (by rw [running]; exact mem_append_left _ old)
  · rcases mem_cons.mp last with rfl | old
    · exact moved
    · exact admitting client (by rw [running]; simp [old])

theorem step_admitting (step : Step codec c label d) (admitting : c.Admitting codec) :
    d.Admitting codec := by
  have running_safe : ∀ {before after : List Client} {client : Client},
      c.clients = before ++ client :: after →
      client.rest.Safe (client.request.Admits codec) (fun _ _ => True) client.held :=
    fun running => admitting _ (by rw [running]; simp)
  have fewer : ∀ {before after : List Client} {client : Client},
      c.clients = before ++ client :: after → ∀ other ∈ before ++ after,
      other.rest.Safe (other.request.Admits codec) (fun _ _ => True) other.held :=
    fun running other mem => admitting other (by rw [running]; grind)
  cases step with
  | arrive request =>
    intro client mem
    rcases mem_append.mp mem with old | new
    · exact admitting client old
    · rw [mem_singleton.mp new]
      exact safe_decryptRequest codec request
  | @acquire before after request held id next now w lease running later ran key new =>
    exact admitting_replace admitting running ((running_safe running).2 lease key)
  | refuse running => exact admitting_replace admitting running (running_safe running).1
  | @touch before after request held id next now touched w running =>
    exact admitting_replace admitting running ((running_safe running).2 touched)
  | panic running => exact fewer running
  | release running =>
    have safe := running_safe running
    exact admitting_replace admitting running safe
  | leave running => exact fewer running
  | store => exact admitting
  | maintain => exact admitting
  | drop => exact admitting

structure Orderly (codec : Codec) (ttl : Nat) (c : Service) : Prop where
  sound : Sound c.world
  distinct : c.world.Distinct
  idle : c.world.cache.ttl = ttl
  owned : c.held.Subperm c.world.leases
  admitting : c.Admitting codec
  recent : ∀ {key entry}, c.world.cache.entries.peek key = some entry →
    entry.expiresAt ≤ c.clock + ttl

theorem new_orderly (codec : Codec) (capacity : Nat) (positive : 0 < capacity)
    (ttl lastInstant clock : Nat) :
    Orderly codec ttl (.new capacity positive ttl lastInstant clock) :=
  ⟨new_sound capacity positive ttl lastInstant,nodup_nil,rfl,nil_subperm,nofun,nofun⟩

theorem step_orderly (step : Step codec c label d) (orderly : Orderly codec ttl c) :
    Orderly codec ttl d := by
  have owned := step_owned step orderly.owned
  have admitting := step_admitting step orderly.admitting
  rcases step_calls step with ⟨_,clock,same | dropped⟩ | ⟨_,call,reply,_,ran,later,read⟩
  · refine ⟨?_,?_,?_,owned,admitting,?_⟩
    · exact same ▸ orderly.sound
    · exact same ▸ orderly.distinct
    · exact same ▸ orderly.idle
    · rw [same, clock]
      exact orderly.recent
  · refine ⟨dropped_sound dropped.1 orderly.sound,
      dropped_distinct dropped.1 orderly.distinct,?_,owned,
      admitting,?_⟩
    · rw [dropped_cache dropped.1]
      exact orderly.idle
    · rw [dropped_cache dropped.1, clock]
      exact orderly.recent
  · have ran' := calls_section ran
    have effect := served_effect orderly.sound orderly.distinct ran'
    refine ⟨served_sound orderly.sound ran',served_distinct orderly.sound orderly.distinct ran',
      effect.ttl.trans orderly.idle,owned,admitting,fun {key entry} here => ?_⟩
    rcases effect.entries here with old | ⟨now,before,rfl,_,_,rfl⟩ | ⟨value,now,rfl,_,expires⟩
    · have recent := orderly.recent old
      omega
    · have clock := read now rfl
      rw [orderly.idle, clock]
    · have clock := read now rfl
      rw [expires, orderly.idle, clock]

end

/-- Newest state first: the session is leased, and it was so in every state back to
    one from before the expiry. The states are those between calls; a call that has
    seen a lease may still be taking its own when that one is dropped. -/
def HeldSinceBefore (expiry : Nat) (key : Uuid) : List Service → Prop
  | [] => False
  | c :: older => c.world.Leased key ∧ (c.clock < expiry ∨ HeldSinceBefore expiry key older)

section
variable {c d : Service} {older : List Service} {label : Label} {key : Uuid} {ttl : Nat}

variable {states : List Service}

theorem held_mono {expiry later : Nat} (le : expiry ≤ later)
    (held : HeldSinceBefore expiry key states) : HeldSinceBefore later key states := by
  induction states with
  | nil => exact held
  | cons c older ih =>
    refine ⟨held.1,?_⟩
    rcases held.2 with before | back
    · exact .inl (by omega)
    · exact .inr (ih back)

/-- The leases on every leased session reach back before its expiry. -/
def Rooted (states : List Service) : Prop :=
  ∀ c older, states = c :: older → ∀ key entry, c.world.cache.entries.peek key = some entry →
    c.world.Leased key → HeldSinceBefore entry.expiresAt key states

theorem leased_resident {w : World Uuid SessionState} (sound : Sound w) (leased : w.Leased key) :
    ∃ entry, w.cache.entries.peek key = some entry := by
  obtain ⟨lease,mem,rfl⟩ := leased
  obtain ⟨⟨entry,here,_⟩,_⟩ := sound.backed lease mem
  exact ⟨entry,here⟩

/-- A session that is leased after a step was resident before it, with no later
    expiry; it was leased before, or the step acquired it in time. -/
theorem step_leased (orderly : Orderly codec ttl c) (step : Step codec c label d)
    {entry : CachedValue} (here : d.world.cache.entries.peek key = some entry)
    (leased : d.world.Leased key) :
    d.clock < entry.expiresAt ∨ c.world.Leased key ∧
      ∃ old, c.world.cache.entries.peek key = some old ∧ old.expiresAt ≤ entry.expiresAt := by
  rcases step_calls step with ⟨_,_,same | dropped⟩ | ⟨_,call,reply,_,ran,later,read⟩
  · rw [same] at here leased
    exact .inr ⟨leased,entry,here,le_rfl⟩
  · have onward := dropped_onward dropped.1
    exact .inr ⟨onward.leases leased,entry,onward.entries here,le_rfl⟩
  have effect := served_effect orderly.sound orderly.distinct (calls_section ran)
  rcases effect.leases leased with before | ⟨now,old,rfl,resident,live⟩
  · refine .inr ⟨before,?_⟩
    rcases effect.entries here with old | ⟨now,old,rfl,_,resident,rfl⟩ | ⟨_,_,_,absent,_⟩
    · exact ⟨entry,old,le_rfl⟩
    · have recent := orderly.recent resident
      have clock := read now rfl
      refine ⟨old,resident,?_⟩
      show old.expiresAt ≤ now + c.world.cache.ttl
      rw [orderly.idle]
      omega
    · obtain ⟨old,resident⟩ := leased_resident orderly.sound before
      rw [absent] at resident
      cases resident
  · left
    rw [read now rfl]
    rcases effect.entries here with same | ⟨_,_,other,_⟩ | ⟨_,_,other,_⟩
    · rw [resident] at same
      cases same
      exact live
    · cases other
    · cases other

theorem step_rooted (orderly : Orderly codec ttl c) (step : Step codec c label d)
    (rooted : Rooted (c :: older)) : Rooted (d :: c :: older) := by
  intro _ _ same key entry here leased
  cases same
  refine ⟨leased,?_⟩
  rcases step_leased orderly step here leased with live | ⟨before,old,resident,le⟩
  · exact .inl live
  · exact .inr (held_mono le (rooted c older rfl key old resident before))

theorem timeline_orderly {capacity lastInstant clock : Nat} {positive : 0 < capacity}
    (run : Timeline (Step codec) (.new capacity positive ttl lastInstant clock) states) :
    (∀ c ∈ states.head?, Orderly codec ttl c) ∧ Rooted states := by
  refine timeline_invariant (fun states => (∀ c ∈ states.head?, Orderly codec ttl c) ∧
    Rooted states)
    ⟨?_,?_⟩ ?_ run
  · rintro c first
    cases first
    exact new_orderly codec capacity positive ttl lastInstant clock
  · intro _ _ same key entry here
    cases same
    cases here
  · rintro older c label d ⟨orderly,rooted⟩ step
    have here := orderly c rfl
    refine ⟨?_,step_rooted here step rooted⟩
    rintro d' first
    cases first
    exact step_orderly step here

end

def World.session (w : World Uuid SessionState) (key : Uuid) : Option SessionState :=
  (w.cache.entries.peek key).bind fun entry => (w.slots[entry.slot]?).map LeaseSlot.value

/-- In every history: a session is acquired before its expiry, or under leases
    without a gap since before it; an entry that stays keeps its expiry, unless a
    request touches it; and a request touches only a session it holds a lease on,
    if it is bodyless or its body decrypts under the key of that session. -/
theorem idle_sessions_expire {codec : Codec} {capacity ttl lastInstant clock : Nat}
    {positive : 0 < capacity} {c d : Service} {older : List Service} {label : Label}
    (run : Timeline (Step codec) (.new capacity positive ttl lastInstant clock) (c :: older))
    (step : Step codec c label d) :
    (∀ caller key now, label = .called caller (.acquire key now) (.acquired true) →
      ∃ entry, c.world.cache.entries.peek key = some entry ∧
        (now < entry.expiresAt ∨ HeldSinceBefore entry.expiresAt key (c :: older))) ∧
    (∀ key entry entry', c.world.cache.entries.peek key = some entry →
      d.world.cache.entries.peek key = some entry' → entry' = entry ∨
        ∃ request now, label = .called (some request) (.touch key now) (.touched (.ok true)) ∧
          entry' = ⟨entry.slot,now + ttl⟩) ∧
    (∀ caller key now reply, label = .called caller (.touch key now) reply →
      ∃ request session, caller = some request ∧ request.sessionId = some key ∧
        c.world.session key = some session ∧ c.world.Leased key ∧
        (request.bodyless = true ∨ request.Decrypts codec session)) := by
  obtain ⟨orderlies,rooted⟩ := timeline_orderly run
  have orderly := orderlies c rfl
  refine ⟨?_,?_,?_⟩
  · rintro caller key now rfl
    rcases step_calls step with ⟨called,_⟩ | ⟨_,call,reply,called,ran,_⟩
    · cases called
    cases called
    have effect := served_effect orderly.sound orderly.distinct (calls_section ran)
    obtain ⟨entry,here,granted⟩ := effect.acquired rfl rfl
    exact ⟨entry,here,granted.imp_right (rooted c older rfl key entry here)⟩
  · intro key entry entry' before after
    rcases step_calls step with ⟨_,_,same | dropped⟩ | ⟨caller,call,reply,called,ran,_⟩
    · rw [same, before] at after
      exact .inl (Option.some.inj after).symm
    · rw [dropped_cache dropped.1, before] at after
      exact .inl (Option.some.inj after).symm
    have effect := served_effect orderly.sound orderly.distinct (calls_section ran)
    rcases effect.entries after with old | ⟨now,old,rfl,rfl,resident,rfl⟩ | ⟨_,_,_,absent,_⟩
    · rw [before] at old
      exact .inl (Option.some.inj old).symm
    · rw [before] at resident
      cases resident
      subst called
      obtain ⟨request,_,_,rfl,_⟩ := step_touch step
      exact .inr ⟨request,now,rfl,by rw [orderly.idle]⟩
    · rw [before] at absent
      cases absent
  · rintro caller key now reply rfl
    obtain ⟨request,held,next,rfl,mem⟩ := step_touch step
    obtain ⟨⟨named,lease,holds,rfl,proof⟩,_⟩ := orderly.admitting _ mem
    have leased : lease ∈ c.world.leases :=
      orderly.owned.subset (mem_flatMap.mpr ⟨_,mem,holds⟩)
    obtain ⟨⟨entry,here,slot⟩,_,at_,value⟩ := orderly.sound.backed lease leased
    refine ⟨request,lease.value,rfl,named,?_,⟨lease,leased,rfl⟩,proof⟩
    rw [World.session, here, Option.bind_some, slot, at_, Option.map_some, value]

def sampleId : Uuid := .filled 16 1

def sampleCodec : Codec := ⟨fun _ => none,fun _ => none,fun _ _ _ => none,fun _ _ _ => none⟩

/-- A request without a body whose handler sends nothing. -/
def bodylessRequest : SessionRequest := ⟨some sampleId,true,none,fun _ => false,fun _ => .respond⟩

def sampleSession : SessionState := ⟨.filled 32 0⟩

def emptyService : Service := .new 2 (by decide) 10 100 0

def sessionStored : World Uuid SessionState :=
  (Locking.alone (serve (.insert sampleId sampleSession 0)) emptyService.world).2

def sessionLeased : World Uuid SessionState :=
  (Locking.alone (serve (.acquire sampleId 5)) sessionStored).2

def afterAcquire : Path (Except ApiError Unit) :=
  match decryptRequest sampleCodec bodylessRequest with
  | .acquire _ next => next (some sampleSession)
  | path => path

def twoRequests : Service :=
  ⟨sessionLeased,5,[⟨bodylessRequest,[⟨0,sampleId,sampleSession,false⟩],afterAcquire⟩,
    ⟨bodylessRequest,[],decryptRequest sampleCodec bodylessRequest⟩]⟩

/-- The session expires at 10. It is acquired at 20 since a request that came at 5
    has not ended. -/
theorem expired_session_acquired_beside_lease : ∃ d older,
    Timeline (Step sampleCodec) emptyService (twoRequests :: older) ∧
    Step sampleCodec twoRequests
      (.called (some bodylessRequest) (.acquire sampleId 20) (.acquired true)) d ∧
    HeldSinceBefore 10 sampleId (twoRequests :: older) := by
  have first : Timeline (Step sampleCodec) emptyService [emptyService] := .start
  have stored := first.step (.store (Nat.le_refl 0)
    (show emptyService.Calls (.insert sampleId sampleSession 0) _ sessionStored from
      Locking.section_alone _ _))
  have arrived := stored.step (.arrive bodylessRequest)
  have leased := arrived.step (.acquire (show _ = [] ++ _ :: [] from rfl) (by decide)
    (show Service.Calls _ (.acquire sampleId 5) (.acquired true) sessionLeased from
      Locking.section_alone _ _)
    (show (⟨0,sampleId,sampleSession,false⟩ : SessionLease).key = _ from rfl) (Subperm.refl _))
  have second : Timeline (Step sampleCodec) emptyService (twoRequests :: _) :=
    leased.step (.arrive bodylessRequest)
  obtain ⟨d,acquired⟩ : ∃ d, Step sampleCodec twoRequests
      (.called (some bodylessRequest) (.acquire sampleId 20) (.acquired true)) d :=
    ⟨_,.acquire (show _ = [_] ++ _ :: [] from rfl) (by decide)
      (show twoRequests.Calls (.acquire sampleId 20) (.acquired true)
        _ from Locking.section_alone _ _)
      (show (⟨0,sampleId,sampleSession,false⟩ : SessionLease).key = _ from rfl)
        (Subperm.refl _)⟩
  obtain ⟨entry,here,early | held⟩ :=
    (idle_sessions_expire second acquired).1 (some bodylessRequest) sampleId 20 rfl
  · cases here
    exact absurd early (by decide)
  · cases here
    exact ⟨d,_,second,acquired,held⟩

end OpenSecret.LeaseAware

import OpenSecret.Credentials.Transactions

/-!
What a handler knows between two database calls. Anything may happen there, so
it can only know what stays true as the journal grows; such a statement is a
`Fact`. `Keeps` says that a handler keeps the invariant on every path and what
it knows at the end.
-/
namespace OpenSecret
open Framing Chronicle Interleaving List

structure Fact where
  holds : World → Prop
  grows : ∀ {s t}, Later s t → holds s → holds t

namespace Fact

def always (p : Prop) : Fact := ⟨fun _ => p,fun _ h => h⟩

def and (a b : Fact) : Fact :=
  ⟨fun w => a.holds w ∧ b.holds w,fun later h => ⟨a.grows later h.1,b.grows later h.2⟩⟩

def anyOf {α : Type} (f : α → Fact) : Fact :=
  ⟨fun w => ∃ a, (f a).holds w,fun later ⟨a,h⟩ => ⟨a,(f a).grows later h⟩⟩

/-- Whatever satisfies the condition, the fact holds of it. -/
def allOf {α : Type} (condition : α → Prop) (f : α → Fact) : Fact :=
  ⟨fun w => ∀ a, condition a → (f a).holds w,fun later h a met => (f a).grows later (h a met)⟩

def logged (event : Event) : Fact := ⟨fun w => event ∈ w.journal,fun later h => later.1.mem h⟩

def after (base : List Event) : Fact :=
  ⟨fun w => base <:+ w.journal,fun later h => h.trans later.1⟩

def read (S : AppState) (user : User) : Fact :=
  ⟨fun w => Untampered w.journal → .created user.account ∈ w.journal ∧
      ∀ passwordEnc, user.passwordEnc = some passwordEnc → ∃ verifier cause held,
        decryptVerifier S passwordEnc = .ok verifier ∧
        .stored cause (passwordFacts user verifier) held ∈ w.journal,
    by
      intro s t later h untampered
      obtain ⟨made,password⟩ := h (untampered.suffix later.1)
      refine ⟨later.1.mem made,fun passwordEnc has => ?_⟩
      obtain ⟨verifier,cause,held,opens,stored⟩ := password passwordEnc has
      exact ⟨verifier,cause,held,opens,later.1.mem stored⟩⟩

def listed (provider : OAuthProvider) : Fact :=
  ⟨fun w => Untampered w.journal → provider ∈ w.db.providers,
    fun later h untampered => by
      rw [later.2 untampered]
      exact h (untampered.suffix later.1)⟩

/-- Ideal signatures: a token of this request that verifies was signed here. -/
def unforged (S : AppState) (token? : Option Text) : Fact :=
  ⟨fun w => ∀ token claims, token? = some token → S.es256kValidate token = some claims →
      .signed claims ∈ w.journal,
    fun later h token claims given verified => later.1.mem (h token claims given verified)⟩

end Fact

/-- The discipline, with facts as pre- and postconditions. -/
def Keeps (S : AppState) {ε α : Type} (pre : Fact) (x : Action ε α) (post : α → Fact) : Prop :=
  (discipline S).Ensures pre.holds x (fun a => (post a).holds)

section
variable {S : AppState} {ε ε' α β : Type} {pre : Fact} {x : Action ε α} {post mid : α → Fact}

variable {e : ε} {r : Outcome ε α} {fact : α → Fact} {view : Database → Option α}

theorem keeps_bind {f : α → Action ε β} {after : β → Fact} (first : Keeps S pre x mid)
    (rest : ∀ a, Keeps S (mid a) (f a) after) : Keeps S pre (x >>= f) after :=
  (discipline S).ensures_bind first rest

theorem keeps_pure {a : α} (imp : ∀ w, Invariant S w → pre.holds w → (post a).holds w) :
    Keeps S pre (pure a : Action ε α) post :=
  (discipline S).ensures_pure imp

theorem keeps_map {f : α → β} {after : β → Fact} (h : Keeps S pre x (fun a => after (f a))) :
    Keeps S pre (f <$> x) after :=
  (discipline S).ensures_map h

theorem keeps_fail : Keeps S pre (fail e : Action ε α) post := (discipline S).ensures_throw

theorem keeps_strengthen {strong : Fact} (imp : ∀ w, Invariant S w → strong.holds w → pre.holds w)
    (h : Keeps S pre x post) : Keeps S strong x post :=
  (discipline S).ensures_strengthen imp h

theorem keeps_weaken {other : α → Fact}
    (imp : ∀ a w, Invariant S w → (post a).holds w → (other a).holds w) (h : Keeps S pre x post) :
    Keeps S pre x other :=
  (discipline S).ensures_weaken imp h

theorem keeps_onError {f : ε → ε'} (h : Keeps S pre x post) : Keeps S pre (onError f x) post :=
  (discipline S).ensures_mapError h

theorem keeps_given {p : Prop} (h : p → Keeps S pre x post) :
    Keeps S (pre.and (.always p)) x post :=
  fun w holds => h holds.2.2 w ⟨holds.1,holds.2.1⟩

theorem keeps_settle :
    Keeps S pre (settle r : Action ε α) (fun a => pre.and (.always (r = .ok a))) :=
  (discipline S).ensures_settle fun _ _ _ held same => ⟨held,same⟩

variable {after : β → Fact} {f : α → Action ε β}

theorem keeps_settle_bind (rest : ∀ a, r = .ok a → Keeps S pre (f a) after) :
    Keeps S pre (settle r >>= f) after :=
  keeps_bind keeps_settle fun a => keeps_given (rest a)

theorem keeps_checked_bind {r : Except ε α} (rest : ∀ a, r = .ok a → Keeps S pre (f a) after) :
    Keeps S pre (checked r >>= f) after := by
  refine keeps_settle_bind fun a same => rest a ?_
  cases r with
  | ok b => exact congrArg Except.ok (Except.ok.inj same)
  | error e => cases same

theorem keeps_orFail_bind {o : Option α}
    (rest : ∀ a, o = some a → Keeps S pre (f a) after) : Keeps S pre (orFail e o >>= f) after := by
  cases o with
  | none => exact (keeps_fail : Keeps S pre (fail e : Action ε β) after)
  | some a => exact rest a rfl

theorem keeps_require_bind {condition : Bool} {next : Unit → Action ε β}
    (rest : condition = true → Keeps S pre (next ()) after) :
    Keeps S pre (require condition e >>= next) after := by
  cases condition with
  | true => exact rest rfl
  | false => exact (keeps_fail : Keeps S pre (fail e : Action ε β) after)

theorem keeps_query {view : Database → α}
    (sees : ∀ w, Invariant S w → pre.holds w → (fact (view w.db)).holds w) :
    Keeps S pre (query view : Action ε α) (fun a => pre.and (fact a)) :=
  (discipline S).ensures_inspect (fun _ _ later => pre.grows later)
    fun w inv held => ⟨held,sees w inv held⟩

theorem keeps_query_bind {view : Database → α} (rest : ∀ a, Keeps S pre (f a) after) :
    Keeps S pre (query view >>= f) after := by
  have seen : Keeps S pre (query view : Action ε α) (fun _ => pre.and (.always True)) :=
    keeps_query fun _ _ _ => trivial
  exact keeps_bind seen fun a => keeps_given fun _ => rest a

theorem keeps_some {view : Database → Option α} (rest : ∀ a, Keeps S pre (f a) after) :
    Keeps S pre (query view >>= fun found => orFail e found >>= f) after :=
  keeps_query_bind fun _ => keeps_orFail_bind fun a _ => rest a

theorem keeps_lookup
    (sees : ∀ w a, Invariant S w → pre.holds w → view w.db = some a → (fact a).holds w) :
    Keeps S pre (query view : Action ε (Option α))
      (fun found => pre.and (found.elim (.always True) fact)) := by
  refine keeps_query fun w inv held => ?_
  cases same : view w.db with
  | none => trivial
  | some a => exact sees w a inv held same

theorem keeps_find
    (sees : ∀ w a, Invariant S w → pre.holds w → view w.db = some a → (fact a).holds w)
    (rest : ∀ a, Keeps S (pre.and (fact a)) (f a) after) :
    Keeps S pre (query view >>= fun found => orFail e found >>= f) after := by
  refine keeps_bind (keeps_lookup sees) fun found => keeps_orFail_bind fun a same => ?_
  subst same
  exact rest a

theorem keeps_found
    (sees : ∀ w a, Invariant S w → pre.holds w → view w.db = some a → (fact a).holds w) :
    Keeps S pre (query view >>= fun found => orFail e found) (fun a => pre.and (fact a)) := by
  refine keeps_bind (keeps_lookup sees) fun found => ?_
  cases found with
  | none => exact keeps_fail
  | some a => exact keeps_pure fun _ _ held => held

theorem keeps_attempt {run : World → Outcome ε (α × World)}
    (keeps : ∀ w a w', Invariant S w → pre.holds w → run w = .ok (a,w') →
      Invariant S w' ∧ Later w w' ∧ (post a).holds w') :
    Keeps S pre (attempt run) (fun a => pre.and (post a)) := by
  refine (discipline S).ensures_attempt (fun _ _ later => pre.grows later) ?_
  intro w a w' inv held ran
  obtain ⟨inv',later,after⟩ := keeps w a w' inv held ran
  exact ⟨inv',later,pre.grows later held,after⟩

theorem keeps_ignoreError {y : Action ε Unit} {known : Unit → Fact} (h : Keeps S pre y known) :
    Keeps S pre (ignoreError y : Action ε' Unit) (fun _ => .always True) := by
  refine (discipline S).triple_bind h ?_
  intro r
  cases r with
  | ok a => exact (discipline S).triple_pure fun _ _ _ _ _ => trivial
  | error fault =>
    cases fault <;> exact (discipline S).triple_pure fun _ _ _ _ _ => trivial

end

section
variable {S : AppState} {w : World} {ε : Type} {pre : Fact} {event : Event}

/-- Checks and signatures are journalled without a change to the tables. -/
def Event.Silent : Event → Prop
  | .verified _ _ => True
  | .signed _ => True
  | _ => False

theorem Event.Silent.concerns (silent : event.Silent) : event.concerns = none := by
  cases event with
  | verified _ _ => rfl
  | signed _ => rfl
  | _ => exact silent.elim

theorem newestStored_silent (silent : event.Silent) (journal : List Event) (uuid : Uuid) :
    newestStored (event :: journal) uuid = newestStored journal uuid := by
  cases event with
  | verified _ _ => rfl
  | signed _ => rfl
  | _ => exact silent.elim

theorem Consistent.log (before : Consistent S w) (silent : event.Silent)
    (backs : Grounds w.journal event) : Consistent S (w.log [event]) := by
  have sub : w.journal <:+ event :: w.journal := suffix_cons _ _
  have earlier : ∀ {other}, other ∈ event :: w.journal → ¬ other.Silent → other ∈ w.journal :=
    fun mem loud => (mem_cons.mp mem).resolve_left fun same => loud (same ▸ silent)
  have resetEarlier : ∀ {uuid}, WasReset (event :: w.journal) uuid → WasReset w.journal uuid :=
    fun ⟨facts,seed,mem,same⟩ => ⟨facts,seed,earlier mem id,same⟩
  exact
    { backed := ⟨backs,before.backed⟩
      uuids := before.uuids
      created := fun account mem => before.created account (earlier mem id)
      journalled := fun user mem => sub.mem (before.journalled user mem)
      known := fun other mem uuid concerns => by
        refine before.known other (earlier mem fun quiet => ?_) uuid concerns
        rw [quiet.concerns] at concerns
        cases concerns
      settled := fun facts seed sealed mem facts' seed' sealed' mem' same =>
        (before.settled facts seed sealed (earlier mem id) facts' seed' sealed'
          (earlier mem' id) same).imp id (WasReset.mono · sub)
      owned := before.owned
      accounts := fun user mem => by
        obtain ⟨seed,ok⟩ := before.accounts user mem
        exact ⟨seed,ok.mono sub (newestStored_silent silent _ _)⟩
      reset := fun uuid wasReset => before.reset uuid (resetEarlier wasReset)
      connected := fun connection mem => by
        obtain ⟨user,inUsers,owns,provider,listed,sameId,row,held,kind,seed,sealed⟩ :=
          before.connected connection mem
        exact ⟨user,inUsers,owns,provider,listed,sameId,row,held,kind,seed,sub.mem sealed⟩ }

theorem Invariant.log (inv : Invariant S w) (silent : event.Silent)
    (justified : Justifies S w.journal event)
    (backs : Untampered w.journal → Grounds w.journal event) : Invariant S (w.log [event]) where
  justified := ⟨justified,inv.justified⟩
  genuine row mem := (inv.genuine row mem).mono (suffix_cons _ _)
  consistent untampered := by
    have earlier : Untampered w.journal := untampered.suffix (suffix_cons _ _)
    exact (inv.consistent earlier).log silent (backs earlier)

theorem keeps_note (silent : event.Silent)
    (justified : ∀ w, Invariant S w → pre.holds w → Justifies S w.journal event)
    (backs : ∀ w, pre.holds w → Untampered w.journal → Grounds w.journal event) :
    Keeps S pre (note event : Action ε Unit) (fun _ => pre.and (.logged event)) := by
  refine keeps_attempt fun w _ w' inv held ran => ?_
  cases ran
  exact ⟨inv.log silent (justified w inv held) (backs w held),
    ⟨suffix_cons _ _,fun _ => rfl⟩,mem_cons_self⟩

/-- An update that touches neither users nor wraps nor whom a connection serves. -/
structure Harmless (update : Database → Database) : Prop where
  users : ∀ db, (update db).users = db.users
  wraps : ∀ db, (update db).wraps = db.wraps
  providers : ∀ db, (update db).providers = db.providers
  connections : ∀ db, ∀ connection ∈ (update db).connections, ∃ old ∈ db.connections,
    old.userId = connection.userId ∧ old.providerId = connection.providerId ∧
      old.providerUserId = connection.providerUserId

theorem Consistent.update {update : Database → Database} (before : Consistent S w)
    (harmless : Harmless update) : Consistent S ⟨update w.db,w.journal⟩ := by
  have sameWraps : ∀ uuid, (update w.db).wrapsOf uuid = w.db.wrapsOf uuid := fun uuid => by
    rw [Database.wrapsOf, harmless.wraps, Database.wrapsOf]
  exact
    { backed := before.backed
      uuids := by rw [harmless.users]; exact before.uuids
      created := by rw [harmless.users]; exact before.created
      journalled := by rw [harmless.users]; exact before.journalled
      known := by rw [harmless.users]; exact before.known
      settled := before.settled
      owned := by rw [harmless.users, harmless.wraps]; exact before.owned
      accounts := by
        intro user mem
        rw [harmless.users] at mem
        rw [sameWraps]
        exact before.accounts user mem
      reset := by
        intro uuid wasReset
        rw [sameWraps]
        exact before.reset uuid wasReset
      connected := by
        intro connection mem
        obtain ⟨old,inOld,sameUser,sameProvider,sameSubject⟩ :=
          harmless.connections w.db connection mem
        obtain ⟨user,inUsers,owns,provider,listed,sameId,row,held,kind,seed,sealed⟩ :=
          before.connected old inOld
        refine ⟨user,by rw [harmless.users]; exact inUsers,owns.trans sameUser,provider,
          by rw [harmless.providers]; exact listed,sameId.trans sameProvider,row,?_,kind,seed,?_⟩
        · rw [sameWraps]; exact held
        · rw [← sameSubject]; exact sealed }

theorem keeps_write {update : Database → Database} (harmless : Harmless update) :
    Keeps S pre (write update : Action ε Unit) (fun _ => pre) := by
  have kept : Keeps S pre (write update : Action ε Unit) (fun _ => pre.and (.always True)) := by
    refine keeps_attempt fun w _ w' inv held ran => ?_
    cases ran
    refine ⟨⟨inv.justified,?_,?_⟩,⟨suffix_refl _,fun _ => harmless.providers w.db⟩,trivial⟩
    · intro row mem
      rw [harmless.wraps] at mem
      exact inv.genuine row mem
    · exact fun untampered => (inv.consistent untampered).update harmless
  refine keeps_weaken ?_ kept
  exact fun _ _ _ held => held.1

theorem updateUserOauthConnection_harmless (connection : UserOAuthConnection) :
    Harmless (·.updateUserOauthConnection connection) where
  users _ := rfl
  wraps _ := rfl
  providers _ := rfl
  connections db row mem := by
    obtain ⟨old,inOld,rfl⟩ := mem_map.mp mem
    refine ⟨old,inOld,?_⟩
    split <;> exact ⟨rfl,rfl,rfl⟩

theorem createPasswordResetRequest_harmless (user : Uuid) (secret : Text) (code : Bytes)
    (expiration : Int) : Harmless (·.createPasswordResetRequest user secret code expiration) where
  users _ := rfl
  wraps _ := rfl
  providers _ := rfl
  connections _ row mem := ⟨row,mem,rfl,rfl,rfl⟩

end

end OpenSecret

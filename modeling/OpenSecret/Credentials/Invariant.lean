import OpenSecret.Credentials.Journal
import Mathlib.Data.List.Nodup

/-!
The tables agree with the journal. `Invariant` holds of every reachable world;
its last part speaks of worlds nobody has tampered with and is what each
credential transaction has to restore.
-/
namespace OpenSecret
open Framing Chronicle Interleaving List

namespace Database

def wrapsOf (db : Database) (user : Uuid) : List UserSeedWrapping :=
  db.wraps.filter (·.userId = user)

variable {db : Database} {row new : UserSeedWrapping}

theorem mem_wrapsOf {user : Uuid} :
    row ∈ db.wrapsOf user ↔ row ∈ db.wraps ∧ row.userId = user := by
  simp [wrapsOf]

theorem getUserSeedWrappingsForUserAndKind_eq (db : Database) (user : Uuid) (kind : Text) :
    db.getUserSeedWrappingsForUserAndKind user kind =
      (db.wrapsOf user).filter (·.credentialKind = kind) := by
  simp only [getUserSeedWrappingsForUserAndKind, wrapsOf, filter_filter]
  congr 1
  funext row
  exact Bool.and_comm _ _

theorem upsertByCredential_eq (db : Database) (new : UserSeedWrapping) :
    db.upsertByCredential new = { db with wraps := (db.upsertByCredential new).wraps } := by
  unfold upsertByCredential
  split <;> rfl

theorem upsertByCredential_rows (mem : row ∈ (db.upsertByCredential new).wraps) :
    row ∈ db.wraps ∨ row.seedEnc = new.seedEnc := by
  unfold upsertByCredential at mem
  split at mem
  · obtain ⟨old,inOld,rfl⟩ := mem_map.mp mem
    split
    · exact .inr rfl
    · exact .inl inOld
  · rcases mem_append.mp mem with old | last
    · exact .inl old
    · rw [mem_singleton.mp last]; exact .inr rfl

theorem upsertByCredential_fresh (none_yet : db.wrapsOf new.userId = []) :
    db.upsertByCredential new = { db with wraps := db.wraps ++ [new] } := by
  have free : db.wraps.any (sameCredential new) = false := by
    rw [any_eq_false]
    intro row mem same
    simp only [sameCredential, Bool.and_eq_true, decide_eq_true_eq] at same
    have here : row ∈ db.wrapsOf new.userId := mem_wrapsOf.mpr ⟨mem,same.1.1.1.symm⟩
    rw [none_yet] at here
    cases here
  simp [upsertByCredential, free]

end Database

section
variable (S : AppState)

structure SealedFor (journal : List Event) (user : User) (seed : Bytes) (row : UserSeedWrapping) :
    Prop where
  version : row.wrappingVersion = seedWrapVersionV1
  sealed : ∃ facts : AuthFacts, facts.userUuid = user.uuid ∧ facts.projectId = user.projectId ∧
    row.credentialKind = facts.kind.asStr ∧ .wrapped facts seed row.seedEnc ∈ journal

def passwordRows (rows : List UserSeedWrapping) : List UserSeedWrapping :=
  rows.filter (·.credentialKind = CredentialKind.password.asStr)

/-- The only password wrap holds the seed under the verifier stored last. -/
def PasswordState (journal : List Event) (rows : List UserSeedWrapping) (user : User)
    (seed : Bytes) : Prop :=
  match user.passwordEnc with
  | none => newestStored journal user.uuid = none ∧ passwordRows rows = []
  | some passwordEnc => ∃ cause verifier row, decryptVerifier S passwordEnc = .ok verifier ∧
      newestStored journal user.uuid = some (cause,passwordFacts user verifier,seed) ∧
      passwordRows rows = [row] ∧
      .wrapped (passwordFacts user verifier) seed row.seedEnc ∈ journal

def AccountOk (journal : List Event) (rows : List UserSeedWrapping) (user : User) (seed : Bytes) :
    Prop :=
  (∀ row ∈ rows, SealedFor journal user seed row) ∧ PasswordState S journal rows user seed

def Connected (w : World) (connection : UserOAuthConnection) : Prop :=
  ∃ user ∈ w.db.users, user.uuid = connection.userId ∧
    ∃ provider ∈ w.db.providers, provider.id = connection.providerId ∧
    ∃ row ∈ w.db.wrapsOf user.uuid, row.credentialKind = CredentialKind.oauth.asStr ∧
    ∃ seed, .wrapped (oauthFacts user provider.name connection.providerUserId) seed row.seedEnc ∈
      w.journal

structure Consistent (w : World) : Prop where
  backed : Justified Grounds w.journal
  uuids : (w.db.users.map User.uuid).Nodup
  created : ∀ account, .created account ∈ w.journal → ∃ user ∈ w.db.users, user.account = account
  journalled : ∀ user ∈ w.db.users, .created user.account ∈ w.journal
  known : ∀ event ∈ w.journal, ∀ uuid, event.concerns = some uuid →
    ∃ user ∈ w.db.users, user.uuid = uuid
  settled : ∀ facts seed sealed, .wrapped facts seed sealed ∈ w.journal →
    OneSeed w.journal facts.userUuid seed
  owned : ∀ row ∈ w.db.wraps, ∃ user ∈ w.db.users, user.uuid = row.userId
  accounts : ∀ user ∈ w.db.users, ∃ seed, AccountOk S w.journal (w.db.wrapsOf user.uuid) user seed
  reset : ∀ uuid, WasReset w.journal uuid →
    ∀ row ∈ w.db.wrapsOf uuid, row.credentialKind ≠ CredentialKind.oauth.asStr
  connected : ∀ connection ∈ w.db.connections, Connected w connection

structure Invariant (w : World) : Prop where
  justified : Justified (Justifies S) w.journal
  genuine : ∀ row ∈ w.db.wraps, Genuine S w.journal row.seedEnc
  consistent : Untampered w.journal → Consistent S w

/-- The journal only grows, and only tampering changes the provider table. -/
def Later (s t : World) : Prop :=
  s.journal <:+ t.journal ∧ (Untampered t.journal → t.db.providers = s.db.providers)

def discipline : Discipline World where
  invariant := Invariant S
  frame := Later
  frame_refl _ := ⟨suffix_refl _,fun _ => rfl⟩
  frame_trans st tu := by
    refine ⟨st.1.trans tu.1,fun untampered => ?_⟩
    rw [tu.2 untampered, st.2 (untampered.suffix tu.1)]

end

variable {S : AppState}

variable {u v : User} {journal' : List Event} {user : User}

theorem user_eq_of_uuid {users : List User} (unique : (users.map User.uuid).Nodup)
    (hu : u ∈ users) (hv : v ∈ users) (same : u.uuid = v.uuid) : u = v :=
  inj_on_of_nodup_map unique hu hv same

theorem passwordFacts_eq (same : u.account = v.account) (verifier : Text) :
    passwordFacts u verifier = passwordFacts v verifier := by
  obtain ⟨uuid,email,enc,project⟩ := u
  obtain ⟨uuid',email',enc',project'⟩ := v
  simp only [User.account, Account.mk.injEq] at same
  obtain ⟨rfl,rfl,rfl⟩ := same
  rfl

@[simp] theorem passwordFacts_userUuid (user : User) (verifier : Text) :
    (passwordFacts user verifier).userUuid = user.uuid := rfl

@[simp] theorem passwordFacts_kind (user : User) (verifier : Text) :
    (passwordFacts user verifier).kind = .password := rfl

@[simp] theorem oauthFacts_kind (user : User) (provider subject : Text) :
    (oauthFacts user provider subject).kind = .oauth := rfl

theorem oauth_ne_password : CredentialKind.oauth.asStr ≠ CredentialKind.password.asStr := by decide

theorem SealedFor.mono {journal : List Event} {user' : User} {seed : Bytes}
    {row : UserSeedWrapping} (h : SealedFor journal user seed row) (sub : journal <:+ journal')
    (same : user'.account = user.account) : SealedFor journal' user' seed row := by
  obtain ⟨version,facts,forUser,forProject,kind,mem⟩ := h
  simp only [User.account, Account.mk.injEq] at same
  exact ⟨version,facts,forUser.trans same.1.symm,forProject.trans same.2.2.symm,kind,sub.mem mem⟩

theorem AccountOk.mono {journal : List Event} {rows : List UserSeedWrapping}
    {seed : Bytes} (h : AccountOk S journal rows user seed) (sub : journal <:+ journal')
    (newest : newestStored journal' user.uuid = newestStored journal user.uuid) :
    AccountOk S journal' rows user seed := by
  refine ⟨fun row mem => (h.1 row mem).mono sub rfl,?_⟩
  have state := h.2
  unfold PasswordState at state ⊢
  split
  · rename_i noPassword
    rw [noPassword] at state
    rw [newest]
    exact state
  · rename_i enc hasPassword
    rw [hasPassword] at state
    obtain ⟨cause,verifier,row,opens,stored,only,mem⟩ := state
    exact ⟨cause,verifier,row,opens,by rw [newest, stored],only,sub.mem mem⟩

/-- What a credential transaction does to one account: the account's row and
    wraps are replaced, everything else stays, and the journal says so. -/
structure CredentialCommit (S : AppState) (w w' : World) (user : User) (events : List Event) :
    Prop where
  journal : w'.journal = events ++ w.journal
  providers : w'.db.providers = w.db.providers
  present : user ∈ w'.db.users
  others : ∀ other, other.uuid ≠ user.uuid → (other ∈ w'.db.users ↔ other ∈ w.db.users)
  uuids : (w'.db.users.map User.uuid).Nodup
  identity : ∀ old ∈ w.db.users, old.uuid = user.uuid → old.account = user.account
  created : .created user.account ∈ w'.journal
  otherWraps : ∀ uuid, uuid ≠ user.uuid → w'.db.wrapsOf uuid = w.db.wrapsOf uuid
  account : ∃ seed, AccountOk S w'.journal (w'.db.wrapsOf user.uuid) user seed
  about : ∀ event ∈ events, event = .created user.account ∨ event.concerns = some user.uuid
  settled : ∀ facts seed sealed, .wrapped facts seed sealed ∈ events →
    OneSeed w'.journal user.uuid seed
  reset : WasReset w'.journal user.uuid →
    ∀ row ∈ w'.db.wrapsOf user.uuid, row.credentialKind ≠ CredentialKind.oauth.asStr
  connections : ∀ connection ∈ w'.db.connections,
    (connection ∈ w.db.connections ∧ connection.userId ≠ user.uuid) ∨ Connected w' connection

theorem backed_append {events journal : List Event}
    (silent : ∀ event ∈ events, ∀ facts presented, event ≠ .verified facts presented)
    (backed : Justified Grounds journal) : Justified Grounds (events ++ journal) := by
  induction events with
  | nil => exact backed
  | cons event events ih =>
    refine ⟨?_,ih fun e mem => silent e (mem_cons_of_mem _ mem)⟩
    cases event with
    | verified facts presented => exact absurd rfl (silent _ (by simp) facts presented)
    | _ => trivial

namespace CredentialCommit
variable {w w' : World} {user : User} {events : List Event}
  (c : CredentialCommit S w w' user events)
include c

theorem sub : w.journal <:+ w'.journal :=
  ⟨events,c.journal.symm⟩

variable {uuid : Uuid}

theorem concerns_before {event : Event}
    (mem : event ∈ w'.journal) (concerns : event.concerns = some uuid) :
    uuid = user.uuid ∨ event ∈ w.journal := by
  rw [c.journal] at mem
  rcases mem_append.mp mem with new | old
  · rcases c.about _ new with rfl | forUser
    · cases concerns
    · exact .inl (Option.some.inj (concerns.symm.trans forUser))
  · exact .inr old

theorem newestStored_other (other : uuid ≠ user.uuid) :
    newestStored w'.journal uuid = newestStored w.journal uuid := by
  have silent : newestStored events uuid = none := by
    refine newestStored_eq_none fun cause facts seed mem same => ?_
    rcases c.about _ mem with made | forUser
    · cases made
    · exact other (same.symm.trans (Option.some.inj forUser))
  rw [c.journal, newestStored_append, silent, Option.none_or]

theorem created_before {account : Account}
    (mem : .created account ∈ w'.journal) :
    account = user.account ∨ .created account ∈ w.journal := by
  rw [c.journal] at mem
  rcases mem_append.mp mem with new | old
  · rcases c.about _ new with made | forUser
    · cases made; exact .inl rfl
    · cases forUser
  · exact .inr old

variable {facts : AuthFacts} {seed sealed : Bytes}

theorem wrapped_own (new : .wrapped facts seed sealed ∈ events) : facts.userUuid = user.uuid := by
  rcases c.about _ new with made | forUser
  · cases made
  · exact Option.some.inj forUser

theorem wrapped_settled (before : Consistent S w) (mem : .wrapped facts seed sealed ∈ w'.journal) :
    OneSeed w'.journal facts.userUuid seed := by
  intro facts' seed' sealed' mem' same
  rw [c.journal] at mem mem'
  rcases mem_append.mp mem with new | old
  · have forUser := c.wrapped_own new
    rw [forUser] at same ⊢
    exact c.settled facts seed sealed new facts' seed' sealed' (by rwa [c.journal]) same
  · rcases mem_append.mp mem' with new' | old'
    · have forUser := c.wrapped_own new'
      have one := c.settled facts' seed' sealed' new' facts seed sealed (by rwa [c.journal])
        (same.symm.trans forUser)
      rw [← same, forUser]
      exact one.imp Eq.symm id
    · exact (before.settled facts seed sealed old facts' seed' sealed' old' same).imp id
        (WasReset.mono · c.sub)

theorem user_after {old : User} (mem : old ∈ w.db.users) :
    ∃ later ∈ w'.db.users, later.account = old.account := by
  by_cases same : old.uuid = user.uuid
  · exact ⟨user,c.present,(c.identity old mem same).symm⟩
  · exact ⟨old,(c.others old same).mpr mem,rfl⟩

theorem connected_other {connection : UserOAuthConnection}
    (h : Connected w connection) (other : connection.userId ≠ user.uuid) :
    Connected w' connection := by
  obtain ⟨owner,mem,owns,provider,listed,sameId,row,held,kind,seed,sealed⟩ := h
  have elsewhere : owner.uuid ≠ user.uuid := fun same => other (owns.symm.trans same)
  refine ⟨owner,(c.others owner elsewhere).mpr mem,owns,provider,by rwa [c.providers],sameId,row,
    ?_,kind,seed,c.sub.mem sealed⟩
  rwa [c.otherWraps _ elsewhere]

theorem consistent (before : Consistent S w) : Consistent S w' where
  backed := by
    rw [c.journal]
    refine backed_append (fun event mem facts presented made => ?_) before.backed
    subst made
    rcases c.about _ mem with other | other <;> cases other
  uuids := c.uuids
  created := by
    intro account mem
    rcases c.created_before mem with rfl | old
    · exact ⟨user,c.present,rfl⟩
    · obtain ⟨row,inUsers,rfl⟩ := before.created account old
      exact c.user_after inUsers
  journalled := by
    intro row mem
    by_cases same : row.uuid = user.uuid
    · rw [user_eq_of_uuid c.uuids mem c.present same]
      exact c.created
    · exact c.sub.mem (before.journalled row ((c.others row same).mp mem))
  known := by
    intro event mem uuid concerns
    rcases c.concerns_before mem concerns with rfl | old
    · exact ⟨user,c.present,rfl⟩
    · obtain ⟨row,inUsers,same⟩ := before.known event old uuid concerns
      obtain ⟨later,inLater,account⟩ := c.user_after inUsers
      exact ⟨later,inLater,(congrArg Account.uuid account).trans same⟩
  settled := fun _ _ _ mem => c.wrapped_settled before mem
  owned := by
    intro row mem
    by_cases same : row.userId = user.uuid
    · exact ⟨user,c.present,same.symm⟩
    · have old : row ∈ w.db.wrapsOf row.userId := by
        rw [← c.otherWraps _ same]
        exact Database.mem_wrapsOf.mpr ⟨mem,rfl⟩
      obtain ⟨owner,inUsers,owns⟩ := before.owned row (Database.mem_wrapsOf.mp old).1
      obtain ⟨later,inLater,account⟩ := c.user_after inUsers
      exact ⟨later,inLater,(congrArg Account.uuid account).trans owns⟩
  accounts := by
    intro row mem
    by_cases same : row.uuid = user.uuid
    · rw [user_eq_of_uuid c.uuids mem c.present same]
      exact c.account
    · obtain ⟨seed,ok⟩ := before.accounts row ((c.others row same).mp mem)
      refine ⟨seed,?_⟩
      rw [c.otherWraps _ same]
      exact ok.mono c.sub (c.newestStored_other same)
  reset := by
    intro uuid wasReset
    by_cases same : uuid = user.uuid
    · subst same
      exact c.reset wasReset
    · obtain ⟨facts,seed,mem,forUuid⟩ := wasReset
      have old := (c.concerns_before mem (congrArg some forUuid)).resolve_left same
      rw [c.otherWraps _ same]
      exact before.reset uuid ⟨facts,seed,old,forUuid⟩
  connected := by
    intro connection mem
    rcases c.connections connection mem with ⟨old,other⟩ | now
    · exact c.connected_other (before.connected connection old) other
    · exact now

end CredentialCommit

end OpenSecret

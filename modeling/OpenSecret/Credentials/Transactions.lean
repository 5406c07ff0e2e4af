import OpenSecret.Credentials.Invariant

/-!
The four transactions that write credentials restore the invariant: two that
create an account, the password change and the destructive reset.
-/
namespace OpenSecret
open Framing Chronicle Interleaving List

variable {S : AppState} {w w' : World} {user : User} {verifier : Text} {seed : Bytes}

structure WrapFor (S : AppState) (facts : AuthFacts) (seed : Bytes) (new : UserSeedWrapping) :
    Prop where
  owner : new.userId = facts.userUuid
  kind : new.credentialKind = facts.kind.asStr
  version : new.wrappingVersion = seedWrapVersionV1
  valid : WrapValid S facts seed new.seedEnc

variable {binding : AuthBinding} {provider subject : Text} {nonce : Nonce} {new : UserSeedWrapping}
  {events : List Event}

theorem passwordAuthBindingForUser_ok :
    passwordAuthBindingForUser S user verifier = .ok binding ↔
      (passwordFacts user verifier).authBinding S.primitives S.enclaveKey = .ok binding := by
  simp only [passwordAuthBindingForUser, Outcome.mapErr_eq_ok]
  rfl

theorem oauthAuthBindingForUser_ok :
    oauthAuthBindingForUser S user provider subject = .ok binding ↔
      (oauthFacts user provider subject).authBinding S.primitives S.enclaveKey = .ok binding := by
  simp only [oauthAuthBindingForUser, Outcome.mapErr_eq_ok]
  rfl

theorem newSeedWrapping_ok {kind : CredentialKind} {authBinding : Outcome Error AuthBinding}
    {lookupHash : Outcome EncryptError CredentialLookupHash} {failure : Text}
    (h : newSeedWrapping S user kind authBinding lookupHash failure seed nonce = .ok new) :
    ∃ binding, authBinding = .ok binding ∧
      encryptSeedV1 S.primitives S.enclaveKey nonce seed user.uuid user.projectId kind binding =
        .ok new.seedEnc ∧
      new.userId = user.uuid ∧ new.credentialKind = kind.asStr ∧
      new.wrappingVersion = seedWrapVersionV1 := by
  simp only [newSeedWrapping, Outcome.bind_eq_ok, Outcome.mapErr_eq_ok] at h
  obtain ⟨binding,bound,lookup,_,seedEnc,sealing,_,_,same⟩ := h
  cases same
  exact ⟨binding,bound,sealing,rfl,rfl,rfl⟩

theorem newPasswordSeedWrappingForUser_ok
    (h : newPasswordSeedWrappingForUser S user verifier seed nonce = .ok new) :
    WrapFor S (passwordFacts user verifier) seed new := by
  obtain ⟨binding,bound,sealing,owner,kind,version⟩ := newSeedWrapping_ok h
  exact ⟨owner,kind,version,nonce,binding,passwordAuthBindingForUser_ok.mp bound,sealing⟩

theorem newOauthSeedWrappingForUser_ok
    (h : newOauthSeedWrappingForUser S user provider subject seed nonce = .ok new) :
    WrapFor S (oauthFacts user provider subject) seed new := by
  obtain ⟨binding,bound,sealing,owner,kind,version⟩ := newSeedWrapping_ok h
  exact ⟨owner,kind,version,nonce,binding,oauthAuthBindingForUser_ok.mp bound,sealing⟩

theorem encryptUserPasswordVerifier_ok (env : Environment S) {password : Text} {salt : Bytes}
    {encrypted : Bytes}
    (h : encryptUserPasswordVerifier S password salt nonce = .ok (verifier,encrypted)) :
    verifier = S.generateHash password salt ∧ decryptVerifier S encrypted = .ok verifier := by
  simp only [encryptUserPasswordVerifier, Outcome.bind_eq_ok, Outcome.mapErr_eq_ok] at h
  obtain ⟨key,haveKey,sealed,sealing,same⟩ := h
  cases same
  refine ⟨rfl,?_⟩
  simp only [decryptVerifier, Outcome.bind_eq_ok, Outcome.mapErr_eq_ok, Outcome.ofOption_eq_ok]
  exact ⟨key,haveKey,_,decryptWithKey_encryptWithKey env.aead sealing,decodeUtf8_utf8 _⟩

/-- A transaction keeps the invariant if it stores no bytes but those it has just
    sealed, journals nothing else that needs a reason, and keeps untouched worlds
    consistent. -/
theorem Invariant.commit {facts : AuthFacts} (inv : Invariant S w) (wrap : WrapFor S facts seed new)
    (journal : w'.journal = events ++ w.journal) (sealed : .wrapped facts seed new.seedEnc ∈ events)
    (sound : ∀ event ∈ events, event = .wrapped facts seed new.seedEnc ∨
      ∀ older, Justifies S older event)
    (rows : ∀ row ∈ w'.db.wraps, row ∈ w.db.wraps ∨ row.seedEnc = new.seedEnc)
    (providers : w'.db.providers = w.db.providers)
    (consistent : Untampered w'.journal → Consistent S w → Consistent S w') :
    Invariant S w' ∧ (discipline S).frame w w' := by
  refine ⟨⟨?_,?_,?_⟩,⟨events,journal.symm⟩,fun _ => providers⟩
  · rw [journal]
    clear journal sealed
    induction events with
    | nil => exact inv.justified
    | cons event events ih =>
      refine ⟨?_,ih fun e mem => sound e (mem_cons_of_mem _ mem)⟩
      rcases sound event (by simp) with rfl | justified
      · exact wrap.valid
      · exact justified _
  · intro row mem
    rcases rows row mem with old | same
    · exact (inv.genuine row old).mono ⟨events,journal.symm⟩
    · intro _ _ _ _ _ _
      exact ⟨facts,seed,by rw [journal, same]; exact mem_append_left _ sealed⟩
  · intro untampered
    exact consistent untampered (inv.consistent (untampered.suffix ⟨events,journal.symm⟩))

theorem insertUser_ok {lower : Text → Text} {db db' : Database} {uuid : Uuid} {new : NewUser}
    (h : db.insertUser lower uuid new = .ok (user,db')) :
    user = ⟨uuid,new.email,new.passwordEnc,new.projectId⟩ ∧
      db' = { db with users := db.users ++ [user] } ∧ ∀ u ∈ db.users, u.uuid ≠ user.uuid := by
  simp only [Database.insertUser] at h
  split at h
  · cases h
  · rename_i free
    cases h
    refine ⟨rfl,rfl,fun u mem same => free ?_⟩
    rw [any_eq_true]
    exact ⟨u,mem,by simp [same]⟩

section
variable {facts : AuthFacts} {new : UserSeedWrapping} {events : List Event}

theorem wrapsOf_append {db : Database} {wraps : List UserSeedWrapping}
    (appended : db.wraps = wraps ++ [new]) (uuid : Uuid) :
    db.wrapsOf uuid = wraps.filter (·.userId = uuid) ++ if new.userId = uuid
      then [new] else [] := by
  simp only [Database.wrapsOf, appended, filter_append]
  congr 1
  by_cases same : new.userId = uuid <;> simp [same]

variable {uuid : Uuid} {newUser : NewUser} {nonce : Nonce} {provider : OAuthProvider}
  {providerName providerUserId : Text} {accessTokenEnc : Bytes}

theorem wrapsOf_fresh (before : Consistent S w)
    (fresh : ∀ u ∈ w.db.users, u.uuid ≠ uuid) : w.db.wrapsOf uuid = [] := by
  rw [eq_nil_iff_forall_not_mem]
  intro row mem
  obtain ⟨inWraps,forUser⟩ := Database.mem_wrapsOf.mp mem
  obtain ⟨owner,inUsers,owns⟩ := before.owned row inWraps
  exact fresh owner inUsers (owns.trans forUser)

/-- Both ways to create an account: a fresh row, its only wrap, and at most a
    connection that the wrap serves. -/
theorem create_keeps (inv : Invariant S w) (fresh : ∀ u ∈ w.db.users, u.uuid ≠ user.uuid)
    (wrap : WrapFor S facts seed new) (forUser : facts.userUuid = user.uuid)
    (forProject : facts.projectId = user.projectId) (journal : w'.journal = events ++ w.journal)
    (about : ∀ event ∈ events, event = .created user.account ∨
      event = .wrapped facts seed new.seedEnc ∨ event = .stored .registration facts seed)
    (made : .created user.account ∈ events) (sealed : .wrapped facts seed new.seedEnc ∈ events)
    {base : Database} (db : w'.db = base.upsertByCredential new)
    (providers : base.providers = w.db.providers) (users : base.users = w.db.users ++ [user])
    (wraps : base.wraps = w.db.wraps)
    (state : Consistent S w → PasswordState S w'.journal [new] user seed)
    (connections : Untampered w'.journal → user ∈ w'.db.users → new ∈ w'.db.wraps →
      ∀ connection ∈ base.connections, connection ∈ w.db.connections ∨ Connected w' connection) :
    Invariant S w' ∧ (discipline S).frame w w' := by
  have providers : w'.db.providers = w.db.providers := by
    rw [db, Database.upsertByCredential_eq, providers]
  refine inv.commit wrap journal sealed (fun event mem => ?_) (fun row mem => ?_) providers
    fun untampered before => ?_
  · rcases about event mem with rfl | sealed | rfl
    · exact .inr fun _ => trivial
    · exact .inl sealed
    · exact .inr fun _ => trivial
  · rw [db] at mem
    rw [← wraps]
    exact Database.upsertByCredential_rows mem
  have owner : new.userId = user.uuid := wrap.owner.trans forUser
  have none_before := wrapsOf_fresh before fresh
  have empty : base.wrapsOf new.userId = [] := by
    rw [Database.wrapsOf, wraps, owner]
    exact none_before
  replace db := db.trans (Database.upsertByCredential_fresh empty)
  have users : w'.db.users = w.db.users ++ [user] := by rw [db, users]
  have wraps : w'.db.wraps = w.db.wraps ++ [new] := by rw [db, wraps]
  have only : w'.db.wrapsOf user.uuid = [new] := by
    have append := wrapsOf_append wraps user.uuid
    rw [Database.wrapsOf] at none_before
    rwa [none_before, if_pos owner] at append
  refine @CredentialCommit.consistent S w w' user _
    { journal, providers
      present := by rw [users]; simp
      others := ?_
      uuids := ?_
      identity := fun old mem same => absurd same (fresh old mem)
      created := by rw [journal]; exact mem_append_left _ made
      otherWraps := ?_
      account := ?_
      about := ?_
      settled := ?_
      reset := ?_
      connections := ?_ } before
  · intro other elsewhere
    rw [users]
    simp only [mem_append, mem_singleton, or_iff_left_iff_imp]
    intro same
    exact absurd (congrArg User.uuid same) elsewhere
  · rw [users, map_append, nodup_append]
    refine ⟨before.uuids,by simp,?_⟩
    intro uuid old uuid' last same
    obtain ⟨u,mem,rfl⟩ := mem_map.mp old
    simp only [map_cons, map_nil, mem_singleton] at last
    exact fresh u mem (same.trans last)
  · intro uuid elsewhere
    rw [wrapsOf_append wraps, if_neg (fun same => elsewhere (same.symm.trans owner))]
    simp [Database.wrapsOf]
  · refine ⟨seed,?_,by rw [only]; exact state before⟩
    rw [only]
    intro row mem
    rw [mem_singleton.mp mem]
    refine ⟨wrap.version,facts,forUser,forProject,wrap.kind,?_⟩
    rw [journal]
    exact mem_append_left _ sealed
  · intro event mem
    rcases about event mem with h | rfl | rfl
    · exact .inl h
    · exact .inr (congrArg some forUser)
    · exact .inr (congrArg some forUser)
  · intro facts' held sealed' inEvents other seed' sealed'' mem same
    left
    rcases about _ inEvents with h | h | h <;> cases h
    rw [journal] at mem
    rcases mem_append.mp mem with late | early
    · rcases about _ late with h | h | h <;> cases h
      rfl
    · obtain ⟨u,inUsers,uuid⟩ := before.known _ early _ rfl
      exact absurd (uuid.trans same) (fresh u inUsers)
  · rintro ⟨facts',held,mem,same⟩
    rw [journal] at mem
    rcases mem_append.mp mem with late | early
    · rcases about _ late with h | h | h <;> cases h
    · obtain ⟨u,inUsers,uuid⟩ := before.known _ early _ rfl
      exact absurd (uuid.trans same) (fresh u inUsers)
  · intro connection mem
    rw [db] at mem
    rcases connections untampered (by rw [users]; simp) (by rw [wraps]; simp)
      connection mem with old | now
    · obtain ⟨u,inUsers,owns,_⟩ := before.connected connection old
      exact .inl ⟨old,fun same => fresh u inUsers (owns.trans same)⟩
    · exact .inr now

@[simp] theorem databaseFailed_eq_ok {α : Type} {x : Except DBError α} {a : α} :
    databaseFailed x = .ok a ↔ x = .ok a := by
  cases x <;> simp [databaseFailed, Except.mapError]

theorem createUserWithPasswordSeedWrap_ok
    (h : createUserWithPasswordSeedWrap S newUser uuid verifier seed nonce w = .ok (user,w')) :
    ∃ new, WrapFor S (passwordFacts user verifier) seed new ∧
      (∀ u ∈ w.db.users, u.uuid ≠ user.uuid) ∧ user.passwordEnc = newUser.passwordEnc ∧
      w'.db = Database.upsertByCredential { w.db with users := w.db.users ++ [user] } new ∧
      w'.journal = [.stored .registration (passwordFacts user verifier) seed,
        .wrapped (passwordFacts user verifier) seed new.seedEnc,.created user.account] ++
        w.journal := by
  simp only [createUserWithPasswordSeedWrap, Outcome.bind_eq_ok, databaseFailed_eq_ok] at h
  obtain ⟨⟨row,db⟩,inserted,new,prepared,same⟩ := h
  obtain ⟨shape,rfl,fresh⟩ := insertUser_ok inserted
  cases same
  exact ⟨new,newPasswordSeedWrappingForUser_ok prepared,fresh,by rw [shape],rfl,rfl⟩

theorem createUserWithPasswordSeedWrap_keeps {encrypted : Bytes} (inv : Invariant S w)
    (password : newUser.passwordEnc = some encrypted)
    (opens : decryptVerifier S encrypted = .ok verifier)
    (h : createUserWithPasswordSeedWrap S newUser uuid verifier seed nonce w = .ok (user,w')) :
    Invariant S w' ∧ (discipline S).frame w w' := by
  obtain ⟨new,wrap,fresh,sameEnc,db,journal⟩ := createUserWithPasswordSeedWrap_ok h
  refine create_keeps inv fresh wrap rfl rfl journal (by simp)
    (by simp) (by simp) db rfl rfl rfl (fun _ => ?_)
    fun _ _ _ connection mem => .inl mem
  simp only [PasswordState, sameEnc, password]
  refine ⟨.registration,verifier,new,opens,?_,?_,by rw [journal]; simp⟩
  · simp [journal, newestStored]
  · simp [passwordRows, wrap.kind]

theorem createUserWithOauthSeedWrap_ok
    (h : createUserWithOauthSeedWrap S newUser uuid provider providerName providerUserId
      accessTokenEnc seed nonce w = .ok (user,w')) :
    ∃ new, WrapFor S (oauthFacts user providerName providerUserId) seed new ∧
      (∀ u ∈ w.db.users, u.uuid ≠ user.uuid) ∧ user.passwordEnc = newUser.passwordEnc ∧
      w'.db = Database.upsertByCredential
        (Database.insertConnection { w.db with users := w.db.users ++ [user] } user.uuid provider.id
          providerUserId accessTokenEnc) new ∧
      w'.journal = [.wrapped (oauthFacts user providerName providerUserId) seed new.seedEnc,
        .created user.account] ++ w.journal := by
  simp only [createUserWithOauthSeedWrap, Outcome.bind_eq_ok, databaseFailed_eq_ok] at h
  obtain ⟨⟨row,db⟩,inserted,new,prepared,same⟩ := h
  obtain ⟨shape,rfl,fresh⟩ := insertUser_ok inserted
  cases same
  exact ⟨new,newOauthSeedWrappingForUser_ok prepared,fresh,by rw [shape],rfl,rfl⟩

theorem createUserWithOauthSeedWrap_keeps (inv : Invariant S w)
    (noPassword : newUser.passwordEnc = none) (named : provider.name = providerName)
    (listed : Untampered w.journal → provider ∈ w.db.providers)
    (h : createUserWithOauthSeedWrap S newUser uuid provider
      providerName providerUserId accessTokenEnc seed nonce w = .ok (user,w')) :
    Invariant S w' ∧ (discipline S).frame w w' := by
  obtain ⟨new,wrap,fresh,sameEnc,db,journal⟩ := createUserWithOauthSeedWrap_ok h
  refine create_keeps inv fresh wrap rfl rfl journal (by simp) (by simp) (by simp) db rfl rfl rfl
    (fun before => ?_) fun untampered present stored connection mem => ?_
  · have none_stored : newestStored w.journal user.uuid = none := by
      refine newestStored_eq_none fun cause facts held mem same => ?_
      obtain ⟨u,inUsers,uuid⟩ := before.known _ mem _ rfl
      exact fresh u inUsers (uuid.trans same)
    simp only [PasswordState, sameEnc, noPassword]
    refine ⟨by simpa [journal, newestStored] using none_stored,?_⟩
    rw [passwordRows, filter_eq_nil_iff]
    intro row mem
    rw [mem_singleton.mp mem, wrap.kind, oauthFacts_kind]
    simpa using oauth_ne_password
  · rcases mem_snoc.mp mem with old | rfl
    · exact .inl old
    · right
      have there := listed (untampered.suffix ⟨_,journal.symm⟩)
      refine ⟨user,present,rfl,provider,?_,rfl,new,Database.mem_wrapsOf.mpr ⟨stored,wrap.owner⟩,
        wrap.kind,seed,?_⟩
      · rw [db, Database.upsertByCredential_eq]
        exact there
      · rw [named, journal]; simp

end

section
variable {u : User} {encrypted : Bytes} {new : UserSeedWrapping} {cause : Cause}

theorem setPassword_uuids (db : Database) (affected : User → Bool) (encrypted : Bytes) :
    (db.setPassword affected encrypted).users.map User.uuid = db.users.map User.uuid := by
  simp only [Database.setPassword, map_map]
  refine map_congr_left fun x _ => ?_
  simp only [Function.comp_apply]
  split <;> rfl

variable {db : Database} {affected : User → Bool} {db' : Database} {expected : Bytes}
  {request : PasswordResetRequest} {now : Int}

theorem setPassword_present (mem : u ∈ db.users) (hit : affected u = true) :
    { u with passwordEnc := some encrypted } ∈ (db.setPassword affected encrypted).users :=
  mem_map.mpr ⟨u,mem,by rw [if_pos hit]⟩

theorem setPassword_others (only : ∀ x, affected x = true → x.uuid = u.uuid) (other : User)
    (elsewhere : other.uuid ≠ u.uuid) :
    other ∈ (db.setPassword affected encrypted).users ↔ other ∈ db.users := by
  constructor
  · intro mem
    obtain ⟨x,inUsers,same⟩ := mem_map.mp mem
    by_cases hit : affected x = true
    · rw [if_pos hit] at same
      exact absurd ((congrArg User.uuid same).symm.trans (only x hit)) elsewhere
    · rw [if_neg hit] at same
      rwa [← same]
  · intro mem
    have miss : ¬ affected other = true := fun hit => elsewhere (only other hit)
    exact mem_map.mpr ⟨other,mem,by rw [if_neg miss]⟩

/-- What a password change knows when it commits: the account it read exists and
    the seed it read was sealed for that account. -/
def Prepared (journal : List Event) (user : User) (seed : Bytes) : Prop :=
  .created user.account ∈ journal ∧
    ∃ facts sealed, .wrapped facts seed sealed ∈ journal ∧ facts.userUuid = user.uuid

/-- A wrap that a password change leaves alone holds the seed the change has
    read: otherwise a reset came between, and it has deleted that wrap. -/
theorem Consistent.sealed_for_read (before : Consistent S w) (mem : user ∈ w.db.users)
    (one : OneSeed w.journal user.uuid seed) {row : UserSeedWrapping}
    (inRows : row ∈ w.db.wrapsOf user.uuid)
    (kind : row.credentialKind ≠ CredentialKind.password.asStr) :
    SealedFor w.journal user seed row := by
  obtain ⟨held,rows,_⟩ := before.accounts user mem
  obtain ⟨facts,forUser,_,rowKind,sealed⟩ := (rows row inRows).sealed
  rcases one facts held row.seedEnc sealed forUser with rfl | wasReset
  · exact rows row inRows
  · have oauth := before.reset user.uuid wasReset row inRows
    rw [rowKind] at kind oauth
    cases same : facts.kind with
    | password => rw [same] at kind; exact absurd rfl kind
    | oauth => rw [same] at oauth; exact absurd rfl oauth

theorem current_row (before : Consistent S w) (made : .created user.account ∈ w.journal) :
    ∃ u ∈ w.db.users, u.account = user.account ∧ u.uuid = user.uuid ∧
      ∀ x ∈ w.db.users, x.uuid = user.uuid → x = u := by
  obtain ⟨u,mem,account⟩ := before.created _ made
  have uuid : u.uuid = user.uuid := congrArg Account.uuid account
  exact ⟨u,mem,account,uuid,fun x inUsers same =>
    user_eq_of_uuid before.uuids inUsers mem (same.trans uuid.symm)⟩

theorem wrapsOf_spared {rows : List UserSeedWrapping} {affected : UserSeedWrapping → Bool}
    {uuid : Uuid} (spared : ∀ row, row.userId = uuid → affected row = false) :
    (rows.filter (fun row => !affected row)).filter (·.userId = uuid) =
      rows.filter (·.userId = uuid) := by
  rw [filter_filter]
  refine filter_congr fun row _ => ?_
  by_cases same : row.userId = uuid
  · simp [same, spared row same]
  · simp [same]

section
variable (gone : UserSeedWrapping → Bool) (opens : decryptVerifier S encrypted = .ok verifier)
  (wrap : WrapFor S (passwordFacts user verifier) seed new)
  (journal : w'.journal = [.stored cause (passwordFacts user verifier) seed,
    .wrapped (passwordFacts user verifier) seed new.seedEnc] ++ w.journal)
  (providers : w'.db.providers = w.db.providers)
  (users : w'.db.users = (w.db.setPassword affected encrypted).users)
  (only : ∀ x, affected x = true → x.uuid = user.uuid)
  (wraps : w'.db.wraps =
    w.db.wraps.filter (fun row => !(row.userId = user.uuid && gone row)) ++ [new])
  (passwords : ∀ row, row.credentialKind = CredentialKind.password.asStr → gone row = true)
  (connections : ∀ connection ∈ w'.db.connections, connection ∈ w.db.connections ∧
    (connection.userId = user.uuid → ∀ row, row.credentialKind = CredentialKind.oauth.asStr →
      gone row = false))
include opens wrap journal providers users only wraps passwords connections

/-- Both ways to rotate the password of an account: some of its wraps, among them
    those of a password, give way to one new wrap, and what stays holds the same seed. -/
theorem rotate_consistent (before : Consistent S w) (mem : u ∈ w.db.users)
    (account : u.account = user.account) (hit : affected u = true)
    (one : cause = .destructiveReset ∧ (∀ row, gone row = true) ∨
      cause ≠ .destructiveReset ∧ OneSeed w.journal u.uuid seed) : Consistent S w' := by
  have sub : w.journal <:+ w'.journal := ⟨_,journal.symm⟩
  rw [← passwordFacts_eq account] at wrap journal
  rw [← show u.uuid = user.uuid from congrArg Account.uuid account] at only wraps connections
  have present : { u with passwordEnc := some encrypted } ∈ w'.db.users := by
    rw [users]
    exact setPassword_present mem hit
  have owner : new.userId = u.uuid := wrap.owner
  have newKind : new.credentialKind = CredentialKind.password.asStr := wrap.kind
  have wrapsOf := wrapsOf_append wraps
  have own : w'.db.wrapsOf u.uuid = (w.db.wrapsOf u.uuid).filter (!gone ·) ++ [new] := by
    rw [wrapsOf, if_pos owner, Database.wrapsOf, filter_filter, filter_filter]
    congr 1
    refine filter_congr fun row _ => ?_
    by_cases same : row.userId = u.uuid <;> simp [same]
  have rows : ∀ row ∈ w'.db.wrapsOf u.uuid, row ∈ w.db.wrapsOf u.uuid ∧ gone row = false ∨
      row = new := by
    intro row inRows
    simpa [own] using inRows
  refine @CredentialCommit.consistent S w w' { u with passwordEnc := some encrypted } _
    { journal, providers, present
      others := fun other elsewhere => by rw [users, setPassword_others only other elsewhere]
      uuids := by rw [users, setPassword_uuids]; exact before.uuids
      identity := fun x inUsers same => by
        rw [user_eq_of_uuid before.uuids inUsers mem same]; rfl
      created := sub.mem (before.journalled u mem)
      otherWraps := ?_
      account := ⟨seed,?_,?_⟩
      about := ?_
      settled := ?_
      reset := ?_
      connections := ?_ } before
  · intro other elsewhere
    rw [wrapsOf, if_neg (fun same => elsewhere (same.symm.trans owner)), append_nil]
    refine wrapsOf_spared fun row same => ?_
    have foreign : row.userId ≠ u.uuid := fun h => elsewhere (same.symm.trans h)
    simp [foreign]
  · intro row inRows
    rcases rows row inRows with ⟨old,stays⟩ | rfl
    · rcases one with ⟨_,all⟩ | ⟨_,same⟩
      · rw [all] at stays
        cases stays
      · have other : row.credentialKind ≠ CredentialKind.password.asStr := by
          intro kind
          rw [passwords row kind] at stays
          cases stays
        exact (before.sealed_for_read mem same old other).mono sub rfl
    · exact ⟨wrap.version,passwordFacts u verifier,rfl,rfl,wrap.kind,by rw [journal]; simp⟩
  · refine ⟨cause,verifier,new,opens,?_,?_,?_⟩
    · rw [journal]
      simp [newestStored]
      rfl
    · rw [own, passwordRows, filter_append, filter_eq_nil_iff.mpr]
      · simp [newKind]
      · intro row early kind
        have stays := (mem_filter.mp early).2
        rw [passwords row (of_decide_eq_true kind)] at stays
        cases stays
    · rw [journal]
      exact mem_append_left _ (mem_cons_of_mem _ (mem_singleton.mpr rfl))
  · intro event inEvents
    simp only [mem_cons, not_mem_nil, or_false] at inEvents
    rcases inEvents with rfl | rfl
    · exact .inr rfl
    · exact .inr rfl
  · intro facts held sealed inEvents
    simp only [mem_cons, reduceCtorEq, Event.wrapped.injEq, not_mem_nil, or_false,
      false_or] at inEvents
    obtain ⟨_,rfl,_⟩ := inEvents
    rcases one with ⟨rfl,_⟩ | ⟨_,same⟩
    · intro _ _ _ _ _
      exact .inr ⟨passwordFacts u verifier,held,by rw [journal]; simp,rfl⟩
    · intro facts' held' sealed' mem' forUser
      rw [journal] at mem'
      simp only [cons_append, nil_append, mem_cons, reduceCtorEq, Event.wrapped.injEq,
        false_or] at mem'
      rcases mem' with ⟨_,now,_⟩ | past
      · exact .inl now
      · exact (same facts' held' sealed' past forUser).imp id (WasReset.mono · sub)
  · rintro ⟨facts,held,reset,same⟩ row inRows kind
    rcases rows row inRows with ⟨old,stays⟩ | rfl
    · rw [journal] at reset
      simp only [cons_append, nil_append, mem_cons, Event.stored.injEq, reduceCtorEq,
        false_or] at reset
      rcases one with ⟨_,all⟩ | ⟨other,_⟩
      · rw [all] at stays
        cases stays
      · rcases reset with ⟨now,_,_⟩ | past
        · exact other now.symm
        · exact before.reset u.uuid ⟨facts,held,past,same⟩ row old kind
    · rw [newKind] at kind
      exact oauth_ne_password kind.symm
  · intro connection inConnections
    obtain ⟨past,keepsOauth⟩ := connections connection inConnections
    by_cases same : connection.userId = u.uuid
    · right
      obtain ⟨owner,inUsers,owns,provider,listed,sameId,row,held,kind,heldSeed,sealed⟩ :=
        before.connected connection past
      obtain rfl := user_eq_of_uuid before.uuids inUsers mem (owns.trans same)
      refine ⟨_,present,owns,provider,by rwa [providers],sameId,row,?_,kind,heldSeed,sub.mem sealed⟩
      rw [own]
      exact mem_append_left _ (mem_filter.mpr ⟨held,by rw [keepsOauth same row kind]; rfl⟩)
    · exact .inl ⟨past,same⟩

theorem rotate_keeps (inv : Invariant S w)
    (made : Untampered w.journal → .created user.account ∈ w.journal)
    (found : ∃ x ∈ w.db.users, affected x = true)
    (one : cause = .destructiveReset ∧ (∀ row, gone row = true) ∨
      cause ≠ .destructiveReset ∧ (Untampered w.journal → Prepared w.journal user seed)) :
    Invariant S w' ∧ (discipline S).frame w w' := by
  refine inv.commit wrap journal (by simp) (by simp [Justifies]) (fun row mem => ?_) providers
    fun untampered before => ?_
  · rw [wraps] at mem
    rcases mem_snoc.mp mem with old | rfl
    · exact .inl (mem_filter.mp old).1
    · exact .inr rfl
  · have earlier := untampered.suffix ⟨_,journal.symm⟩
    obtain ⟨u,mem,account,uuid,unique⟩ := current_row before (made earlier)
    obtain ⟨x,inUsers,hit⟩ := found
    obtain rfl := unique x inUsers (only x hit)
    refine rotate_consistent gone opens wrap journal providers
      users only wraps passwords connections before
      mem account hit (one.imp_right fun changed => ⟨changed.1,?_⟩)
    obtain ⟨-,facts,sealed,wasSealed,forUser⟩ := changed.2 earlier
    rw [uuid, ← forUser]
    exact before.settled facts seed sealed wasSealed

end

theorem updateUserPasswordAndSeedWrap_ok
    (h : db.updateUserPasswordAndSeedWrap user expected encrypted new = .ok db') :
    (∃ u ∈ db.users, u.uuid = user.uuid ∧ u.passwordEnc = some expected) ∧
      db'.users = (db.setPassword
        (fun u => u.uuid = user.uuid && u.passwordEnc = some expected) encrypted).users ∧
      db'.wraps = db.wraps.filter (fun row => !(row.userId = user.uuid &&
        row.credentialKind = CredentialKind.password.asStr)) ++ [new] ∧
      db'.connections = db.connections ∧ db'.providers = db.providers := by
  simp only [Database.updateUserPasswordAndSeedWrap, Database.insertWrapping] at h
  split at h
  · cases h
  · rename_i counted
    split at h
    · cases h
    · cases h
      refine ⟨?_,rfl,rfl,rfl,rfl⟩
      have positive : 0 < db.users.countP
          (fun u => u.uuid = user.uuid && u.passwordEnc = some expected) := by omega
      obtain ⟨u,mem,hit⟩ := countP_pos_iff.mp positive
      simp only [Bool.and_eq_true, decide_eq_true_eq] at hit
      exact ⟨u,mem,hit⟩

theorem commitPasswordChange_ok
    (h : commitPasswordChange user expected encrypted new verifier seed w = .ok ((),w')) :
    w.db.updateUserPasswordAndSeedWrap user expected encrypted new = .ok w'.db ∧
      w'.journal = [.stored .passwordChange (passwordFacts user verifier) seed,
        .wrapped (passwordFacts user verifier) seed new.seedEnc] ++ w.journal := by
  unfold commitPasswordChange at h
  cases swapped : w.db.updateUserPasswordAndSeedWrap user expected encrypted new with
  | error e => rw [swapped] at h; cases h
  | ok db => rw [swapped] at h; cases h; exact ⟨rfl,rfl⟩

theorem commitPasswordChange_keeps (inv : Invariant S w)
    (opens : decryptVerifier S encrypted = .ok verifier)
    (wrap : WrapFor S (passwordFacts user verifier) seed new)
    (prepared : Untampered w.journal → Prepared w.journal user seed)
    (h : commitPasswordChange user expected encrypted new verifier seed w = .ok ((),w')) :
    Invariant S w' ∧ (discipline S).frame w w' ∧
      .stored .passwordChange (passwordFacts user verifier) seed ∈ w'.journal := by
  obtain ⟨swapped,journal⟩ := commitPasswordChange_ok h
  obtain ⟨⟨x,inUsers,sameUuid,sameEnc⟩,users,wraps,connections,providers⟩ :=
    updateUserPasswordAndSeedWrap_ok swapped
  rw [← and_assoc]
  refine ⟨rotate_keeps _ opens wrap journal providers users (fun y hit => ?_)
    wraps (fun row kind => by simp [kind])
    (fun connection inConnections => ⟨connections ▸ inConnections,fun _ row kind => ?_⟩) inv
    (fun untampered => (prepared untampered).1) ⟨x,inUsers,by simp [sameUuid, sameEnc]⟩
    (.inr ⟨nofun,prepared⟩),by rw [journal]; simp⟩
  · simp only [Bool.and_eq_true, decide_eq_true_eq] at hit
    exact hit.1
  · simpa [kind] using oauth_ne_password

theorem completeDestructivePasswordReset_ok
    (h : db.completeDestructivePasswordReset user request now encrypted new = .ok db') :
    (∃ u ∈ db.users, u.uuid = user.uuid) ∧ ∃ emptied : Database,
      db' = emptied.upsertByCredential new ∧
      emptied.users = (db.setPassword (·.uuid = user.uuid) encrypted).users ∧
      emptied.wraps = db.wraps.filter (fun row => !(row.userId = user.uuid)) ∧
      emptied.connections = db.connections.filter (·.userId ≠ user.uuid) ∧
      emptied.providers = db.providers := by
  simp only [Database.completeDestructivePasswordReset] at h
  split at h
  · cases h
  · rename_i found
    split at h
    · cases h
    · cases h
      refine ⟨?_,_,rfl,rfl,rfl,rfl,rfl⟩
      simpa using found

theorem commitDestructiveReset_ok
    (h : commitDestructiveReset user request now encrypted new verifier seed w = .ok ((),w')) :
    w.db.completeDestructivePasswordReset user request now encrypted new = .ok w'.db ∧
      w'.journal = [.stored .destructiveReset (passwordFacts user verifier) seed,
        .wrapped (passwordFacts user verifier) seed new.seedEnc] ++ w.journal := by
  simp only [commitDestructiveReset, Outcome.bind_eq_ok, databaseFailed_eq_ok] at h
  obtain ⟨db,completed,same⟩ := h
  cases same
  exact ⟨completed,rfl⟩

theorem commitDestructiveReset_keeps (inv : Invariant S w)
    (opens : decryptVerifier S encrypted = .ok verifier)
    (wrap : WrapFor S (passwordFacts user verifier) seed new)
    (made : Untampered w.journal → .created user.account ∈ w.journal)
    (h : commitDestructiveReset user request now encrypted new verifier seed w = .ok ((),w')) :
    Invariant S w' ∧ (discipline S).frame w w' := by
  obtain ⟨completed,journal⟩ := commitDestructiveReset_ok h
  obtain ⟨⟨x,inUsers,sameUuid⟩,emptied,db,users,wraps,connections,providers⟩ :=
    completeDestructivePasswordReset_ok completed
  have none_left : emptied.wrapsOf new.userId = [] := by
    rw [Database.wrapsOf, wraps, filter_filter, filter_eq_nil_iff]
    intro row _
    simp [show new.userId = user.uuid from wrap.owner]
  rw [Database.upsertByCredential_fresh none_left] at db
  refine rotate_keeps (fun _ => true) opens wrap journal (by rw [db, providers]) (by rw [db, users])
    (fun y hit => of_decide_eq_true hit) (by rw [db, wraps]; simp) (fun _ _ => rfl)
    (fun connection inConnections => ?_) inv made ⟨x,inUsers,decide_eq_true sameUuid⟩
    (.inl ⟨rfl,fun _ => rfl⟩)
  rw [db, connections] at inConnections
  obtain ⟨past,other⟩ := mem_filter.mp inConnections
  refine ⟨past,fun same => ?_⟩
  rw [same] at other
  simp at other

end

end OpenSecret
